import Conduit.Binary64.Decimal
import Conduit.Text.Blank

/-!
# Instants

A point in time to the millisecond, in the Gregorian calendar extended to all years from
-262143 to 262142.
-/

namespace Conduit

/-- Seconds since the start of 1970, and milliseconds.  A leap second has a thousand
milliseconds more than the second before it. -/
structure Instant where
  seconds : Int
  millis : Nat
deriving DecidableEq

namespace Instant

/-! ## The calendar -/

def isLeap (year : Int) : Bool := year % 4 == 0 && (year % 100 != 0 || year % 400 == 0)

def daysInMonth (year : Int) : Nat → Nat
  | 2 => if isLeap year then 29 else 28
  | 4 | 6 | 9 | 11 => 30
  | _ => 31

/-- Days from the start of 1970 to a date.  Years are counted from March, so that the leap day
is the last of its year. -/
def daysFromDate (year : Int) (month day : Nat) : Int :=
  let y := if month ≤ 2 then year - 1 else year
  let era := y / 400
  let yearOfEra := y % 400
  let monthFromMarch : Int := if month ≤ 2 then (month : Int) + 9 else (month : Int) - 3
  let dayOfYear : Int := (153 * monthFromMarch + 2) / 5 + day - 1
  let dayOfEra := yearOfEra * 365 + yearOfEra / 4 - yearOfEra / 100 + dayOfYear
  era * 146097 + dayOfEra - 719468

def dateFromDays (days : Int) : Int × Nat × Nat :=
  let z := days + 719468
  let era := z / 146097
  let dayOfEra := z % 146097
  let yearOfEra := (dayOfEra - dayOfEra / 1460 + dayOfEra / 36524 - dayOfEra / 146096) / 365
  let dayOfYear := dayOfEra - (365 * yearOfEra + yearOfEra / 4 - yearOfEra / 100)
  let monthFromMarch := (5 * dayOfYear + 2) / 153
  let day := dayOfYear - (153 * monthFromMarch + 2) / 5 + 1
  let month := if monthFromMarch < 10 then monthFromMarch + 3 else monthFromMarch - 9
  let year := yearOfEra + era * 400 + (if month ≤ 2 then 1 else 0)
  (year, month.toNat, day.toNat)

def minYear : Int := -262143
def maxYear : Int := 262142

def days? (year : Int) (month day : Nat) : Option Int :=
  if minYear ≤ year ∧ year ≤ maxYear ∧ 1 ≤ month ∧ month ≤ 12 ∧
      1 ≤ day ∧ day ≤ daysInMonth year month then
    some (daysFromDate year month day)
  else none

/-! ## Reading -/

/-- Between `low` and `high` digits, as many as there are, and the rest. -/
def digits? (low high : Nat) (cs : List Char) : Option (Nat × List Char) :=
  let ds := (cs.take high).takeWhile Char.isDigit
  if low ≤ ds.length then some (digitsValue ds, cs.drop ds.length) else none

def skip? (c : Char) : List Char → Option (List Char)
  | d :: rest => if d = c then some rest else none
  | [] => none

def fraction? : List Char → Option (Nat × List Char)
  | '.' :: rest =>
    let ds := rest.takeWhile Char.isDigit
    if ds.isEmpty then none
    else some (digitsValue ((ds ++ ['0', '0']).take 3), rest.drop ds.length)
  | cs => some (0, cs)

def offset? : List Char → Option (Int × List Char)
  | [] => none
  | c :: rest => do
    if c = 'Z' ∨ c = 'z' then return (0, rest)
    let negative ←
      if c = '+' then some false else if c = '-' ∨ c = '−' then some true else none
    let (hours, rest) ← digits? 2 2 rest
    let rest ← skip? ':' rest
    let (minutes, rest) ← digits? 2 2 rest
    if hours > 23 ∨ minutes > 59 then none
    let seconds : Int := hours * 3600 + minutes * 60
    return (if negative then -seconds else seconds, rest)

/-- A date, a time and an offset.  Second 60 is a leap second. -/
def readStamp? (cs : List Char) : Option Instant := do
  let (year, cs) ← digits? 4 4 cs
  let cs ← skip? '-' cs
  let (month, cs) ← digits? 2 2 cs
  let cs ← skip? '-' cs
  let (day, cs) ← digits? 2 2 cs
  let cs ← skip? 'T' cs <|> skip? 't' cs <|> skip? ' ' cs
  let (hour, cs) ← digits? 2 2 cs
  let cs ← skip? ':' cs
  let (minute, cs) ← digits? 2 2 cs
  let cs ← skip? ':' cs
  let (second, cs) ← digits? 2 2 cs
  let (millis, cs) ← fraction? cs
  let (offset, cs) ← offset? cs
  if !cs.isEmpty ∨ hour > 23 ∨ minute > 59 ∨ second > 60 then none
  let days ← days? year month day
  let time : Int := hour * 3600 + minute * 60 + min second 59
  return ⟨days * 86400 + time - offset, if second = 60 then millis + 1000 else millis⟩

/-- A year: up to four digits, or any number of them behind a sign. -/
def year? : List Char → Option (Int × List Char)
  | '-' :: cs => do
    let (y, rest) ← digits? 1 cs.length cs
    return (-(y : Int), rest)
  | '+' :: cs => do
    let (y, rest) ← digits? 1 cs.length cs
    return ((y : Int), rest)
  | cs => do
    let (y, rest) ← digits? 1 4 cs
    return ((y : Int), rest)

/-- A date without a time: its start in universal time.  Blanks may stand before each number. -/
def readDate? (cs : List Char) : Option Instant := do
  let (year, cs) ← year? (cs.dropWhile Text.isBlank)
  let cs ← skip? '-' cs
  let (month, cs) ← digits? 1 2 (cs.dropWhile Text.isBlank)
  let cs ← skip? '-' cs
  let (day, cs) ← digits? 1 2 (cs.dropWhile Text.isBlank)
  if !cs.isEmpty then none
  let days ← days? year month day
  return ⟨days * 86400, 0⟩

def read? (s : String) : Option Instant := readStamp? s.toList <|> readDate? s.toList

/-- Milliseconds since the start of 1970, within the years of the calendar. -/
def ofMillis? (n : Int) : Option Instant :=
  let seconds := n / 1000
  let first := daysFromDate minYear 1 1 * 86400
  let last := daysFromDate maxYear 12 31 * 86400 + 86399
  if first ≤ seconds ∧ seconds ≤ last then some ⟨seconds, (n % 1000).toNat⟩ else none

/-! ## Writing -/

def padded (width n : Nat) : String :=
  let ds := decimalDigits n
  String.ofList (List.replicate (width - ds.length) '0' ++ ds)

/-- Four digits, with a sign for years that do not fit them. -/
def yearText (year : Int) : String :=
  if 0 ≤ year ∧ year ≤ 9999 then padded 4 year.toNat
  else (if year < 0 then "-" else "+") ++ padded 4 year.natAbs

def text (t : Instant) : String :=
  let (year, month, day) := dateFromDays (t.seconds / 86400)
  let time := (t.seconds % 86400).toNat
  yearText year ++ "-" ++ padded 2 month ++ "-" ++ padded 2 day ++ "T" ++
    padded 2 (time / 3600) ++ ":" ++ padded 2 (time / 60 % 60) ++ ":" ++
    padded 2 (time % 60 + t.millis / 1000) ++ "." ++ padded 3 (t.millis % 1000) ++ "Z"

end Instant

end Conduit
