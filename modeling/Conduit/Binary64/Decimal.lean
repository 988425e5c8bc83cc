import Conduit.Binary64

/-!
# Doubles as decimal text

Reading a decimal gives the nearest double, or one close to it where it is read in a faster way
(`ofSignificand`).  Writing a double gives the fewest digits that
read back to it, and among those the nearest to the exact value.
-/

namespace Conduit

def digitsValue (ds : List Char) : Nat :=
  ds.foldl (fun n c => n * 10 + (c.toNat - '0'.toNat)) 0

def decimalDigits (n : Nat) : List Char := Nat.toDigits 10 n

namespace Binary64

/-- The double nearest to `digits · 10 ^ exponent`, or none when it is not finite.  Far outside
the range of doubles the answer is known without computing the power. -/
def ofDecimal (negative : Bool) (digits : Nat) (exponent : Int) : Option Binary64 :=
  let magnitude : Int := (decimalDigits digits).length + exponent
  if digits = 0 then some (zero negative)
  else if 400 < magnitude then none
  else if magnitude < -400 then some (zero negative)
  else ofRatio negative (digits * Nat.pow 10 exponent.toNat) (Nat.pow 10 (-exponent).toNat)

def powerOfTen (k : Nat) : Binary64 := (ofRatio false (Nat.pow 10 k) 1).getD (zero false)

/-- `digits · 10 ^ exponent` with several roundings: that of the digits, and those of the product or
the quotients with powers of ten up to 308.  Two quotients with the greatest leave nothing. -/
def ofSignificand (negative : Bool) (digits : Nat) (exponent : Int) : Option Binary64 := do
  let x ← ofRatio negative digits 1
  let down := (-exponent).toNat
  if x.isZero || 616 < down then return zero negative
  else if 308 < exponent then none
  else if 0 ≤ exponent then x.mul? (powerOfTen exponent.toNat)
  else if down ≤ 308 then x.div? (powerOfTen down)
  else (← x.div? (powerOfTen 308)).div? (powerOfTen (down - 308))

/-- `⌊log₁₀ (num / den)⌋` for positive `num` and `den`. -/
def floorLog10 (num den : Nat) : Int :=
  let guess := Int.fdiv (floorLog num den * 30103) 100000
  let reaches (k : Int) : Bool := den * Nat.pow 10 k.toNat ≤ num * Nat.pow 10 (-k).toNat
  if reaches (guess + 1) then guess + 1 else if reaches guess then guess else guess - 1

/-- A point `digits · 10 ^ unit` that reads back as `x`, if one of the two neighbours of `x` on
that grid does.  `x` is compared in quarters of its own unit in the last place. -/
def onGrid? (x : Binary64) (unit : Int) : Option Nat :=
  let left := Nat.pow 2 (x.exponent - 2).toNat * Nat.pow 10 (-unit).toNat
  let right := Nat.pow 2 (2 - x.exponent).toNat * Nat.pow 10 unit.toNat
  let m := x.coefficient
  let value := 4 * m * left
  let low := (if m = 1 <<< 52 ∧ -1074 < x.exponent then 4 * m - 1 else 4 * m - 2) * left
  let high := (4 * m + 2) * left
  let inside (c : Nat) : Bool :=
    if m % 2 = 0 then low ≤ c * right && c * right ≤ high
    else low < c * right && c * right < high
  let c := value / right
  match inside c, inside (c + 1) with
  | true, false => some c
  | false, true => some (c + 1)
  | false, false => none
  | true, true =>
    let below := value - c * right
    let above := (c + 1) * right - value
    if below < above then some c
    else if above < below then some (c + 1)
    else if c % 2 = 0 then some c else some (c + 1)

def stripZeros (ds : List Char) : List Char :=
  (ds.reverse.dropWhile (· == '0')).reverse

/-- The fewest digits that read back as `x`, and the decimal exponent of the first of them. -/
def shortest (x : Binary64) : List Char × Int :=
  if x.isZero then (['0'], 0)
  else
    let (num, den) := x.ratio
    let lead := floorLog10 num den
    let found := (List.range 17).findSome? fun (n : Nat) =>
      let unit := lead - (n : Int)
      (onGrid? x unit).map fun c => (c, unit)
    match found with
    | none => (['0'], 0)
    | some (c, unit) =>
      let ds := decimalDigits c
      (stripZeros ds, unit + ds.length - 1)

/-- Exponents of the leading digit that are written without a power of ten. -/
def positional (exponent : Int) : Bool := -5 ≤ exponent && exponent < 16

/-- The digits with a decimal point in their place, one digit after it at least. -/
def positionalText (ds : List Char) (exponent : Int) : List Char :=
  if exponent < 0 then
    '0' :: '.' :: (List.replicate (-exponent - 1).toNat '0' ++ ds)
  else
    let whole := exponent.toNat + 1
    let padded := ds ++ List.replicate (whole - ds.length) '0'
    let fraction := padded.drop whole
    padded.take whole ++ '.' :: (if fraction.isEmpty then ['0'] else fraction)

/-- The digits with a power of ten, whose sign is always written. -/
def scientificText (ds : List Char) (exponent : Int) : List Char :=
  let mantissa := match ds with
    | [] => []
    | [d] => [d]
    | d :: rest => d :: '.' :: rest
  mantissa ++ 'e' :: (if exponent < 0 then '-' else '+') :: decimalDigits exponent.natAbs

def text (x : Binary64) : String :=
  let (ds, exponent) := x.shortest
  let body := if positional exponent then positionalText ds exponent else scientificText ds exponent
  String.ofList (if x.negative then '-' :: body else body)

def plainText (x : Binary64) : String :=
  let (ds, exponent) := x.shortest
  let body := positionalText ds exponent
  String.ofList (if x.negative then '-' :: body else body)

end Binary64

/-- A number read from loose text: a double, or one of the values no double in a document has. -/
inductive Quantity where
  | finite (x : Binary64)
  | infinite (negative : Bool)
  | notANumber
deriving DecidableEq

namespace Quantity

def splitSign : List Char → Bool × List Char
  | '-' :: rest => (true, rest)
  | '+' :: rest => (false, rest)
  | cs => (false, cs)

/-- Decimal digits with at most one point and an optional exponent. -/
def readDecimal? (negative : Bool) (cs : List Char) : Option Quantity :=
  let whole := cs.takeWhile Char.isDigit
  let rest := cs.dropWhile Char.isDigit
  let (fraction, rest) := match rest with
    | '.' :: tail => (tail.takeWhile Char.isDigit, tail.dropWhile Char.isDigit)
    | _ => ([], rest)
  let finish (exponent : Int) : Option Quantity :=
    let digits := digitsValue (whole ++ fraction)
    match Binary64.ofDecimal negative digits (exponent - fraction.length) with
    | some x => some (.finite x)
    | none => some (.infinite negative)
  if whole.isEmpty && fraction.isEmpty then none
  else match rest with
    | [] => finish 0
    | e :: tail =>
      if e == 'e' || e == 'E' then
        let (down, ds) := splitSign tail
        if ds.isEmpty || !ds.all Char.isDigit then none
        else finish (if down then -(digitsValue ds : Int) else digitsValue ds)
      else none

/-- A number as people write it: an optional sign, then digits with an optional point and
exponent, or the words for infinity and not-a-number in any case. -/
def read? (s : String) : Option Quantity :=
  let (negative, cs) := splitSign s.toList
  let word := String.ofList (cs.map Char.toLower)
  if word == "inf" || word == "infinity" then some (.infinite negative)
  else if word == "nan" then some .notANumber
  else readDecimal? negative cs

end Quantity

def inInt64 (n : Int) : Bool := -0x8000000000000000 ≤ n && n < 0x8000000000000000

def clampInt64 (n : Int) : Int := max (-0x8000000000000000) (min n 0x7FFFFFFFFFFFFFFF)

/-- An integer as people write it: an optional sign and digits, of 64 bits at most. -/
def readInt64? (s : String) : Option Int :=
  let (negative, ds) := Quantity.splitSign s.toList
  if ds.isEmpty || !ds.all Char.isDigit then none
  else
    let n : Int := if negative then -(digitsValue ds : Int) else digitsValue ds
    if inInt64 n then some n else none

end Conduit
