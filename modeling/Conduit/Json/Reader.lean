import Conduit.Binary64.Decimal
import Conduit.Json

/-!
# Reading documents

Strict JSON: no trailing commas, no comments, no leading zeros, no raw controls inside strings,
no half of a surrogate pair, and at most `maxNesting` arrays and objects inside one another.
A key that is repeated keeps its first place and takes its last value.

Every reader takes the characters that are left and gives back those it did not use.  The first
argument of the recursive ones bounds the number of steps by the length of the text.
-/

namespace Conduit.Json

/-- Arrays and objects that may stand inside one another. -/
def maxNesting : Nat := 127

def isGap (c : Char) : Bool := c == ' ' || c == '\t' || c == '\n' || c == '\r'

def skipGaps (cs : List Char) : List Char := cs.dropWhile isGap

def hexValue? (c : Char) : Option Nat :=
  let n := c.toNat
  if 48 ≤ n && n ≤ 57 then some (n - 48)
  else if 97 ≤ n && n ≤ 102 then some (n - 87)
  else if 65 ≤ n && n ≤ 70 then some (n - 55)
  else none

def hex4? (a b c d : Char) : Option Nat := do
  let a ← hexValue? a
  let b ← hexValue? b
  let c ← hexValue? c
  let d ← hexValue? d
  return ((a * 16 + b) * 16 + c) * 16 + d

def isHighSurrogate (n : Nat) : Bool := 0xD800 ≤ n && n ≤ 0xDBFF

def isLowSurrogate (n : Nat) : Bool := 0xDC00 ≤ n && n ≤ 0xDFFF

/-- The character above the basic plane that two surrogates stand for. -/
def joined (high low : Nat) : Char :=
  Char.ofNat (0x10000 + (high - 0xD800) * 0x400 + (low - 0xDC00))

def escaped? : Char → Option Char
  | '"' => some '"'
  | '\\' => some '\\'
  | '/' => some '/'
  | 'b' => some (Char.ofNat 8)
  | 'f' => some (Char.ofNat 12)
  | 'n' => some '\n'
  | 'r' => some '\r'
  | 't' => some '\t'
  | _ => none

/-- The rest of a string after its opening quote; `acc` holds what was read, last first. -/
def readString? (acc : List Char) : List Char → Option (String × List Char)
  | [] => none
  | c :: rest =>
    if c = '"' then some (String.ofList acc.reverse, rest)
    else if c = '\\' then
      match rest with
      | 'u' :: a :: b :: c :: d :: rest =>
        match hex4? a b c d with
        | none => none
        | some n =>
          if isHighSurrogate n then
            match rest with
            | '\\' :: 'u' :: a :: b :: c :: d :: rest =>
              match (hex4? a b c d).filter isLowSurrogate with
              | some low => readString? (joined n low :: acc) rest
              | none => none
            | _ => none
          else if isLowSurrogate n then none
          else readString? (Char.ofNat n :: acc) rest
      | e :: rest =>
        match escaped? e with
        | some c => readString? (c :: acc) rest
        | none => none
      | [] => none
    else if c.toNat < 32 then none
    else readString? (c :: acc) rest

/-- The whole part of a number: one zero, or digits that do not start with one. -/
def readWhole? (cs : List Char) : Option (List Char × List Char) :=
  match cs with
  | '0' :: rest =>
    match rest with
    | c :: _ => if c.isDigit then none else some (['0'], rest)
    | [] => some (['0'], rest)
  | _ =>
    let ds := cs.takeWhile Char.isDigit
    if ds.isEmpty then none else some (ds, cs.dropWhile Char.isDigit)

def readFraction? : List Char → Option (Option (List Char) × List Char)
  | '.' :: rest =>
    let ds := rest.takeWhile Char.isDigit
    if ds.isEmpty then none else some (some ds, rest.dropWhile Char.isDigit)
  | cs => some (none, cs)

def readExponent? (cs : List Char) : Option (Option Int × List Char) :=
  match cs with
  | e :: rest =>
    if e == 'e' || e == 'E' then
      let (down, rest) := Quantity.splitSign rest
      let ds := rest.takeWhile Char.isDigit
      let n : Int := digitsValue ds
      if ds.isEmpty then none
      else some (some (if down then -n else n), rest.dropWhile Char.isDigit)
    else some (none, cs)
  | [] => some (none, cs)

/-- A number as it is written. -/
structure Numeral where
  negative : Bool
  whole : List Char
  fraction : Option (List Char)
  exponent : Option Int

def readNumeral? (cs : List Char) : Option (Numeral × List Char) := do
  let (negative, cs) := match cs with
    | '-' :: rest => (true, rest)
    | _ => (false, cs)
  let (whole, cs) ← readWhole? cs
  let (fraction, cs) ← readFraction? cs
  let (exponent, cs) ← readExponent? cs
  return (⟨negative, whole, fraction, exponent⟩, cs)

/-- The number with these digits behind `n`, as long as it has 64 bits, and the digits left over. -/
def gather : Nat → List Char → Nat × List Char
  | n, [] => (n, [])
  | n, d :: rest =>
    let next := n * 10 + (d.toNat - '0'.toNat)
    if next < 1 <<< 64 then gather next rest else (n, d :: rest)

/-- An integer of 64 bits, with or without a sign, else a double. -/
def integerLiteral? (negative : Bool) (n : Nat) : Option Json :=
  if negative then
    if 0 < n && n ≤ 1 <<< 63 then some (.int (-(n : Int)))
    else (Binary64.ofRatio true n 1).map .double
  else some (.int n)

/-- What a numeral is read as: an integer unless it has a point, an exponent or too many digits.
Digits beyond 64 bits only count as places in front of the point, and behind it not at all. -/
def Numeral.read? (m : Numeral) : Option Json :=
  let (n, places) := gather 0 m.whole
  if m.fraction.isNone && m.exponent.isNone && places.isEmpty then integerLiteral? m.negative n
  else
    let ds := m.fraction.getD []
    let (digits, unread) := gather n ds
    let exponent := m.exponent.getD 0 + places.length - (ds.length - unread.length : Nat)
    (Binary64.ofSignificand m.negative digits exponent).map .double

def readNumber? (cs : List Char) : Option (Json × List Char) := do
  let (m, rest) ← readNumeral? cs
  return (← m.read?, rest)

def readWord? : List Char → List Char → Option (List Char)
  | [], cs => some cs
  | w :: word, c :: cs => if w = c then readWord? word cs else none
  | _ :: _, [] => none

mutual

/-- A value, with `depth` levels of nesting still allowed. -/
def readValue? : Nat → Nat → List Char → Option (Json × List Char)
  | 0, _, _ => none
  | fuel + 1, depth, cs =>
    match skipGaps cs with
    | '"' :: rest => (readString? [] rest).map fun (s, rest) => (.str s, rest)
    | '[' :: rest =>
      match depth with
      | 0 => none
      | depth + 1 =>
        match skipGaps rest with
        | ']' :: rest => some (.arr [], rest)
        | _ => readItems? fuel depth [] rest
    | '\x7b' :: rest =>
      match depth with
      | 0 => none
      | depth + 1 =>
        match skipGaps rest with
        | '\x7d' :: rest => some (.obj [], rest)
        | _ => readFields? fuel depth [] rest
    | 't' :: rest => (readWord? "rue".toList rest).map fun rest => (.bool true, rest)
    | 'f' :: rest => (readWord? "alse".toList rest).map fun rest => (.bool false, rest)
    | 'n' :: rest => (readWord? "ull".toList rest).map fun rest => (.null, rest)
    | cs => readNumber? cs

/-- The items of an array up to its bracket; `acc` holds those read, last first. -/
def readItems? : Nat → Nat → List Json → List Char → Option (Json × List Char)
  | 0, _, _, _ => none
  | fuel + 1, depth, acc, cs =>
    match readValue? fuel depth cs with
    | none => none
    | some (v, rest) =>
      match skipGaps rest with
      | ',' :: rest => readItems? fuel depth (v :: acc) rest
      | ']' :: rest => some (.arr (v :: acc).reverse, rest)
      | _ => none

/-- The fields of an object up to its brace; `acc` holds those read, last first. -/
def readFields? : Nat → Nat → Fields → List Char → Option (Json × List Char)
  | 0, _, _, _ => none
  | fuel + 1, depth, acc, cs =>
    match skipGaps cs with
    | '"' :: rest =>
      match readString? [] rest with
      | none => none
      | some (key, rest) =>
        match skipGaps rest with
        | ':' :: rest =>
          match readValue? fuel depth rest with
          | none => none
          | some (v, rest) =>
            let acc := (key, v) :: acc
            match skipGaps rest with
            | ',' :: rest => readFields? fuel depth acc rest
            | '\x7d' :: rest => some (.obj acc.reverse, rest)
            | _ => none
        | _ => none
    | _ => none

end

mutual

/-- The document with each key once: in its first place, with its last value. -/
def merged : Json → Json
  | .arr items => .arr (mergedItems items)
  | .obj fs => .obj (mergedFields fs [])
  | v => v

def mergedItems : List Json → List Json
  | [] => []
  | v :: rest => merged v :: mergedItems rest

def mergedFields : Fields → Fields → Fields
  | [], fs => fs
  | (key, v) :: rest, fs => mergedFields rest (Fields.insert fs key (merged v))

end

/-- What a text holds, word by word: keys may be repeated. -/
def written? (s : String) : Option Json :=
  let cs := s.toList
  match readValue? (2 * cs.length + 2) maxNesting cs with
  | some (v, rest) => if (skipGaps rest).isEmpty then some v else none
  | none => none

def read? (s : String) : Option Json := (written? s).map merged

end Conduit.Json
