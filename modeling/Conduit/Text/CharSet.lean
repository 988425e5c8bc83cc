/-!
# Sets of characters

A set of characters is kept as the ranges of its code points, in increasing order and apart from
each other, so that equal sets are equal lists.  The surrogates are no characters: the code
points on their two sides count as neighbours.
-/

namespace Conduit

structure CharSet where
  ranges : List (Nat × Nat)
deriving DecidableEq, Inhabited

namespace CharSet

def lastCode : Nat := 0x10FFFF

def next (n : Nat) : Nat := if n = 0xD7FF then 0xE000 else n + 1

def previous (n : Nat) : Nat := if n = 0xE000 then 0xD7FF else n - 1

/-- Whether one of increasing ranges holds a code point. -/
def within (n : Nat) : List (Nat × Nat) → Bool
  | [] => false
  | r :: rest => r.1 ≤ n && (n ≤ r.2 || within n rest)

def hasCode (s : CharSet) (n : Nat) : Bool := within n s.ranges

def has (s : CharSet) (c : Char) : Bool := s.hasCode c.toNat

/-- Ranges that start in increasing order, with those that touch made one. -/
def join (r : Nat × Nat) : List (Nat × Nat) → List (Nat × Nat)
  | [] => [r]
  | s :: rest =>
    if s.1 ≤ next r.2 then join (r.1, max r.2 s.2) rest else r :: join s rest

def ofRanges (rs : List (Nat × Nat)) : CharSet :=
  match rs.mergeSort fun r s => r.1 ≤ s.1 with
  | [] => ⟨[]⟩
  | r :: rest => ⟨join r rest⟩

def ofCodes (codes : List Nat) : CharSet := ofRanges (codes.map fun n => (n, n))

def none : CharSet := ⟨[]⟩

def any : CharSet := ⟨[(0, lastCode)]⟩

def range (low high : Char) : CharSet := ⟨[(low.toNat, high.toNat)]⟩

def single (c : Char) : CharSet := range c c

def union (a b : CharSet) : CharSet := ofRanges (a.ranges ++ b.ranges)

def unions (sets : List CharSet) : CharSet := ofRanges (sets.flatMap ranges)

/-- What lies between increasing ranges, from a code point on. -/
def gaps (start : Nat) : List (Nat × Nat) → List (Nat × Nat)
  | [] => if start ≤ lastCode then [(start, lastCode)] else []
  | r :: rest =>
    if start < r.1 then (start, previous r.1) :: gaps (next r.2) rest else gaps (next r.2) rest

def complement (s : CharSet) : CharSet := ⟨gaps 0 s.ranges⟩

def inter (a b : CharSet) : CharSet := (union a.complement b.complement).complement

def diff (a b : CharSet) : CharSet := (union a.complement b).complement

def symmDiff (a b : CharSet) : CharSet := union (diff a b) (diff b a)

def isEmpty (s : CharSet) : Bool := s.ranges.isEmpty

def isAscii (s : CharSet) : Bool := s.ranges.all fun r => r.2 < 128

def only? (s : CharSet) : Option Char :=
  match s.ranges with
  | [(a, b)] => if a = b then some (Char.ofNat a) else Option.none
  | _ => Option.none

/-! ## Tables -/

def digit (c : Char) : Nat :=
  if c.isDigit then c.toNat - '0'.toNat else c.toNat - 'A'.toNat + 10

def readCode (cs : List Char) : Nat := cs.foldl (fun n c => n * 16 + digit c) 0

/-- The digits of a code point, with those in front that it shares with the one before. -/
def complete (before digits : List Char) : List Char :=
  before.take (before.length - digits.length) ++ digits

/-- Adds a code point, or two with a dash between them, to ranges that end with `before`. -/
def readWord (state : List (Nat × Nat) × List Char) (word : String) :
    List (Nat × Nat) × List Char :=
  let digits := word.toList.takeWhile (· != '-')
  let first := complete state.2 digits
  let last := complete first (word.toList.drop (digits.length + 1))
  ((readCode first, readCode last) :: state.1, last)

def readRanges (lines : List String) : List (Nat × Nat) :=
  ((lines.flatMap fun line => line.splitOn " ").foldl readWord ([], [])).1

def read (lines : List String) : CharSet := ofRanges (readRanges lines)

/-- The numbers of a table, in base 26: the last digit of each is a capital letter. -/
def readNumbers (lines : List String) : List Nat :=
  ((lines.flatMap String.toList).foldl (fun (s : List Nat × Nat) c =>
    if c.isUpper then ((s.2 * 26 + (c.toNat - 'A'.toNat)) :: s.1, 0)
    else (s.1, s.2 * 26 + (c.toNat - 'a'.toNat))) ([], 0)).1.reverse

/-- Ranges, by the gap before each of them and the distance of its ends. -/
def rangesFrom (start : Nat) : List Nat → List (Nat × Nat)
  | gap :: size :: rest =>
    let last := start + gap + size
    (start + gap, last) :: rangesFrom (last + 1) rest
  | _ => []

def readGaps (lines : List String) : CharSet := ofRanges (rangesFrom 0 (readNumbers lines))

end CharSet

end Conduit
