import Conduit.Pattern.Regex

/-!
# The size of automata

A regular expression is run as an automaton over the bytes of the text, once from front to back
and once from back to front.  Both automata have to fit into a fixed number of bytes, so a pattern
with large repetitions may be too big.

The size is found without building the automata: each constructor adds a number of states to those
of its parts.  A state takes `stateBytes`; one that branches takes `branchBytes` more for each way
on, and one that reads a byte of some ranges takes `rangeBytes` more for each range.
-/

namespace Conduit

namespace Automaton

def stateBytes : Nat := 32

def branchBytes : Nat := 4

def rangeBytes : Nat := 8

def limit : Nat := 10 <<< 20

inductive Heading where
  | forward
  | backward
deriving DecidableEq

/-! ## Encoding -/

def encode (n : Nat) : List Nat :=
  let low (k : Nat) := 0x80 + (n >>> (6 * k)) % 64
  if n < 0x80 then [n]
  else if n < 0x800 then [0xC0 + n >>> 6, low 0]
  else if n < 0x10000 then [0xE0 + n >>> 12, low 1, low 0]
  else [0xF0 + n >>> 18, low 2, low 1, low 0]

/-- The code points that are encoded in the same number of bytes. -/
def blocks : List (Nat × Nat) :=
  [(0, 0x7F), (0x80, 0x7FF), (0x800, 0xD7FF), (0xE000, 0xFFFF), (0x10000, 0x10FFFF)]

/-- A range in parts, such that the bytes of each part range independently of each other: the
front and the back of it are cut off where they do not fill a unit of some size. -/
def cut : List Nat → Nat → Nat → List (Nat × Nat)
  | [], low, high => [(low, high)]
  | unit :: units, low, high =>
    if low / unit = high / unit then [(low, high)]
    else
      let front := low % unit != 0
      let back := high % unit != unit - 1
      let start := if front then low / unit * unit + unit else low
      let stop := if back then high / unit * unit else high + 1
      (if front then [(low, start - 1)] else []) ++
        (if start < stop then cut units start (stop - 1) else []) ++
        (if back then [(stop, high)] else [])

abbrev ByteRanges := List (Nat × Nat)

/-- The sequences of ranges of bytes that encode a set of characters. -/
def byteRanges (s : CharSet) : List ByteRanges :=
  let within := s.ranges.flatMap fun r => blocks.filterMap fun b =>
    let low := max r.1 b.1
    let high := min r.2 b.2
    if low ≤ high then some (low, high) else none
  let parts := within.flatMap fun r => cut [0x40, 0x1000, 0x40000] r.1 r.2
  parts.map fun r => (encode r.1).zip (encode r.2)

/-- Sequences by their first range, which is taken off. -/
def byFirst : List ByteRanges → List ((Nat × Nat) × List ByteRanges)
  | [] => []
  | [] :: rest => byFirst rest
  | (r :: tail) :: rest =>
    match byFirst rest with
    | (q, tails) :: more =>
      if r = q then (r, tail :: tails) :: more else (r, [tail]) :: (q, tails) :: more
    | [] => [(r, [tail])]

/-- The tree of some sequences, as the sequences that remain at each inner node. -/
def tree : Nat → List ByteRanges → List (List ByteRanges)
  | 0, _ => []
  | depth + 1, seqs =>
    seqs :: (byFirst seqs).flatMap fun b => if b.2 = [[]] then [] else tree depth b.2

/-! ## Sets of characters -/

/-- The size for one character of a set.  Read forward, nodes of the tree with the same rest are
one state; read backward, each range of each node is a state of its own. -/
def setBytes (h : Heading) (s : CharSet) : Nat :=
  if s.isAscii then 2 * stateBytes + rangeBytes * s.ranges.length
  else
    let seqs := byteRanges s
    let nodes := tree 4 seqs
    match h with
    | .forward =>
      stateBytes + nodes.eraseDups.foldl (fun n node =>
        n + stateBytes + rangeBytes * (byFirst node).length) 0
    | .backward =>
      2 * stateBytes + nodes.foldl (fun n node => n + stateBytes * (byFirst node).length) 0 +
        branchBytes * seqs.length

/-! ## Choices between texts -/

/-- The texts without their first byte that start with a byte. -/
def follow (b : Nat) (texts : List (List Nat)) : List (List Nat) :=
  texts.filterMap fun
    | c :: rest => if b = c then some rest else none
    | [] => none

/-- Texts in lists, each of which ends before an empty one. -/
def untilEmpty : List (List Nat) → List (List (List Nat))
  | [] => [[]]
  | [] :: rest => [] :: untilEmpty rest
  | t :: rest =>
    match untilEmpty rest with
    | [] => [[t]]
    | ts :: more => (t :: ts) :: more

/-- The size of the tree of some texts.  A text that ends at a node divides the ways on from there
into those of texts before and after it.  `fuel` is the length of the longest text. -/
def textsBytes : Nat → List (List Nat) → Nat
  | 0, _ => 0
  | fuel + 1, texts =>
    let texts := match texts with
      | [] :: rest => [] :: rest.dropWhile List.isEmpty
      | texts => texts
    if texts.all List.isEmpty then 0
    else
      let lists := untilEmpty texts
      let perList := lists.map fun ts =>
        let firsts := (ts.filterMap List.head?).eraseDups
        let own := match firsts.length with
          | 0 => 0
          | 1 => stateBytes + branchBytes
          | n => stateBytes + rangeBytes * n + branchBytes
        firsts.foldl (fun n b => n + textsBytes fuel (follow b ts)) own
      stateBytes + perList.foldl (· + ·) 0 + branchBytes * (lists.length - 1)

end Automaton

open Automaton

/-- The automaton of an expression: its size, and whether it ends in a state that branches. -/
structure Fragment where
  bytes : Nat
  branches : Bool := false

namespace Fragment

/-- What it takes to lead on from the end. -/
def link (f : Fragment) : Nat := if f.branches then branchBytes else 0

def times (f : Fragment) : Nat → Nat
  | 0 => stateBytes
  | n + 1 => (n + 1) * f.bytes + n * f.link

/-- At least a number of times; `nonempty` says that a match is never empty. -/
def atLeast (f : Fragment) (nonempty : Bool) : Nat → Fragment
  | 0 =>
    if nonempty then ⟨f.bytes + stateBytes + branchBytes + f.link, true⟩
    else ⟨f.bytes + 3 * stateBytes + 4 * branchBytes + f.link, false⟩
  | 1 => ⟨f.bytes + stateBytes + branchBytes + f.link, true⟩
  | n + 2 => ⟨f.times (n + 1) + f.bytes + stateBytes + branchBytes + 2 * f.link, true⟩

def between (f : Fragment) (low high : Nat) : Fragment :=
  if low = high then ⟨f.times low, low != 0 && f.branches⟩
  else if low = 0 && high = 1 then ⟨f.bytes + 2 * stateBytes + 2 * branchBytes + f.link, false⟩
  else
    let more := high - low
    let links := if low = 0 then more else more + 1
    ⟨f.times low + stateBytes + more * (f.bytes + stateBytes + 2 * branchBytes) + links * f.link,
      false⟩

def next (h : Heading) (a b : Fragment) : Fragment :=
  match h with
  | .forward => ⟨a.bytes + a.link + b.bytes, b.branches⟩
  | .backward => ⟨a.bytes + b.bytes + b.link, a.branches⟩

/-- What it takes as one way of a choice. -/
def way (f : Fragment) : Nat := f.bytes + branchBytes + f.link

end Fragment

namespace Regex

/-- The bytes of a text, in the order in which they are read. -/
def textBytes (h : Heading) (cs : List Char) : List Nat :=
  let bytes := cs.flatMap fun c => encode c.toNat
  match h with
  | .forward => bytes
  | .backward => bytes.reverse

/-- One of the ways of a choice: its automaton, and its bytes if it is a text. -/
structure Way where
  fragment : Fragment
  text : Option (List Nat) := none

/-- The automaton of a choice.  Where all alternatives are texts, they share what they start
with. -/
def choice : List Way → Fragment
  | [w] => w.fragment
  | ws =>
    match ws.mapM Way.text with
    | some texts => ⟨stateBytes + textsBytes ((texts.map List.length).foldl max 0) texts, false⟩
    | none => ⟨2 * stateBytes + ws.foldl (fun n w => n + w.fragment.way) 0, false⟩

/-- The ways of an expression: those of a choice, or else one. -/
def ways (h : Heading) : Regex → List Way
  | .empty => [⟨⟨stateBytes, false⟩, none⟩]
  | .text cs =>
    let bytes := textBytes h cs
    [⟨⟨stateBytes * bytes.length, false⟩, some bytes⟩]
  | .one s => [⟨⟨setBytes h s, false⟩, none⟩]
  | .look _ => [⟨⟨stateBytes, false⟩, none⟩]
  | .seq a b => [⟨(choice (ways h a)).next h (choice (ways h b)), none⟩]
  | .alt a b => ways h a ++ ways h b
  | .repeated r low high _ =>
    let f := choice (ways h r)
    match high with
    | none => [⟨f.atLeast (r.leastLength?.any (0 < ·)) low, none⟩]
    | some high => [⟨f.between low high, none⟩]
  | .capture _ r =>
    let f := choice (ways h r)
    match h with
    | .forward => [⟨⟨f.bytes + 2 * stateBytes + f.link, false⟩, none⟩]
    | .backward => [⟨f, none⟩]

def fragment (h : Heading) (r : Regex) : Fragment := choice (ways h r)

/-- Whether every match starts, or read backward ends, at an edge of the text. -/
def isAnchored (h : Heading) : Regex → Bool
  | .look l => l = (match h with | .forward => .startText | .backward => .endText)
  | .seq a b =>
    match h with
    | .forward => isAnchored h a || (a.isBlank && isAnchored h b)
    | .backward => isAnchored h b || (b.isBlank && isAnchored h a)
  | .alt a b => isAnchored h a && isAnchored h b
  | .repeated r low _ _ => 0 < low && isAnchored h r
  | .capture _ r => isAnchored h r
  | .empty | .text _ | .one _ => false

/-- The size of the whole automaton.  A match is a group of its own when it is read forward; where
it may start anywhere, any bytes may stand before it. -/
def automatonBytes (h : Heading) (r : Regex) : Nat :=
  let before := if isAnchored h r then stateBytes
    else 3 * stateBytes + rangeBytes + 2 * branchBytes
  let f := fragment h (.capture 0 r)
  before + f.bytes + f.link + stateBytes

def fits (r : Regex) : Bool :=
  automatonBytes .forward r ≤ limit && automatonBytes .backward r ≤ limit

end Regex

end Conduit
