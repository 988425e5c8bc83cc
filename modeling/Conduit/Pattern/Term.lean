import Conduit.Pattern.Regex

/-!
# Patterns as they are written

The terms of the notation of regular expressions, before flags give them their meaning.
-/

namespace Conduit.Regex

inductive Flag where
  | ignoreCase
  | multiLine
  /-- Whether a dot stands for the end of a line too. -/
  | dotAll
  /-- Whether repetitions prefer less unless they are marked. -/
  | swapGreed
  /-- Whether sets go beyond ASCII.  Without, what needs more than ASCII is refused. -/
  | unicode
  /-- Whether lines may end in a carriage return. -/
  | returns
  /-- Whether blanks and comments between the parts of a pattern count for nothing. -/
  | spaced
deriving DecidableEq

abbrev FlagChanges := List (Flag × Bool)

inductive SetOp where
  | inter
  | diff
  | symmDiff

inductive ShortSet where
  | digit
  | blank
  | word

inductive SetTerm where
  | empty
  | range (low high : Char)
  | short (s : ShortSet) (negated : Bool)
  | ascii (s : CharSet) (negated : Bool)
  | property (s : CharSet) (negated : Bool)
  | bracket (body : SetTerm) (negated : Bool)
  | union (items : List SetTerm)
  | op (o : SetOp) (a b : SetTerm)

inductive Anchor where
  | startLine
  | endLine
  | startText
  | endText
  | word (edge : WordEdge)

inductive Term where
  | empty
  /-- A character; `byte` when it is written as the two digits of a byte. -/
  | literal (c : Char) (byte : Bool)
  | dot
  | anchor (a : Anchor)
  | set (s : SetTerm)
  | flags (changes : FlagChanges)
  | repeated (t : Term) (low : Nat) (high : Option Nat) (greedy : Bool)
  | group (changes : FlagChanges) (t : Term)
  | capture (index : Nat) (t : Term)
  | seq (ts : List Term)
  | alt (ts : List Term)

namespace SetTerm

def ofItems : List SetTerm → SetTerm
  | [] => .empty
  | [s] => s
  | items => .union items

mutual

/-- How deep brackets, lists of items and operations are nested. -/
def depth : SetTerm → Nat
  | .bracket body _ => body.depth + 1
  | .union items => deepest items + 1
  | .op _ a b => max a.depth b.depth + 1
  | .empty | .range _ _ | .short _ _ | .ascii _ _ | .property _ _ => 0

def deepest : List SetTerm → Nat
  | [] => 0
  | s :: rest => max s.depth (deepest rest)

end

end SetTerm

namespace Term

def ofSequence : List Term → Term
  | [] => .empty
  | [t] => t
  | ts => .seq ts

def ofAlternatives : List Term → Term
  | [] => .empty
  | [t] => t
  | ts => .alt ts

mutual

/-- How deep the parts of a pattern are nested.  A single character adds nothing. -/
def depth : Term → Nat
  | .set s => s.depth
  | .repeated t _ _ _ | .group _ t | .capture _ t => t.depth + 1
  | .seq ts | .alt ts => deepest ts + 1
  | .empty | .literal _ _ | .dot | .anchor _ | .flags _ => 0

def deepest : List Term → Nat
  | [] => 0
  | t :: rest => max t.depth (deepest rest)

end

def depthLimit : Nat := 250

end Term

end Conduit.Regex
