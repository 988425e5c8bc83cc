import Conduit.Pattern.Term
import Conduit.Text.Property

/-!
# The meaning of patterns

The flags in force give a pattern its meaning as a regular expression.
-/

namespace Conduit.Regex

structure Flags where
  ignoreCase : Bool := false
  multiLine : Bool := false
  dotAll : Bool := false
  swapGreed : Bool := false
  unicode : Bool := true
  returns : Bool := false

namespace Flags

def set (f : Flags) : Flag × Bool → Flags
  | (.ignoreCase, on) => { f with ignoreCase := on }
  | (.multiLine, on) => { f with multiLine := on }
  | (.dotAll, on) => { f with dotAll := on }
  | (.swapGreed, on) => { f with swapGreed := on }
  | (.unicode, on) => { f with unicode := on }
  | (.returns, on) => { f with returns := on }
  | (.spaced, _) => f

def change (f : Flags) (changes : FlagChanges) : Flags := changes.foldl set f

def fold (f : Flags) (s : CharSet) : CharSet :=
  if !f.ignoreCase then s else if f.unicode then s.folded else s.foldedAscii

/-- What is asked for: the characters of a set, or the others. -/
def negate? (f : Flags) (negated : Bool) (s : CharSet) : Option CharSet :=
  if !negated then some s else if f.unicode then some s.complement else none

def short (f : Flags) : ShortSet → CharSet
  | .digit => if f.unicode then Text.inCategories ["Nd"] else .range '0' '9'
  | .blank =>
    if f.unicode then Text.Property.whiteSpace else .union (.range '\t' '\r') (.single ' ')
  | .word =>
    if f.unicode then Text.wordSet
    else .unions [.range 'a' 'z', .range 'A' 'Z', .range '0' '9', .single '_']

def dot? (f : Flags) : Option CharSet :=
  if !f.unicode then none
  else if f.dotAll then some .any
  else if f.returns then some (CharSet.union (.single '\r') (.single '\n')).complement
  else some (CharSet.single '\n').complement

def look (f : Flags) : Anchor → Look
  | .startLine =>
    if !f.multiLine then .startText else if f.returns then .startReturnLine else .startLine
  | .endLine => if !f.multiLine then .endText else if f.returns then .endReturnLine else .endLine
  | .startText => .startText
  | .endText => .endText
  | .word edge => .word edge (!f.unicode)

/-- A plain character.  As a byte it stands for itself only in ASCII. -/
def literal? (f : Flags) (c : Char) (byte : Bool) : Option Regex :=
  if !f.unicode && byte && 128 ≤ c.toNat then none else some (.ofSet (f.fold (.single c)))

end Flags

def SetOp.apply : SetOp → CharSet → CharSet → CharSet
  | .inter => .inter
  | .diff => .diff
  | .symmDiff => .symmDiff

namespace SetTerm

mutual

/-- The characters that a set stands for.  Letters in other cases are added before anything is
negated, and to both sides of an operation. -/
def set? (f : Flags) : SetTerm → Option CharSet
  | .empty => some .none
  | .range low high =>
    if f.unicode || high.toNat < 128 then some (.range low high) else none
  | .short s negated => f.negate? negated (f.short s)
  | .ascii s negated => f.negate? negated (f.fold s)
  | .property s negated => if f.unicode then f.negate? negated (f.fold s) else none
  | .bracket body negated => do f.negate? negated (f.fold (← body.set? f))
  | .union items => return .unions (← sets? f items)
  | .op o a b => do
    let a ← a.set? f
    let b ← b.set? f
    return o.apply (f.fold a) (f.fold b)

def sets? (f : Flags) : List SetTerm → Option (List CharSet)
  | [] => some []
  | s :: rest => do return (← s.set? f) :: (← sets? f rest)

end

end SetTerm

namespace Term

mutual

/-- The regular expression of a pattern under some flags, and the flags after it. -/
def meaning? (f : Flags) : Term → Option (Regex × Flags)
  | .empty => some (.empty, f)
  | .literal c byte => (f.literal? c byte).map fun r => (r, f)
  | .dot => f.dot?.map fun s => (.ofSet s, f)
  | .anchor a => some (.look (f.look a), f)
  | .set s => (s.set? f).map fun s => (.ofSet s, f)
  | .flags changes => some (.empty, f.change changes)
  | .repeated t low high greedy => do
    let (r, f) ← t.meaning? f
    return (r.repetition low high (greedy != f.swapGreed), f)
  | .group changes t => do
    let (r, _) ← t.meaning? (f.change changes)
    return (r, f)
  | .capture index t => do
    let (r, _) ← t.meaning? f
    return (.capture index r, f)
  | .seq ts => do
    let (rs, f) ← meanings? f ts
    return (.sequence rs, f)
  | .alt ts => do
    let (rs, f) ← meanings? f ts
    return (.alternation rs, f)

/-- The regular expressions of some patterns, each under the flags that the ones before it
leave. -/
def meanings? (f : Flags) : List Term → Option (List Regex × Flags)
  | [] => some ([], f)
  | t :: rest => do
    let (r, f) ← t.meaning? f
    let (rs, f) ← meanings? f rest
    return (r :: rs, f)

end

end Term

end Conduit.Regex
