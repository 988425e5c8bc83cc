import Conduit.Pattern.Regex
import Conduit.Text.Property

/-!
# Matching

A regular expression relates the positions where a match may start to those where it may end.
`Regex.ends` computes that relation forward on sets of positions, so matching needs no
backtracking and always terminates.
-/

namespace Conduit

/-- Whether an edge lies between what comes before and after it; each says whether it belongs to
a word. -/
def WordEdge.holds : WordEdge → Bool → Bool → Bool
  | boundary, before, after => before != after
  | notBoundary, before, after => before == after
  | start, before, after => !before && after
  | stop, before, after => before && !after
  | startHalf, before, _ => !before
  | stopHalf, _, after => !after

namespace Look

def isAsciiWord (c : Char) : Bool := c.isAlphanum || c == '_'

/-- Whether the condition holds between the character before a position and the one after it. -/
def holds : Look → Option Char → Option Char → Bool
  | startText, before, _ => before.isNone
  | endText, _, after => after.isNone
  | startLine, before, _ => before.isNone || before == some '\n'
  | endLine, _, after => after.isNone || after == some '\n'
  | startReturnLine, before, after =>
    before.isNone || before == some '\n' || (before == some '\r' && after != some '\n')
  | endReturnLine, before, after =>
    after.isNone || after == some '\r' || (after == some '\n' && before != some '\r')
  | word edge ascii, before, after =>
    let isWord := if ascii then isAsciiWord else Text.isWord
    edge.holds (before.any isWord) (after.any isWord)

end Look

namespace Regex

def before (text : Array Char) : Nat → Option Char
  | 0 => none
  | i + 1 => text[i]?

def iterate (f : List Nat → List Nat) : Nat → List Nat → List Nat
  | 0, ps => ps
  | n + 1, ps => if ps.isEmpty then [] else iterate f n (f ps)

/-- Everything reached in at most `n` steps: what was `seen`, and what the steps from `ps` add
to it. -/
def reach (f : List Nat → List Nat) : Nat → List Nat → List Nat → List Nat
  | 0, seen, _ => seen
  | n + 1, seen, ps =>
    let next := (f ps).filter fun i => !seen.contains i
    if next.isEmpty then seen else reach f n (seen ++ next) next

def stands (text : Array Char) : List Char → Nat → Bool
  | [], _ => true
  | c :: cs, i => text[i]? == some c && stands text cs (i + 1)

/-- Where matches that start at one of `starts` may end.  More repetitions than there are
positions reach nothing new. -/
def ends (text : Array Char) : Regex → List Nat → List Nat
  | .empty, ps => ps
  | .text cs, ps => (ps.filter (stands text cs)).map (· + cs.length)
  | .one s, ps => (ps.filter fun i => text[i]?.any s.has).map (· + 1)
  | .look l, ps => ps.filter fun i => l.holds (before text i) text[i]?
  | .seq a b, ps => ends text b (ends text a ps)
  | .alt a b, ps => (ends text a ps ++ ends text b ps).eraseDups
  | .repeated r low high _, ps =>
    let bound := text.size + 1
    let step := fun qs => (ends text r qs).eraseDups
    let first := iterate step (min low bound) ps
    let more := match high with
      | some high => min (high - low) bound
      | none => bound
    reach step more first first
  | .capture _ r, ps => ends text r ps

def isMatch (r : Regex) (text : String) : Bool :=
  let cs := text.toList.toArray
  !(r.ends cs (List.range (cs.size + 1))).isEmpty

end Regex

end Conduit
