import Conduit.Text.CharSet

/-!
# Regular expressions
-/

namespace Conduit

/-- An edge between what belongs to words and what does not. -/
inductive WordEdge where
  | boundary
  | notBoundary
  | start
  | stop
  /-- No word before it. -/
  | startHalf
  /-- No word after it. -/
  | stopHalf
deriving DecidableEq

inductive Look where
  | startText
  | endText
  | startLine
  | endLine
  /-- Lines may end in a carriage return, a line feed, or one after the other. -/
  | startReturnLine
  | endReturnLine
  /-- `ascii` restricts words to the letters, digits and underscore of ASCII. -/
  | word (edge : WordEdge) (ascii : Bool)
deriving DecidableEq

inductive Regex where
  | empty
  | text (cs : List Char)
  | one (s : CharSet)
  | look (l : Look)
  | seq (a b : Regex)
  | alt (a b : Regex)
  /-- At least `low` times, and at most `high` times if there is such a bound; `greedy` prefers
  more. -/
  | repeated (r : Regex) (low : Nat) (high : Option Nat) (greedy : Bool)
  | capture (index : Nat) (r : Regex)
deriving DecidableEq

namespace Regex

def fail : Regex := .one .none

def ofSet (s : CharSet) : Regex :=
  match s.only? with
  | some c => .text [c]
  | none => .one s

/-! ## Lengths -/

/-- Whether every match is empty, and there is a bound on repetitions. -/
def isBlank : Regex → Bool
  | .empty => true
  | .text _ => false
  | .one _ => false
  | .look _ => true
  | .seq a b => a.isBlank && b.isBlank
  | .alt a b => a.isBlank && b.isBlank
  | .repeated r _ high _ => high.isSome && r.isBlank
  | .capture _ r => r.isBlank

/-- The least number of characters of a match, unless some part matches nothing. -/
def leastLength? : Regex → Option Nat
  | .empty => some 0
  | .text cs => some cs.length
  | .one s => if s.isEmpty then none else some 1
  | .look _ => some 0
  | .seq a b => do return (← a.leastLength?) + (← b.leastLength?)
  | .alt a b => do return min (← a.leastLength?) (← b.leastLength?)
  | .repeated r low _ _ => do return low * (← r.leastLength?)
  | .capture _ r => r.leastLength?

/-! ## Repetitions -/

/-- A repetition.  To repeat what is empty adds nothing after the first time. -/
def repetition (r : Regex) (low : Nat) (high : Option Nat) (greedy : Bool) : Regex :=
  let (low, high) :=
    if r.isBlank then (min low 1, some (match high with | some n => min n 1 | none => 1))
    else (low, high)
  if low = 0 && high = some 0 then .empty
  else if low = 1 && high = some 1 then r
  else .repeated r low high greedy

/-! ## Sequences -/

def parts : Regex → List Regex
  | .empty => []
  | .seq a b => a :: b.parts
  | r => [r]

def ofParts : List Regex → Regex
  | [] => .empty
  | [r] => r
  | r :: rest => .seq r (ofParts rest)

/-- One more part in front, with two texts made one. -/
def glue : Regex → List Regex → List Regex
  | .text a, .text b :: rest => .text (a ++ b) :: rest
  | r, rest => r :: rest

def sequence (rs : List Regex) : Regex := ofParts ((rs.flatMap parts).foldr glue [])

/-! ## Alternatives -/

def choices : Regex → List Regex
  | .alt a b => a :: b.choices
  | r => [r]

def ofChoices : List Regex → Regex
  | [] => fail
  | [r] => r
  | r :: rest => .alt r (ofChoices rest)

def char? : Regex → Option Char
  | .text [c] => some c
  | _ => none

def set? : Regex → Option CharSet
  | .one s => some s
  | _ => none

def sequenceParts? : Regex → Option (List Regex)
  | .seq a b => some (a :: b.parts)
  | _ => none

def commonFront : List Regex → List Regex → List Regex
  | a :: as, b :: bs => if a = b then a :: commonFront as bs else []
  | _, _ => []

def commonFronts : List (List Regex) → List Regex
  | [] => []
  | l :: ls => ls.foldl commonFront l

def nodes : Regex → Nat
  | .empty | .text _ | .one _ | .look _ => 1
  | .seq a b | .alt a b => a.nodes + b.nodes + 1
  | .repeated r _ _ _ | .capture _ r => r.nodes + 1

/-- A choice, with what all alternatives start with before it.  Each step makes the alternatives
shorter, so `fuel` is enough when it counts the expressions in them. -/
def choiceOf : Nat → List Regex → Regex
  | 0, rs => ofChoices rs
  | fuel + 1, rs =>
    let rs := rs.flatMap choices
    if rs.length ≤ 1 then ofChoices rs
    else match rs.mapM char?, rs.mapM set?, rs.mapM sequenceParts? with
      | some cs, _, _ => ofSet (.ofCodes (cs.map Char.toNat))
      | none, some sets, _ => ofSet (.unions sets)
      | none, none, some lists =>
        let front := commonFronts lists
        if front.isEmpty then ofChoices rs
        else
          let rest := choiceOf fuel (lists.map fun l => sequence (l.drop front.length))
          sequence (front ++ [rest])
      | none, none, none => ofChoices rs

def alternation (rs : List Regex) : Regex := choiceOf (rs.foldl (fun n r => n + r.nodes) 0) rs

end Regex

end Conduit
