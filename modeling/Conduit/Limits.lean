/-!
# Limits

Bounds on the size of what a pipeline may hold.  A limit that is lifted bounds nothing.
-/

namespace Conduit

/-- The bounds in force; none is a lifted bound. -/
structure Limits where
  stages : Option Nat
  depth : Option Nat
  keys : Option Nat
  inElements : Option Nat
  allElements : Option Nat
  conditions : Option Nat
  patternLength : Option Nat
  skip : Option Int
  limit : Option Int
deriving DecidableEq

namespace Limits

def maxStages : Nat := 20
def maxDepth : Nat := 20
def maxKeys : Nat := 100
def maxInElements : Nat := 10000
def maxAllElements : Nat := 10000
def maxConditions : Nat := 100
def maxPatternLength : Nat := 255
def maxSkip : Int := 500000
def maxLimit : Int := 500000

def standard : Limits where
  stages := some maxStages
  depth := some maxDepth
  keys := some maxKeys
  inElements := some maxInElements
  allElements := some maxAllElements
  conditions := some maxConditions
  patternLength := some maxPatternLength
  skip := some maxSkip
  limit := some maxLimit

def lifted : Limits := ⟨none, none, none, none, none, none, none, none, none⟩

def of (relaxed : Bool) : Limits := if relaxed then lifted else standard

def exceeds : Option Nat → Nat → Bool
  | some max, count => max < count
  | none, _ => false

end Limits

end Conduit
