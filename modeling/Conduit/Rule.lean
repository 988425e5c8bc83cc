import Conduit.Fault
import Conduit.Json.Printer
import Conduit.Operand
import Conduit.Pattern

/-!
# Rules for operators

What the operators of a stage demand of their value and of the place they stand in, checked
before the value is parsed.
-/

namespace Conduit

inductive Rule where
  | primitiveOrEmpty
  | primitive
  | propertyPath
  | propertyPathIfString
  | object
  | belowProperty
  | belowPropertyOrAll
  /-- Only `$all` and `$elemMatch` stand between the operator and a property above it. -/
  | underProperty
  | array
  /-- The value is an array, not too long. -/
  | valueList
  /-- The operator stands at the top or directly below a logical operator. -/
  | topOrLogical
  /-- The value is a non-empty array of objects, not too long. -/
  | conditions
  | size (n : Nat)
  | atLeast (n : Nat)
  | between (low high : Nat)
deriving DecidableEq

namespace Rule

def lengthBetween (low : Nat) (high : Option Nat) : Json → Bool
  | .arr items => low ≤ items.length && high.all fun h => items.length ≤ h
  | _ => false

def isStructured (v : Json) : Bool := v.isArr || v.isObj

def isEmptyStructure : Json → Bool
  | .arr [] | .obj [] => true
  | _ => false

def isPropertyPath : Json → Bool
  | .str s => Path.isFieldPath s
  | _ => false

/-- Whether the first key that is neither `$all` nor `$elemMatch` names a property. -/
def reachesProperty : List String → Bool
  | [] => false
  | key :: rest =>
    if !Path.isOperator key then true
    else if key = "$all" ∨ key = "$elemMatch" then reachesProperty rest
    else false

def conditionsFault (op : String) (limits : Limits) : Json → Option Fault
  | .arr items =>
    if items.isEmpty then some (.conditionsEmpty op)
    else if Limits.exceeds limits.conditions items.length then some (.conditionsTooMany op)
    else if items.any fun v => !v.isObj then some (.conditionNotObject op)
    else none
  | _ => some (.conditionsNotArray op)

def valueListFault (op : String) (limits : Limits) : Json → Option Fault
  | .arr items =>
    if Limits.exceeds limits.inElements items.length then some (.valueListTooLong op) else none
  | _ => some (.valueListExpected op)

/-- How an operator at a place fails a rule with this value.  A placeholder meets every demand
on the value. -/
def fault? (r : Rule) (site : Site) (op : String) (v : Json) (isVariable : Bool)
    (limits : Limits) : Option Fault :=
  let demand (b : Bool) (f : Fault) : Option Fault := if isVariable || b then none else some f
  let stands (b : Bool) (f : Fault) : Option Fault := if b then none else some f
  match r with
  | primitiveOrEmpty => demand (!isStructured v || isEmptyStructure v) (.primitiveExpected op)
  | primitive => demand (!isStructured v) (.primitiveExpected op)
  | propertyPath => demand (isPropertyPath v) (.propertyPathExpected op)
  | propertyPathIfString => demand (!v.isStr || isPropertyPath v) (.propertyPathExpected op)
  | object => demand v.isObj (.objectExpected op)
  | belowProperty =>
    stands (site.enclosing.head?.any fun k => !Path.isOperator k) (.parentNotProperty op)
  | belowPropertyOrAll =>
    stands (site.enclosing.head?.any fun k => !Path.isOperator k || k == "$all")
      (.parentNotPropertyOrAll op)
  | underProperty => stands (reachesProperty site.enclosing) (.upstreamNotProperty op)
  | array => demand v.isArr (.arrayRequired op)
  | valueList => if isVariable then none else valueListFault op limits v
  | topOrLogical =>
    stands (site.depth ≤ 1 ||
      site.enclosing.head?.any fun k => k == "$and" || k == "$or" || k == "$elemMatch")
      (.logicalMisplaced op)
  | conditions => if isVariable then none else conditionsFault op limits v
  | size n => demand (lengthBetween n (some n) v) (.arraySize op n)
  | atLeast n => demand (lengthBetween n none v) (.arrayTooShort op n)
  | between low high => demand (lengthBetween low (some high) v) (.arrayLength op low high)

def checkAll (rules : List Rule) (site : Site) (op : String) (v : Json) (isVariable : Bool)
    (limits : Limits) : Except CompileError Unit :=
  match rules.findSome? fun r => r.fault? site op v isVariable limits with
  | some f => .error (f.at site.fullpath)
  | none => .ok ()

end Rule

/-- A pattern from its literal, which has to be a regular expression of bounded length.  The
form in documents counts as checked. -/
def Pattern.Cache.validate (cache : Cache) (v : Json) (limits : Limits) (path : String) :
    Except CompileError Pattern :=
  match Pattern.ofJson? v with
  | some p => .ok p
  | none =>
    let shown := match v with
      | .str s => s
      | v => v.text
    if v.isStr && !shown.isEmpty && !Limits.exceeds limits.patternLength shown.length then
      match cache.parse? shown with
      | some p => .ok p
      | none => .error ((Fault.patternInvalid shown).at path)
    else .error ((Fault.patternLength shown).at path)

def Pattern.validate : Json → Limits → String → Except CompileError Pattern := Cache.validate []

end Conduit
