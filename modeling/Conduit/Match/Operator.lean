import Conduit.Rule

/-!
# Match operators

The operators of a match, what each demands of its value and place, and how comparisons treat
names.
-/

namespace Conduit

inductive MatchOp where
  | eq
  | ne
  | gt
  | gte
  | lt
  | lte
  | hasType
  | present
  | oneOf
  | noneOf
  | and
  | or
  | pattern
  | size
  | all
  | elemMatch
  | within
deriving DecidableEq

inductive CompareOp where
  | eq
  | ne
  | gt
  | gte
  | lt
  | lte
deriving DecidableEq

namespace CompareOp

/-- Whether a name that stands in this order to the expected one passes. -/
def accepts : CompareOp → Ordering → Bool
  | eq, o => o == .eq
  | ne, o => o != .eq
  | gt, o => o == .gt
  | gte, o => o != .lt
  | lt, o => o == .lt
  | lte, o => o != .gt

/-- Whether it passes that the name, the expected one or both are missing. -/
def acceptsMissing (op : CompareOp) (both : Bool) : Bool :=
  if both then op == eq || op == gte || op == lte else op == ne

end CompareOp

namespace MatchOp

def key : MatchOp → String
  | eq => "$eq"
  | ne => "$ne"
  | gt => "$gt"
  | gte => "$gte"
  | lt => "$lt"
  | lte => "$lte"
  | hasType => "$type"
  | present => "$exists"
  | oneOf => "$in"
  | noneOf => "$nin"
  | and => "$and"
  | or => "$or"
  | pattern => "$regex"
  | size => "$size"
  | all => "$all"
  | elemMatch => "$elemMatch"
  | within => "$within"

def every : List MatchOp :=
  [eq, ne, gt, gte, lt, lte, hasType, present, oneOf, noneOf, and, or, pattern, size, all,
   elemMatch, within]

def ofKey? (key : String) : Option MatchOp := every.find? fun op => op.key == key

/-- Operators that a caller needs leave to use. -/
def isRestricted : MatchOp → Bool
  | hasType | ne | noneOf => true
  | _ => false

def rules : MatchOp → List Rule
  | eq | ne | gt => [.underProperty, .primitiveOrEmpty]
  | gte | lt | lte => [.underProperty, .primitive]
  | hasType | present | pattern => [.underProperty]
  | oneOf | noneOf => [.underProperty, .valueList]
  | and | or => [.topOrLogical, .conditions]
  | size | all => [.belowProperty]
  | elemMatch => [.belowPropertyOrAll]
  | within => [.belowProperty, .object]

def compareOp? : MatchOp → Option CompareOp
  | eq => some .eq
  | ne => some .ne
  | gt => some .gt
  | gte => some .gte
  | lt => some .lt
  | lte => some .lte
  | _ => none

/-- Operators with a single value for each property. -/
def isSimple (op : MatchOp) : Bool := op.compareOp?.isSome || op == present

/-- Operators whose elements must all hold. -/
def isConjunction : MatchOp → Bool
  | and | all => true
  | _ => false

/-- Keys that give index entries their shape. -/
def isLogicalKey (key : String) : Bool :=
  key == "$all" || key == "$and" || key == "$elemMatch" || key == "$or"

def typeAliases : List String :=
  ["double", "string", "object", "array", "binData", "objectId", "bool", "date", "null", "regex",
   "int", "timestamp", "long", "decimal", "minKey", "maxKey"]

end MatchOp

def Site.matchOp? (s : Site) : Option MatchOp := MatchOp.ofKey? s.key

end Conduit
