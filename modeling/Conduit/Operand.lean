import Conduit.Json
import Conduit.Path

/-!
# Parsed stage values

Every stage reads its document into an `Operand`: the same tree, with field references and
placeholders told apart from literals.  A `Site` says where in that tree a key stands.
-/

namespace Conduit

inductive Operand where
  | expression (children : List (String × Operand))
  | array (elements : List Operand)
  | simple (v : Json)
  | property (path : String)
  | variable (name : String)
  /-- A value that is handed on unread. -/
  | raw (v : Json)
deriving Inhabited

/-- The keys and values of an object. -/
abbrev Children := List (String × Operand)

namespace Operand

def isVariable : Operand → Bool
  | .variable _ => true
  | _ => false

def isExpression : Operand → Bool
  | .expression _ => true
  | _ => false

def children : Operand → List (String × Operand)
  | .expression cs => cs
  | _ => []

def elements : Operand → List Operand
  | .array es => es
  | _ => []

mutual

/-- The document the operand was read from. -/
def underlying : Operand → Json
  | .expression children => .obj (underlyingFields children [])
  | .array elements => .arr (underlyingItems elements)
  | .simple v | .raw v => v
  | .property path => .str path
  | .variable name => .str (Path.placeholder name)

def underlyingItems : List Operand → List Json
  | [] => []
  | o :: rest => underlying o :: underlyingItems rest

def underlyingFields : List (String × Operand) → Fields → Fields
  | [], fs => fs
  | (key, o) :: rest, fs => underlyingFields rest (Fields.insert fs key (underlying o))

end

mutual

def placeholders : Operand → List String
  | .expression children => placeholdersBelow children
  | .array elements => placeholdersAmong elements
  | .variable name => [name]
  | _ => []

def placeholdersAmong : List Operand → List String
  | [] => []
  | o :: rest => placeholders o ++ placeholdersAmong rest

def placeholdersBelow : List (String × Operand) → List String
  | [] => []
  | (_, o) :: rest => placeholders o ++ placeholdersBelow rest

end

def sortedNames (names : List String) : List String :=
  (names.mergeSort fun a b => a ≤ b).eraseDups

def placeholderNames (o : Operand) : List String := sortedNames o.placeholders

end Operand

/-- Where a key stands in a parsed stage. -/
structure Site where
  key : String
  /-- The keys around it, the nearest first and that of the stage last. -/
  enclosing : List String
  /-- The keys from below the stage down to this one, operators included. -/
  fullpath : String
deriving DecidableEq

namespace Site

def root (stage : String) : Site := ⟨stage, [], ""⟩

def isRoot (s : Site) : Bool := s.enclosing.isEmpty

def child (s : Site) (key : String) : Site :=
  ⟨key, s.key :: s.enclosing, if s.isRoot then key else s.fullpath ++ "." ++ key⟩

/-- The property the place is about. -/
def propertyPath (s : Site) : String := Path.property s.fullpath

def isOperator (s : Site) : Bool := Path.isOperator s.key

/-- How many expressions are around the value at this place. -/
def depth (s : Site) : Nat := s.enclosing.length

def isTopLevel (s : Site) : Bool := s.enclosing.length == 1

end Site

end Conduit
