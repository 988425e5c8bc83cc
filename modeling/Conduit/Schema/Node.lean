import Conduit.Access
import Conduit.Schema.PropertyType

/-!
# Nodes and models

A model is one variant of the documents of an object: the object itself, or the object with one
of its types.  Its properties form a tree of nodes below a root.  Nodes and models are named by
their positions in the tables that hold them.
-/

namespace Conduit

abbrev NodeId := Nat

abbrev ModelId := Nat

structure Node where
  id : NodeId
  model : ModelId
  name : String
  /-- The path inside the model; documents of a set add no segment. -/
  path : String := ""
  /-- The path with the object, type and set document that define the property. -/
  qualifiedPath : String := ""
  type : PropertyType
  array : Bool := false
  parent : Option NodeId := none
  children : List NodeId := []
  readable : Bool := true
  readAccess : AccessLevel := .read
  acl : Option Acl := none
  isVirtual : Bool := false
  reader : Bool := false
  groupReader : Bool := false
  indexed : Bool := false
  slot : Option String := none
  nativeIndex : Bool := false
  localized : Bool := false
  fixedLocale : Option String := none
  expandable : Bool := false
  dependencies : List String := []
  discriminatorKey : Option String := none
  /-- The stored nodes a computed node was derived from. -/
  sources : List NodeId := []
  projected : Bool := false
  /-- The type that declares the property, when not all types share it. -/
  declaredType : Option String := none
deriving DecidableEq

instance : Inhabited Node := ⟨{ id := 0, model := 0, name := "", type := .unknown }⟩

namespace Node

def isPrimitive (n : Node) : Bool := n.type.isPrimitive

def publicType (n : Node) : String := n.type.publicName n.array

/-- Whether the value comes from a reader, or from no data at all. -/
def isReaderBacked (n : Node) : Bool := n.reader || n.groupReader || n.isVirtual

end Node

structure Model where
  id : ModelId
  object : String
  type : Option String
  /-- Whether the object has types and this is the variant without one. -/
  typeMaster : Bool
  root : NodeId
  /-- The models that answer for paths this one does not define. -/
  base : List ModelId
  projected : Bool
deriving DecidableEq

instance : Inhabited Model := ⟨⟨0, "", none, false, 0, [], false⟩⟩

namespace Model

def isTypedVariant (m : Model) : Bool := m.type.isSome

def isTyped (m : Model) : Bool := m.typeMaster || m.type.isSome

/-- The object, with the type behind a hash. -/
def qualifiedName (m : Model) : String :=
  match m.type with
  | some t => m.object ++ "#" ++ t
  | none => m.object

end Model

end Conduit
