import Conduit.Json.Reader
import Conduit.Schema.Catalog
import Conduit.Schema.Definition

/-!
# Loading a schema

The catalog of a schema document.  Each object has one model, and one more for each of its
types; a typed model holds copies of the nodes the object declares, then those of the type.
Nodes are numbered in the order of the document, a node before the nodes inside it.

Indexed properties get an index slot: the one they ask for, or the next free number.  The copies
of one property in the models of an object share its slot.
-/

namespace Conduit

namespace Catalog

/-- The nodes so far, and the slots handed out for the current object. -/
structure Draft where
  nodes : Array Node := #[]
  slots : List (String × String) := []
  counter : Nat := 0

structure Place where
  model : ModelId
  parent : NodeId
  path : String
  qualifiedPath : String
  declaredType : Option String

/-- A letter and one to three digits. -/
def isSlot (s : String) : Bool :=
  match s.toList with
  | c :: digits =>
    'a' ≤ c && c ≤ 'z' && digits.all Char.isDigit && 1 ≤ digits.length && digits.length ≤ 3
  | [] => false

namespace Draft

def slot (d : Draft) (qualifiedPath : String) : Option String → Except Fault (String × Draft)
  | some slot =>
    if isSlot slot then .ok (slot, { d with slots := (qualifiedPath, slot) :: d.slots })
    else .error (.indexSlot slot qualifiedPath)
  | none =>
    match d.slots.find? (fun s => s.1 == qualifiedPath) with
    | some s => .ok (s.2, d)
    | none =>
      let counter := d.counter + 1
      let slot := "i" ++ toString counter
      .ok (slot, { d with slots := (qualifiedPath, slot) :: d.slots, counter })

def push (d : Draft) (n : Node) : NodeId × Draft := (n.id, { d with nodes := d.nodes.push n })

def adopt (d : Draft) (id : NodeId) (children : List NodeId) : Draft :=
  { d with nodes := d.nodes.modify id fun n => { n with children } }

def defaultDiscriminator : String := "name"

/-- The node of a property, without the nodes inside it. -/
def addNode (d : Draft) (place : Place) (t : PropertyTraits) : Except Fault (Node × Draft) := do
  if !Path.isFieldName t.name then throw (.propertyName t.name)
  let some type := PropertyType.ofName? t.type | throw (.unknownType t.type t.name)
  let qualifiedPath := place.qualifiedPath ++ "." ++ t.name
  let (slot, d) ←
    if t.indexed then do
      let (slot, d) ← d.slot qualifiedPath t.slot
      pure (some slot, d)
    else pure (none, d)
  let n : Node := {
    id := d.nodes.size
    model := place.model
    name := t.name
    path := Path.child place.path t.name
    qualifiedPath := qualifiedPath
    type := type
    array := t.array || type == .set
    parent := some place.parent
    readable := t.readable.getD true
    readAccess := t.readAccess.getD .read
    acl := t.acl
    isVirtual := t.isVirtual
    reader := t.reader
    groupReader := t.groupReader
    indexed := t.indexed
    slot := slot
    nativeIndex := t.nativeIndex
    localized := t.localized
    fixedLocale := t.fixedLocale
    expandable := t.expandable
    dependencies := t.dependencies
    discriminatorKey :=
      if type = .set then some (t.discriminatorKey.getD defaultDiscriminator) else none
    declaredType := place.declaredType }
  return (n, { d with nodes := d.nodes.push n })

mutual

def addProperty (place : Place) : PropertyDefinition → Draft → Except Fault (NodeId × Draft)
  | ⟨traits, properties, documents⟩, d => do
    let (n, d) ← d.addNode place traits
    let inside := { place with parent := n.id, path := n.path, qualifiedPath := n.qualifiedPath }
    match n.type with
    | .document => do
      let (children, d) ← addProperties inside properties d
      return (n.id, d.adopt n.id children)
    | .set => do
      let (children, d) ←
        addDocuments inside (n.discriminatorKey.getD defaultDiscriminator) documents d
      return (n.id, d.adopt n.id children)
    | _ => return (n.id, d)

def addProperties (place : Place) :
    List PropertyDefinition → Draft → Except Fault (List NodeId × Draft)
  | [], d => .ok ([], d)
  | p :: rest, d => do
    let (id, d) ← addProperty place p d
    let (ids, d) ← addProperties place rest d
    return (id :: ids, d)

/-- The documents of a set.  A document that does not declare the discriminator gets it as its
first property. -/
def addDocuments (place : Place) (key : String) :
    List (String × List PropertyDefinition) → Draft → Except Fault (List NodeId × Draft)
  | [], d => .ok ([], d)
  | (name, properties) :: rest, d => do
    if !Path.isFieldName name then throw (.documentName name)
    let n : Node := {
      id := d.nodes.size
      model := place.model
      name := name
      path := place.path
      qualifiedPath := place.qualifiedPath ++ "#" ++ name
      type := .document
      parent := some place.parent
      declaredType := place.declaredType }
    let (id, d) := d.push n
    let inside := { place with parent := id, qualifiedPath := n.qualifiedPath }
    let (first, d) ←
      if properties.any fun p => p.traits.name == key then pure ([], d)
      else do
        let (m, d) ← d.addNode inside { name := key, type := PropertyType.string.name }
        pure ([m.id], d)
    let (children, d) ← addProperties inside properties d
    let d := d.adopt id (first ++ children)
    let (ids, d) ← addDocuments place key rest d
    return (id :: ids, d)

end

end Draft

def builtinNames : List String := ["_id", "object", "type", "created"]

def builtins (typed : Bool) : List PropertyDefinition :=
  [.builtin "_id" PropertyType.objectId.name, .builtin "object" PropertyType.string.name] ++
    (if typed then [.builtin "type" PropertyType.string.name] else []) ++
    [.builtin "created" PropertyType.date.name]

/-- The catalog so far, and the slots of the current object. -/
structure Loading where
  catalog : Catalog := {}
  slots : List (String × String) := []
  counter : Nat := 0

namespace Loading

/-- Adds a model with the properties of the object and those of one type. -/
def addModel (l : Loading) (object : String) (type : Option String) (typeMaster : Bool)
    (shared specific : List PropertyDefinition) : Except Fault (ModelId × Loading) := do
  let model := l.catalog.models.size
  let root := l.catalog.nodes.size
  let rootNode : Node :=
    { id := root, model := model, name := "", type := .document, qualifiedPath := object }
  let d : Draft := ⟨l.catalog.nodes.push rootNode, l.slots, l.counter⟩
  let place : Place := ⟨model, root, "", object, none⟩
  let (common, d) ← d |> Draft.addProperties place shared
  let (own, d) ← match type with
    | some t =>
      let place : Place := ⟨model, root, "", object ++ "#" ++ t, some t⟩
      d |> Draft.addProperties place specific
    | none => pure ([], d)
  let d := d.adopt root (common ++ own)
  let m : Model := ⟨model, object, type, typeMaster, root, [], false⟩
  let catalog := { l.catalog with nodes := d.nodes, models := l.catalog.models.push m }
  return (model, ⟨catalog, d.slots, d.counter⟩)

def addTypes (object : String) (shared : List PropertyDefinition) :
    List TypeDefinition → Loading → Except Fault (List ModelId × Loading)
  | [], l => .ok ([], l)
  | t :: rest, l => do
    if !Path.isFieldName t.name then throw (.typeName t.name)
    match t.properties.find? fun p => shared.any fun q => q.traits.name == p.traits.name with
    | some p => throw (.redefined object t.name p.traits.name)
    | none => pure ()
    let (id, l) ← l.addModel object (some t.name) false shared t.properties
    let (ids, l) ← addTypes object shared rest l
    return (id :: ids, l)

def addObject (l : Loading) (o : ObjectDefinition) : Except Fault Loading := do
  if !Path.isFieldName o.name then throw (.objectName o.name)
  if l.catalog.objects.any fun p => p.1 == o.name then throw (.duplicateObject o.name)
  match o.properties.find? fun p => builtinNames.contains p.traits.name with
  | some p => throw (.builtinConflict o.name p.traits.name)
  | none => pure ()
  let typed := !o.types.isEmpty
  let shared := builtins typed ++ o.properties
  let l : Loading := { catalog := l.catalog }
  let (master, l) ← l.addModel o.name none typed shared []
  let (variants, l) ← addTypes o.name shared o.types l
  return { l with
    catalog := { l.catalog with
      objects := l.catalog.objects ++ [(o.name, master :: variants)] } }

end Loading

def ofDefinition (s : SchemaDefinition) : Except Fault Catalog := do
  let l ← s.objects.foldlM Loading.addObject {}
  return { l.catalog with indexes := s.indexes }

def load (document : Json) : Except CompileError Catalog :=
  match SchemaDefinition.decode document with
  | .error e => .error ((Fault.schemaDocument e.message).at "")
  | .ok s => (ofDefinition s).mapError fun f => f.at ""

def loadText (text : String) : Except CompileError Catalog :=
  match Json.read? text with
  | some document => load document
  | none => .error (Fault.notJson.at "")

end Catalog

end Conduit
