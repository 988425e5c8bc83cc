import Conduit.Schema.Catalog

/-!
# Computed nodes

Stages that reshape documents describe each field they produce by a `ProjectedNode`.  Its type
and whether it is an array may be left open; they are then what all of its sources agree on.
`Catalog.addProjected` registers such fields as a new model.
-/

namespace Conduit

mutual

inductive ProjectedNode where
  | mk (name : String) (type : Option PropertyType) (array : Option Bool)
      (readAccess : AccessLevel) (sources : List ProjectedSource)
      (properties : List ProjectedNode) (document : Bool)

inductive ProjectedSource where
  | node (id : NodeId)
  | projected (p : ProjectedNode)

end

namespace ProjectedNode

instance : Inhabited ProjectedNode := ⟨.mk "" none none .none [] [] false⟩

def name : ProjectedNode → String
  | .mk name .. => name

def sources : ProjectedNode → List ProjectedSource
  | .mk _ _ _ _ sources _ _ => sources

def properties : ProjectedNode → List ProjectedNode
  | .mk _ _ _ _ _ properties _ => properties

def declaredType : ProjectedNode → Option PropertyType
  | .mk _ type .. => type

/-- A field of which only the name is known. -/
def named (name : String) : ProjectedNode := .mk name none none .none [] [] false

def rename (name : String) : ProjectedNode → ProjectedNode
  | .mk _ type array access sources properties document =>
    .mk name type array access sources properties document

def typed (type : PropertyType) : ProjectedNode → ProjectedNode
  | .mk name _ array access sources properties document =>
    .mk name (some type) array access sources properties document

def withArray (array : Option Bool) : ProjectedNode → ProjectedNode
  | .mk name type _ access sources properties document =>
    .mk name type array access sources properties document

def withSources (sources : List ProjectedSource) : ProjectedNode → ProjectedNode
  | .mk name type array access _ properties document =>
    .mk name type array access sources properties document

def raiseAccess (level : AccessLevel) : ProjectedNode → ProjectedNode
  | .mk name type array access sources properties document =>
    .mk name type array (access.max level) sources properties document

def withProperties (properties : List ProjectedNode) : ProjectedNode → ProjectedNode
  | .mk name type array access sources _ _ => .mk name type array access sources properties true

/-- The type that all sources agree on.  Several documents or references never agree, since
their shapes may differ. -/
def agreedType : List PropertyType → Option PropertyType
  | [] => none
  | [t] => some t
  | t :: rest =>
    if t ≠ .document ∧ t ≠ .reference ∧ rest.all (· = t) then some t else some .unknown

/-- Whether all sources are arrays, or none is. -/
def agreedArray : List (Option Bool) → Option Bool
  | [] => none
  | first :: rest => if rest.all (· = first) then first else none

def sortedIds (ids : List NodeId) : List NodeId := (ids.mergeSort fun a b => a ≤ b).eraseDups

variable (c : Catalog)

mutual

/-- The type: the declared one, or what the sources agree on. -/
def type : ProjectedNode → PropertyType
  | .mk _ declared _ _ sources _ document =>
    match declared with
    | some t => t
    | none =>
      if document then .document else (agreedType (sourceTypes sources)).getD .unknown

def sourceTypes : List ProjectedSource → List PropertyType
  | [] => []
  | .node id :: rest => (c.node id).type :: sourceTypes rest
  | .projected p :: rest => type p :: sourceTypes rest

end

/-- The type that the sources agree on, whatever type is declared. -/
def sourceType (p : ProjectedNode) : Option PropertyType := agreedType (sourceTypes c p.sources)

mutual

/-- Whether the field is an array: as declared, or as the sources agree. -/
def isArray : ProjectedNode → Option Bool
  | .mk _ _ declared _ sources _ _ =>
    match declared with
    | some b => some b
    | none => agreedArray (sourceArrays sources)

def sourceArrays : List ProjectedSource → List (Option Bool)
  | [] => []
  | .node id :: rest => some (c.node id).array :: sourceArrays rest
  | .projected p :: rest => isArray p :: sourceArrays rest

end

def publicType (p : ProjectedNode) : String := (p.type c).publicName ((p.isArray c).getD false)

mutual

def storedSources : ProjectedNode → List NodeId
  | .mk _ _ _ _ sources _ _ => sortedIds (storedBehind sources)

def storedBehind : List ProjectedSource → List NodeId
  | [] => []
  | .node id :: rest =>
    let n := c.node id
    (if n.projected && !n.sources.isEmpty then n.sources else [id]) ++ storedBehind rest
  | .projected p :: rest => storedSources p ++ storedBehind rest

end

mutual

def readerSources : ProjectedNode → List NodeId
  | .mk _ _ _ _ sources _ _ => readersAmong sources

def readersAmong : List ProjectedSource → List NodeId
  | [] => []
  | .node id :: rest =>
    (if (c.node id).isReaderBacked then [id] else []) ++ readersAmong rest
  | .projected p :: rest => readerSources p ++ readersAmong rest

end

def hasReader (p : ProjectedNode) : Bool := !(p.readerSources c).isEmpty

def isExpandable (p : ProjectedNode) : Bool :=
  let sources := p.storedSources c
  !sources.isEmpty && sources.all fun id => (c.node id).expandable

mutual

/-- The paths that must be selected along with the field. -/
def dependencies : ProjectedNode → List String
  | .mk name type array access sources properties document =>
    let own := (storedSources c (.mk name type array access sources [] document)).flatMap
      fun id => (c.node id).dependencies
    (own ++ dependenciesOf properties).eraseDups

def dependenciesOf : List ProjectedNode → List String
  | [] => []
  | p :: rest => dependencies p ++ dependenciesOf rest

end

mutual

def effectiveAccess : ProjectedNode → AccessLevel
  | .mk _ _ _ access sources _ _ => accessOf sources access

def accessOf : List ProjectedSource → AccessLevel → AccessLevel
  | [], level => level
  | .node id :: rest, level => accessOf rest (level.max (c.node id).readAccess)
  | .projected p :: rest, level => accessOf rest (level.max (effectiveAccess p))

end

end ProjectedNode

namespace Catalog

/-- The node of a produced field, without the nodes inside it. -/
def projectedNode (c : Catalog) (model : ModelId) (parent : NodeId) (path qualifiedPath : String)
    (p : ProjectedNode) : Node :=
  let sources := p.storedSources c
  { id := c.nodes.size
    model := model
    name := p.name
    path := Path.child path p.name
    qualifiedPath := qualifiedPath ++ "." ++ p.name
    type := p.type c
    array := (p.isArray c).getD false
    parent := some parent
    reader := p.hasReader c
    readAccess := p.effectiveAccess c
    expandable := p.isExpandable c
    localized := !sources.isEmpty && sources.all fun id => (c.node id).localized
    sources := sources
    projected := true }

def push (c : Catalog) (n : Node) : Catalog := { c with nodes := c.nodes.push n }

def adopt (c : Catalog) (id : NodeId) (children : List NodeId) : Catalog :=
  { c with nodes := c.nodes.modify id fun n => { n with children } }

mutual

def pushProjected (model : ModelId) (parent : NodeId) (path qualifiedPath : String) :
    ProjectedNode → Catalog → NodeId × Catalog
  | .mk name type array access sources properties document, c =>
    let n := c.projectedNode model parent path qualifiedPath
      (.mk name type array access sources [] document)
    let (children, c) := pushAllProjected model n.id n.path n.qualifiedPath properties (c.push n)
    (n.id, c.adopt n.id children)

def pushAllProjected (model : ModelId) (parent : NodeId) (path qualifiedPath : String) :
    List ProjectedNode → Catalog → List NodeId × Catalog
  | [], c => ([], c)
  | p :: rest, c =>
    let (id, c) := pushProjected model parent path qualifiedPath p c
    let (ids, c) := pushAllProjected model parent path qualifiedPath rest c
    (id :: ids, c)

end

/-- Registers the fields that a stage produces as a new model, which may extend others. -/
def addProjected (c : Catalog) (object : String) (type : Option String)
    (properties : List ProjectedNode) (base : List ModelId) : ModelId × Catalog :=
  let model := c.models.size
  let root : Node :=
    { id := c.nodes.size
      model := model
      name := ""
      type := .document
      projected := true
      qualifiedPath := object ++ "$" ++ toString model }
  let (children, c) := pushAllProjected model root.id "" root.qualifiedPath properties (c.push root)
  let c := c.adopt root.id children
  (model, { c with models := c.models.push ⟨model, object, type, false, root.id, base, true⟩ })

end Catalog

end Conduit
