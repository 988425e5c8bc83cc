import Conduit.Fault
import Conduit.Schema.Index
import Conduit.Schema.Node

/-!
# Catalogs

The tables of nodes and models that a pipeline is compiled against.  A loaded schema is a
catalog; stages that reshape documents add models to it at the end, so that an id once handed
out keeps its meaning.
-/

namespace Conduit

/-- Nodes and models by position, the models of each object, and the indexes of collections. -/
structure Catalog where
  nodes : Array Node := #[]
  models : Array Model := #[]
  objects : List (String × List ModelId) := []
  indexes : List (String × List IndexDefinition) := []

namespace Catalog

variable (c : Catalog)

def node (id : NodeId) : Node := c.nodes.getD id default

def model (id : ModelId) : Model := c.models.getD id default

def nodeModel (id : NodeId) : Model := c.model (c.node id).model

/-- The models of an object: the master or only one first, then those of its types. -/
def objectModels (object : String) : Except CompileError (List ModelId) :=
  match c.objects.find? (fun o => o.1 == object) with
  | some o => .ok o.2
  | none => .error ((Fault.objectNotFound object).at "")

def objectNames : List String := (c.objects.map Prod.fst).mergeSort fun a b => a ≤ b

def collectionIndexes (collection : String) : List IndexDefinition :=
  match c.indexes.find? (fun i => i.1 == collection) with
  | some i => i.2
  | none => []

def isRoot (id : NodeId) : Bool := (c.node id).parent.isNone

def isSetDocument (id : NodeId) : Bool :=
  match (c.node id).parent with
  | some parent => (c.node parent).type == .set
  | none => false

/-- The parent as paths see it: documents of a set are skipped. -/
def pathParent (id : NodeId) : Option NodeId := do
  let parent ← (c.node id).parent
  if c.isSetDocument parent then (c.node parent).parent else some parent

/-- The key that tells the documents of the surrounding set apart. -/
def discriminatorKey (id : NodeId) : Option String := do
  (c.node (← c.pathParent id)).discriminatorKey

def documentName (id : NodeId) : Option String := do
  let parent ← (c.node id).parent
  if c.isSetDocument parent then some (c.node parent).name else none

/-- The node and its ancestors below the root.  Parents stand before their children. -/
def lineage (id : NodeId) : List NodeId :=
  match (c.node id).parent with
  | none => []
  | some parent => id :: if parent < id then lineage parent else []
termination_by id

/-- The children a path can name: documents of a set are transparent. -/
def pathChildren (id : NodeId) : List NodeId :=
  let n := c.node id
  if n.type = .set then n.children.flatMap fun document => (c.node document).children
  else n.children

/-- Where a segment leads from a node.  A node of any type stands for everything below it. -/
def stepFrom (segment : String) (next : List NodeId) (id : NodeId) : List NodeId :=
  if !c.isRoot id && (c.node id).type == .any then next ++ [id]
  else (c.pathChildren id).foldl (fun next child =>
    if (c.node child).name == segment && !next.contains child then next ++ [child] else next) next

/-- One step along a path. -/
def step (segment : String) (current : List NodeId) : List NodeId :=
  current.foldl (c.stepFrom segment) []

def ownNodes (model : ModelId) (path : String) : List NodeId :=
  (Path.segments path).foldl (fun current segment => c.step segment current) [(c.model model).root]

/-- The items of `new` that are not there yet, added at the end. -/
def union (old new : List Nat) : List Nat :=
  new.foldl (fun acc id => if acc.contains id then acc else acc ++ [id]) old

/-- The nodes a path addresses in a model.  Where its own tree has none, the models it extends
answer; they stand before it in the table. -/
def findNodes (model : ModelId) (path : String) : List NodeId :=
  let own := c.ownNodes model path
  if own.isEmpty then
    (c.model model).base.foldl (fun found base =>
      if base < model then union found (findNodes base path) else found) []
  else own
termination_by model

/-- One more node: for a qualified path that is already there, a typed variant replaces the node
of its master, and otherwise the first node stays. -/
def addGathered (found : List NodeId) (id : NodeId) : List NodeId :=
  let same := fun (old : NodeId) => (c.node old).qualifiedPath == (c.node id).qualifiedPath
  match found.span (fun old => !same old) with
  | (_, []) => found ++ [id]
  | (front, old :: rest) =>
    if (c.nodeModel old).typeMaster && (c.nodeModel id).isTypedVariant then front ++ id :: rest
    else found

/-- The nodes a path addresses over several models, one for each qualified path. -/
def gatherNodes (models : List ModelId) (path : String) : List NodeId :=
  models.foldl (fun found model => (c.findNodes model path).foldl c.addGathered found) []

def agreedType (models : List ModelId) : Option String :=
  match models.map fun id => (c.model id).type with
  | some first :: rest => if rest.all fun t => t == some first then some first else none
  | _ => none

end Catalog

end Conduit
