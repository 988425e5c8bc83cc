import Conduit.Pipeline
import Conduit.Schema.Load
import Mathlib.Tactic.Simps.Basic

/-!
# Catalogs without index data

`Catalog.blind` erases what the nodes of a catalog say about indexes, and the list of indexes.
Whatever the narrowing asks of a catalog is answered alike by both (`gatherNodes_blind`,
`discriminatorAllows_blind`), and registering the shape of a projection commutes with it
(`addProjected_blind`).
-/

namespace Conduit

/-! ## What is left out -/

/-- A node without what it says about indexes. -/
@[simps] def Node.blind (n : Node) : Node :=
  { n with indexed := false, slot := none, nativeIndex := false }

namespace Node

variable (n : Node)

@[simp] lemma isReaderBacked_blind : n.blind.isReaderBacked = n.isReaderBacked := rfl

@[simp] lemma isPrimitive_blind : n.blind.isPrimitive = n.isPrimitive := rfl

@[simp] lemma publicType_blind : n.blind.publicType = n.publicType := rfl

end Node

/-- Options without what they say about indexes. -/
@[simps] def Options.blind (o : Options) : Options :=
  { o with baseFind := [], collection := "", unindexed := false }

namespace Catalog

/-- A catalog without what it says about indexes. -/
def blind (c : Catalog) : Catalog := { c with nodes := c.nodes.map Node.blind, indexes := [] }

variable (c : Catalog)

@[simp] lemma node_blind (id : NodeId) : c.blind.node id = (c.node id).blind := by
  simp only [node, blind, Array.getD_eq_getD_getElem?, Array.getElem?_map]
  cases c.nodes[id]? with
  | none => rfl
  | some n => rfl

@[simp] lemma model_blind : c.blind.model = c.model := rfl

@[simp] lemma documentName_blind : c.blind.documentName = c.documentName := by
  delta documentName isSetDocument
  simp

@[simp] lemma pathParent_blind : c.blind.pathParent = c.pathParent := by
  delta pathParent isSetDocument
  simp

@[simp] lemma discriminatorKey_blind : c.blind.discriminatorKey = c.discriminatorKey := by
  delta discriminatorKey
  simp

@[simp] lemma discriminatorAllows_blind : c.blind.discriminatorAllows = c.discriminatorAllows := by
  delta discriminatorAllows
  simp

@[simp] lemma lineage_blind (id : NodeId) : c.blind.lineage id = c.lineage id := by
  induction id using Nat.strongRecOn with
  | ind id ih =>
    rw [lineage, lineage, node_blind]
    simp only [Node.blind]
    split
    · rfl
    · next parent _ =>
      split
      · next hlt => rw [ih parent hlt]
      · rfl

@[simp] lemma ownNodes_blind : c.blind.ownNodes = c.ownNodes := by
  delta ownNodes step stepFrom pathChildren isRoot
  simp

@[simp] lemma findNodes_blind (model : ModelId) (path : String) :
    c.blind.findNodes model path = c.findNodes model path := by
  induction model using Nat.strongRecOn with
  | ind model ih =>
    have hbase : (fun found base => if base < model then union found (c.blind.findNodes base path)
        else found) = fun found base => if base < model then union found (c.findNodes base path)
        else found := by
      funext found base
      split
      · next hlt => rw [ih base hlt]
      · rfl
    rw [findNodes, findNodes, ownNodes_blind, hbase, model_blind]

@[simp] lemma gatherNodes_blind : c.blind.gatherNodes = c.gatherNodes := by
  delta gatherNodes addGathered nodeModel
  simp

@[simp] lemma agreedType_blind : c.blind.agreedType = c.agreedType := rfl

end Catalog

/-! ## Computed nodes -/

namespace ProjectedNode

variable (c : Catalog)

@[simp] lemma type_blind : type c.blind = type c := by
  delta type type._f sourceTypes._f
  simp only [Catalog.node_blind]
  rfl

@[simp] lemma isArray_blind : isArray c.blind = isArray c := by
  delta isArray isArray._f sourceArrays._f
  simp only [Catalog.node_blind]
  rfl

@[simp] lemma storedSources_blind : storedSources c.blind = storedSources c := by
  delta storedSources storedSources._f storedBehind._f
  simp only [Catalog.node_blind]
  rfl

@[simp] lemma readerSources_blind : readerSources c.blind = readerSources c := by
  delta readerSources readerSources._f readersAmong._f
  simp only [Catalog.node_blind]
  rfl

@[simp] lemma effectiveAccess_blind : effectiveAccess c.blind = effectiveAccess c := by
  delta effectiveAccess effectiveAccess._f accessOf._f
  simp only [Catalog.node_blind]
  rfl

@[simp] lemma dependencies_blind : dependencies c.blind = dependencies c := by
  delta dependencies dependencies._f dependenciesOf._f
  simp only [storedSources_blind, Catalog.node_blind]
  rfl

@[simp] lemma publicType_blind : publicType c.blind = publicType c := by
  funext p
  simp [publicType]

@[simp] lemma isExpandable_blind : isExpandable c.blind = isExpandable c := by
  funext p
  simp [isExpandable]

end ProjectedNode

namespace Catalog

variable (c : Catalog)

lemma projectedNode_blind (model : ModelId) (parent : NodeId) (path qualifiedPath : String)
    (p : ProjectedNode) : c.blind.projectedNode model parent path qualifiedPath p =
      (c.projectedNode model parent path qualifiedPath p).blind := by
  simp [projectedNode, Node.blind, ProjectedNode.hasReader]
  simp [blind]

lemma push_blind (n : Node) : (c.push n).blind = c.blind.push n.blind := by
  simp only [push, blind, Array.map_push]

lemma adopt_blind (id : NodeId) (children : List NodeId) :
    (c.adopt id children).blind = c.blind.adopt id children := by
  simp only [adopt, blind]
  congr 1
  refine Array.ext (by simp) fun i h h' => ?_
  simp only [Array.getElem_map, Array.getElem_modify]
  split <;> rfl

mutual

lemma pushProjected_blind (model : ModelId) (parent : NodeId) (path qualifiedPath : String) :
    ∀ (p : ProjectedNode) (c : Catalog), pushProjected model parent path qualifiedPath p c.blind =
        ((pushProjected model parent path qualifiedPath p c).1,
          (pushProjected model parent path qualifiedPath p c).2.blind)
  | .mk name type array access sources properties document, c => by
    simp only [pushProjected, projectedNode_blind, Node.blind_id, Node.blind_path,
      Node.blind_qualifiedPath, ← push_blind, adopt_blind,
      pushAllProjected_blind model _ _ _ properties]

lemma pushAllProjected_blind (model : ModelId) (parent : NodeId) (path qualifiedPath : String) :
    ∀ (ps : List ProjectedNode) (c : Catalog),
      pushAllProjected model parent path qualifiedPath ps c.blind =
        ((pushAllProjected model parent path qualifiedPath ps c).1,
          (pushAllProjected model parent path qualifiedPath ps c).2.blind)
  | [], c => rfl
  | p :: rest, c => by
    simp only [pushAllProjected, pushProjected_blind model parent path qualifiedPath p,
      pushAllProjected_blind model parent path qualifiedPath rest]

end

lemma addProjected_blind (object : String) (type : Option String)
    (properties : List ProjectedNode) (base : List ModelId) :
    c.blind.addProjected object type properties base =
      ((c.addProjected object type properties base).1,
        (c.addProjected object type properties base).2.blind) := by
  have hsize : c.blind.nodes.size = c.nodes.size := Array.size_map
  have hroot : ∀ n : Node, n.blind = n → c.blind.push n = (c.push n).blind := by
    intro n hn
    rw [push_blind, hn]
  unfold addProjected
  dsimp only
  rw [hsize, hroot _ rfl, pushAllProjected_blind, ← adopt_blind]
  rfl

end Catalog

end Conduit
