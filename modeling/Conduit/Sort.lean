import Conduit.Json.Nested
import Conduit.Stage.Context

/-!
# The sort stage

Every field of a sort resolves to one native key: an index slot, the `_id` of a reference, or
the path itself.  While the pipeline can use an index, the keys together with those of the base
conditions and of earlier stages have to reach a native index.
-/

namespace Conduit.Sort

/-- A direction: one of the two numbers, or a placeholder. -/
inductive Direction where
  | ascending
  | descending
  | variable (name : String)

namespace Direction

def toJson : Direction → Json
  | .ascending => .int 1
  | .descending => .int (-1)
  | .variable name => .str (Path.placeholder name)

def placeholderNames : Direction → List String
  | .variable name => [name]
  | _ => []

def isExactly (v : Json) (n : Int) : Bool := v.integer? == some n

def read? (ctx : Context) (v : Json) : Option Direction :=
  match ctx.placeholder? v with
  | some name => some (.variable name)
  | none =>
    if isExactly v 1 then some .ascending
    else if isExactly v (-1) then some .descending
    else none

end Direction

def mergeItems : List Json → Fields → Except CompileError Fields
  | [], fs => .ok fs
  | .obj more :: rest, fs => mergeItems rest (Fields.extend fs more)
  | _ :: _, _ => .error ((Fault.stageNotObject StageKind.sort.key).at "")

/-- The fields of a sort: a name sorts upwards, and a list of objects is one object. -/
def fieldsOf (v : Json) : Except CompileError Fields :=
  match v.str?.filter (Path.isShorthand false), v with
  | some name, _ => .ok [(name, .int 1)]
  | none, .arr items => mergeItems items []
  | none, v => stageObject .sort v

variable (ctx : Context)

def parseFields : Fields → Except CompileError (List (String × Direction))
  | [] => .ok []
  | (key, v) :: rest => do
    if Path.isOperator key ∨ Path.property key ≠ key then
      throw ((Fault.fieldNotProperty key).at key)
    match Direction.read? ctx v with
    | some d => return (key, d) :: (← parseFields rest)
    | none => throw (Fault.sortDirection.at key)

def parse (v : Json) : Except CompileError (List (String × Direction)) := do
  let fs ← checkExpression ctx.limits (Site.root StageKind.sort.key) (.obj (← fieldsOf v))
  parseFields ctx fs

/-! ## Candidates -/

def candidatesWith (path : String) : Except CompileError (List Candidate) :=
  if (Candidate.find? ctx.properties path).isSome then .ok ctx.properties
  else
    let nodes := ctx.filterByDiscriminators (ctx.catalog.gatherNodes ctx.models path)
    if nodes.isEmpty ∧ ctx.strict then .error (Fault.noSortCandidates.at path)
    else .ok (ctx.properties ++ [{ path := path, nodes := nodes }])

def candidates (paths : List String) : Except CompileError (List Candidate) := do
  Candidate.mergeInter (← paths.mapM (candidatesWith ctx))

/-! ## Keys -/

/-- What the nodes of a sorted path have in common. -/
structure Survey where
  references : Nat := 0
  native : Nat := 0
  /-- The custom index slot, and whether it holds a value for each locale. -/
  slot : Option (String × Bool) := none
  checks : List NodeId := []

/-- Counts a node that has a native index of its own. -/
def Survey.countNative (n : Node) (s : Survey) : Survey :=
  if n.nativeIndex then { s with native := s.native + 1 } else s

/-- The slot of a node, or the need of a native index. -/
def surveySlot (path : String) (id : NodeId) (s : Survey) : Except CompileError Survey :=
  let n := ctx.catalog.node id
  if n.indexed then
    match n.slot, s.slot with
    | none, _ => throw ((Fault.sortIndexMissing n.qualifiedPath).at path)
    | some name, none => return { s with slot := some (name, n.localized) }
    | some name, some current =>
      if name = current.1 then return s else throw (Fault.sortSlotsDiffer.at path)
  else if !n.nativeIndex && !ctx.options.unindexed then
    return { s with checks := s.checks ++ [id] }
  else return s

def surveyIndex (path : String) (id : NodeId) (s : Survey) : Except CompileError Survey :=
  if !ctx.usesIndex then return s
  else surveySlot ctx path id (s.countNative (ctx.catalog.node id))

def survey (path : String) : List NodeId → Survey → Compile Survey
  | [], s => pure s
  | id :: rest, s => do
    let n := ctx.catalog.node id
    ctx.checkLineage true (fun id => (ctx.catalog.node id).isReaderBacked) .sortNotConcrete path
      (ctx.catalog.lineage id)
    if !n.isPrimitive && n.type != .reference then throw (Fault.sortNotPrimitive.at path)
    let s := if n.type = .reference then { s with references := s.references + 1 } else s
    survey path rest (← Journaled.of (surveyIndex ctx path id s))

/-- Whether a candidate holds arrays; what lies inside an array counts as one. -/
def holdsArrays (p : Candidate) : Bool :=
  p.isArray.getD (p.nodes.any fun id =>
    (ctx.catalog.lineage id).any fun ancestor => (ctx.catalog.node ancestor).array)

def keyOf (path : String) (s : Survey) : String :=
  match s.slot with
  | some (name, localized) =>
    let key := IndexEntries.slotKey name
    if localized then key ++ "." ++ ctx.options.currentLocale else key
  | none => if s.references > 0 then path ++ "._id" else path

/-- The native key of a sorted path, and the nodes that need a native index. -/
def sortKey (properties : List Candidate) (path : String) :
    Compile (String × List (String × NodeId)) := do
  match Candidate.find? properties path with
  | none => throw (Fault.unreconciledSort.at path)
  | some p =>
    if holdsArrays ctx p then throw (Fault.sortArray.at path)
    let s ← survey ctx path p.nodes {}
    if s.native > 0 ∧ s.native < p.nodes.length then throw (Fault.sortMixesNative.at path)
    if s.references > 0 ∧ s.references < p.nodes.length ∧ s.slot.isNone then
      throw (Fault.sortMixesReferences.at path)
    return (keyOf ctx path s, s.checks.map fun id => (path, id))

def sortKeys (properties : List Candidate) :
    List (String × Direction) → Fields → List (String × NodeId) →
      Compile (Fields × List (String × NodeId))
  | [], keys, checks => return (keys, checks)
  | (path, d) :: rest, keys, checks => do
    let (key, more) ← sortKey ctx properties path
    sortKeys properties rest (Fields.insert keys key d.toJson) (checks ++ more)

/-- Nodes without an index of their own have to be reached through a native index by the keys of
the base conditions, of the sort and of earlier stages. -/
def checkNativeIndexes (sort : Json) (checks : List (String × NodeId)) : Compile Unit := do
  if !ctx.usesIndex || checks.isEmpty then return
  let paths := checks.map fun c => (ctx.catalog.node c.2).path
  let own := sort.queryKeys ((Json.obj ctx.baseFind).queryKeys [])
  let covered := ctx.indexTree.covered (ctx.priorIndexKeys.foldl Json.addKey own) paths
  .note (.sortCoverage covered paths)
  match checks.find? fun c => !covered.contains (ctx.catalog.node c.2).path with
  | some (path, id) => throw ((Fault.sortNotIndexed (ctx.catalog.node id).qualifiedPath).at path)
  | none => pure ()

def compile (value : Json) : Compile StageOutput := do
  let fields ← Journaled.of (parse ctx value)
  let properties ← Journaled.of (candidates ctx (fields.map Prod.fst))
  let (keys, checks) ← sortKeys ctx properties fields [] []
  let sort := Json.obj keys
  checkNativeIndexes ctx sort checks
  return { json := .obj [(StageKind.sort.key, sort)]
           models := ctx.models
           properties
           placeholderNames := Operand.sortedNames (fields.flatMap fun f => f.2.placeholderNames)
           indexKeys := sort.queryKeys [] }

end Conduit.Sort
