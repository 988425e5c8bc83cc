import Conduit.Stage

/-!
# Pipelines

A pipeline is compiled stage by stage.  Each stage hands the models and candidates that are left
to the next one; a stage that reshapes documents registers their new shape as a model.
-/

namespace Conduit

structure PendingStage where
  kind : StageKind
  value : Json
  skipAcl : Bool := false

structure CompiledStage where
  kind : StageKind
  json : Json
  /-- Whether every stage up to this one can use an index. -/
  usesIndex : Bool

structure CompiledPipeline where
  stages : List CompiledStage
  /-- The level of access that reading without entries of its own needs. -/
  requiredAccess : AccessLevel
  placeholderNames : List String
  expansions : List Expansion
  usesIndex : Bool

namespace CompiledPipeline

def json (p : CompiledPipeline) : Json := .arr (p.stages.map CompiledStage.json)

/-- Whether a plain query can do the work of the pipeline. -/
def isQuery (p : CompiledPipeline) : Bool := p.stages.all fun s => s.kind.isQueryCompatible

end CompiledPipeline

namespace Pipeline

/-! ## The stages of a pipeline -/

def isEmptyValue : Json → Bool
  | .null => true
  | .str s => s.isEmpty
  | .arr items => items.isEmpty
  | .obj fs => fs.isEmpty
  | _ => false

def documentOf (v : Json) (fault : Fault) : Except CompileError Json :=
  match v with
  | .str s => match Json.read? s with
    | some v => .ok v
    | none => .error (fault.at "")
  | v => .ok v

def stageOf (position : Nat) (item : Json) : Except CompileError PendingStage := do
  match ← documentOf item (.itemNotJson position) with
  | .obj [(key, value)] =>
    match StageKind.ofKey? key with
    | none => throw ((Fault.unknownStage key).at "")
    | some kind =>
      if isEmptyValue value then throw ((Fault.emptyStage key position).at "")
      return { kind := kind, value := value }
  | .obj _ => throw ((Fault.itemNotSingleKey position).at "")
  | _ => throw ((Fault.itemNotObject position).at "")

def stagesFrom (position : Nat) : List Json → Except CompileError (List PendingStage)
  | [] => .ok []
  | item :: rest => do
    let first ← stageOf position item
    return first :: (← stagesFrom (position + 1) rest)

/-- The items of a pipeline; a single stage may stand for it. -/
def itemsOf (v : Json) : Except CompileError (List Json) := do
  match ← documentOf v .pipelineNotJson with
  | .null => return []
  | .arr items => return items
  | .obj fs => return [.obj fs]
  | _ => throw (Fault.pipelineNotArray.at "")

def internalStage (kind : StageKind) : Option Json → List PendingStage
  | some value => if isEmptyValue value then [] else [{ kind, value, skipAcl := true }]
  | none => []

def stagesOf (o : Options) (v : Json) : Except CompileError (List PendingStage) := do
  let items ← itemsOf v
  if Limits.exceeds o.limits.stages items.length then throw (Fault.tooManyStages.at "")
  return internalStage .match o.preMatch ++ internalStage .sort o.preSort ++
    (← stagesFrom 0 items)

/-! ## Compilation -/

structure Setting where
  catalog : Catalog
  options : Options
  policy : Policy := .allowAll
  indexes : String → List IndexDefinition
  /-- The compiled patterns that are kept when the stage at a position begins. -/
  patterns : Nat → Pattern.Cache := fun _ => []

/-- What the stages so far leave to the next one. -/
structure Progress where
  catalog : Catalog
  models : List ModelId
  properties : List Candidate := []
  usesIndex : Bool
  priorIndexKeys : List String := []

def start (s : Setting) : Except CompileError Progress := do
  let models ← s.catalog.objectModels s.options.object
  return { catalog := s.catalog, models, usesIndex := !s.options.skipIndexChecks }

def contextOf (s : Setting) (position : Nat) (later : List StageKind) (stage : PendingStage)
    (p : Progress) : Context :=
  { catalog := p.catalog
    options := s.options
    policy := s.policy
    indexes := s.indexes
    kind := stage.kind
    position
    models := p.models
    properties := p.properties
    usesIndex := p.usesIndex && stage.kind.isIndexable
    skipAcl := stage.skipAcl
    laterStages := later
    priorIndexKeys := p.priorIndexKeys
    patterns := s.patterns position }

/-- The state after a stage: a projection becomes the only model. -/
def advance (s : Setting) (ctx : Context) (output : StageOutput) (p : Progress) :
    Compile Progress := do
  let p := { p with
    usesIndex := ctx.usesIndex
    priorIndexKeys :=
      if ctx.usesIndex then output.indexKeys.foldl Json.addKey p.priorIndexKeys
      else p.priorIndexKeys }
  match output.projection with
  | some projection =>
    let base := if projection.extendsInput then output.models else []
    let type := p.catalog.agreedType output.models
    let (model, catalog) := p.catalog.addProjected s.options.object type projection.nodes base
    Journaled.note (.projected ctx.kind ctx.position projection.nodes.length)
    return { p with catalog, models := [model], properties := [] }
  | none => return { p with models := output.models, properties := output.properties }

def compileFrom (s : Setting) (position : Nat) :
    List PendingStage → Progress → Compile (List (CompiledStage × StageOutput))
  | [], _ => return []
  | stage :: rest, p => do
    let ctx := contextOf s position (rest.map PendingStage.kind) stage p
    let output ← compileStage ctx stage.value
    let next ← advance s ctx output p
    let first := (⟨stage.kind, output.json, ctx.usesIndex⟩, output)
    return first :: (← compileFrom s (position + 1) rest next)

def compileStages (s : Setting) (v : Json) : Compile (List (CompiledStage × StageOutput)) := do
  let stages ← Journaled.of (stagesOf s.options v)
  compileFrom s 0 stages (← Journaled.of (start s))

def assemble (stages : List (CompiledStage × StageOutput)) (access : AccessLevel) :
    CompiledPipeline :=
  { stages := stages.map Prod.fst
    requiredAccess := access
    placeholderNames := Operand.sortedNames (stages.flatMap fun s => s.2.placeholderNames)
    expansions := stages.flatMap fun s => s.2.expansions
    usesIndex := (stages.head?.map fun s => s.1.usesIndex).getD false }

/-- Compiles a pipeline, given as an array, a single stage, or the text of one. -/
def compile (s : Setting) (v : Json) : Compile CompiledPipeline :=
  let run := compileStages s v
  let access := requiredAccess run.journal
  match run.result with
  | .error e => ⟨.error e, run.journal⟩
  | .ok stages =>
    let done := Event.pipelineCompiled stages.length s.options.object access
    ⟨.ok (assemble stages access), run.journal ++ [done]⟩

end Pipeline

end Conduit
