import Conduit.Candidate
import Conduit.Operand
import Conduit.Options
import Conduit.Pattern
import Conduit.Schema.Projected
import Conduit.Stage.Event

/-!
# Stages

What a stage is given and what it hands on, and what all stages share: authorization, the
normal form of stage values, and the candidates of a path.
-/

namespace Conduit

structure Context where
  catalog : Catalog
  options : Options
  policy : Policy := .allowAll
  indexes : String → List IndexDefinition
  kind : StageKind
  position : Nat := 0
  /-- The models that may be left before this stage. -/
  models : List ModelId := []
  /-- The properties narrowed by earlier stages. -/
  properties : List Candidate := []
  /-- Whether every stage so far is a match or a sort. -/
  usesIndex : Bool := false
  /-- Whether the stage is internal and free of access checks. -/
  skipAcl : Bool := false
  laterStages : List StageKind := []
  /-- The keys that earlier stages use of an index. -/
  priorIndexKeys : List String := []
  /-- The patterns that were compiled before this stage. -/
  patterns : Pattern.Cache := []

/-- A reference to be expanded by the caller. -/
structure Expansion where
  path : String
  arguments : Json

structure Projection where
  nodes : List ProjectedNode
  /-- Whether paths that are not produced still mean what they meant before. -/
  extendsInput : Bool

structure StageOutput where
  json : Json
  models : List ModelId
  properties : List Candidate
  projection : Option Projection := none
  placeholderNames : List String := []
  expansions : List Expansion := []
  /-- The keys that later checks of indexes may rely on. -/
  indexKeys : List String := []

namespace Context

variable (ctx : Context)

def limits : Limits := ctx.options.limits

def strict : Bool := ctx.options.strict

/-- The base conditions; none once an index is out of question. -/
def baseFind : Fields := if ctx.usesIndex then ctx.options.baseFind else []

/-- The name of a placeholder, where placeholders are recognised. -/
def placeholder? : Json → Option String
  | .str s => if ctx.options.withVariables then Path.variableName? s else none
  | _ => none

def indexTree : IndexTree := IndexTree.ofIndexes (ctx.indexes ctx.options.collection)

def passThrough (json : Json) : StageOutput :=
  { json, models := ctx.models, properties := ctx.properties }

def laterStage? (kinds : List StageKind) : Option (StageKind × Nat) :=
  (ctx.laterStages.zipIdx.find? fun s => kinds.contains s.1).map fun s =>
    (s.1, ctx.position + s.2 + 1)

/-- What the access entries of a node demand.  A node without entries needs its read access of
the whole pipeline if `counts`: matching or sorting by a value tells something about it, even
when the value is never returned. -/
def authorizeEntries (n : Node) (counts : Bool) : Compile Unit :=
  if ctx.skipAcl || n.type == .list then pure ()
  else match n.acl with
    | some .untargeted => throw (Fault.untargetedAcl.at n.path)
    | some (.targeted level) =>
      if ctx.policy.grants level then pure ()
      else throw ((Fault.inaccessible n.qualifiedPath).at n.path)
    | none =>
      if counts then .note (.needs ctx.kind ctx.position n.readAccess) else pure ()

def authorize (id : NodeId) (counts : Bool) : Compile Unit := do
  let n := ctx.catalog.node id
  if !n.readable then throw (Fault.propertyNotFound.at n.path)
  ctx.authorizeEntries n counts
  if !ctx.options.allowSystemAccess && n.readAccess == .system then
    throw (Fault.propertyNotFound.at n.path)
  .note (.authorized ctx.kind ctx.position n.qualifiedPath)

/-- Authorizes a node and what is above it, none of which the stage may refuse. -/
def checkLineage (counts : Bool) (refuses : NodeId → Bool) (fault : String → Fault)
    (path : String) : List NodeId → Compile Unit
  | [] => pure ()
  | id :: rest => do
    ctx.authorize id counts
    if refuses id then throw ((fault (ctx.catalog.node id).qualifiedPath).at path)
    checkLineage counts refuses fault path rest

/-- The nodes of a path, and whether its values are arrays: what earlier stages left of it, or
else what the models have. -/
def candidateNodes (path : String) : List NodeId × Option Bool :=
  match Candidate.find? ctx.properties path with
  | some c => (c.nodes, c.isArray)
  | none => (ctx.catalog.gatherNodes ctx.models path, none)

end Context

/-- Whether a node may still occur where `properties` have narrowed the discriminator of its
set.  Discriminators themselves may. -/
def Catalog.discriminatorAllows (c : Catalog) (properties : List Candidate) (id : NodeId) : Bool :=
  match c.discriminatorKey id with
  | none => true
  | some key =>
    if (c.node id).name = key then true
    else
      let setPath := match c.pathParent id with
        | some set => (c.node set).path
        | none => ""
      match Candidate.find? properties (setPath ++ "." ++ key) with
      | none => true
      | some p =>
        match c.documentName id with
        | none => true
        | some name => (p.nodes.filterMap c.documentName).contains name

def Context.filterByDiscriminators (ctx : Context) (nodes : List NodeId) : List NodeId :=
  nodes.filter (ctx.catalog.discriminatorAllows ctx.properties)

/-- The object of a stage, which may be given as its text. -/
def stageObject (kind : StageKind) (v : Json) : Except CompileError Fields := do
  let v ← match v with
    | .str s => match Json.read? s with
      | some v => pure v
      | none => throw ((Fault.stageNotJson kind.key).at "")
    | v => pure v
  match v with
  | .obj fs => return fs
  | _ => throw ((Fault.stageNotObject kind.key).at "")

/-- The object of an expression at a place, which is neither too deep nor empty nor too wide. -/
def checkExpression (limits : Limits) (site : Site) (v : Json) : Except CompileError Fields := do
  if Limits.exceeds limits.depth site.depth then throw (Fault.tooDeep.at site.fullpath)
  match v with
  | .obj fs =>
    if fs.isEmpty then throw (Fault.expressionEmpty.at site.fullpath)
    if Limits.exceeds limits.keys fs.length then throw (Fault.tooManyKeys.at site.fullpath)
    return fs
  | _ => throw (Fault.expressionNotObject.at site.fullpath)

end Conduit
