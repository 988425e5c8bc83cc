import Conduit.Expression.Elaborate
import Conduit.Expression.Parse
import Conduit.Json.Nested

/-!
# The projection stages

`$project` keeps the output fields and what they depend on; `$addFields` adds output fields to
the documents.
-/

namespace Conduit.Project

/-- The fields of a projection: the name of a single one may stand for it, and dotted names are
taken apart. -/
def fieldsOf (kind : StageKind) (v : Json) : Except CompileError Fields := do
  let named := v.str?.filter (Path.isShorthand true)
  let fs ← match named with
    | some name => pure [(name, Json.int 1)]
    | none => stageObject kind v
  return Fields.expand fs

/-- Projected documents keep their `_id`. -/
def withId (fs : Fields) : Except CompileError Fields :=
  match Fields.get? fs "_id" with
  | some v => if v.isInclusion then .ok fs else .error (Fault.idNotIncluded.at "_id")
  | none => .ok (("_id", .int 1) :: fs)

def parse (ctx : Context) (v : Json) : Except CompileError Operand := do
  let root := Site.root ctx.kind.key
  let fs ← checkExpression ctx.limits root (.obj (← fieldsOf ctx.kind v))
  match fs.find? fun f => Path.isOperator f.1 with
  | some f => throw (Fault.topLevelOperator.at f.1)
  | none => pure ()
  Expression.checkFieldsOrOperator ctx.kind fs true ""
  let fs ← if ctx.kind = .project then withId fs else pure fs
  return .expression (← Expression.parseFields ctx root fs)

/-- Selects what the fields depend on.  A dependency that is computed in another way cannot be
met. -/
def addDependencies : List String → Fields → Except CompileError Fields
  | [], body => .ok body
  | path :: rest, body =>
    match Fields.get? body path with
    | some v =>
      if v.isInclusion then addDependencies rest body
      else .error (Fault.dependencyExcluded.at path)
    | none => addDependencies rest (Fields.insert body path (.int 1))

def compile (ctx : Context) (value : Json) : Compile StageOutput := do
  let v ← Journaled.of (parse ctx value)
  let outcome ← Expression.elaborateStage ctx v
  let extendsInput : Bool := ctx.kind = .addFields
  let dependencies := outcome.nodes.flatMap fun n => n.dependencies ctx.catalog
  let body ← if extendsInput then pure outcome.body
    else Journaled.of do
      let body ← addDependencies dependencies (Fields.flatten outcome.body)
      return Fields.collapse body
  return { json := .obj [(ctx.kind.key, .obj body)]
           models := ctx.models
           properties := []
           projection := some ⟨outcome.nodes, extendsInput⟩
           placeholderNames := v.placeholderNames
           expansions := outcome.expansions }

end Conduit.Project
