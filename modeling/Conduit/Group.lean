import Conduit.Expression.Elaborate
import Conduit.Expression.Parse
import Conduit.Json.Nested

/-!
# The group stage

A group has a key under `_id` and accumulators under the other names.  Grouped documents still
say which object and type they are about.
-/

namespace Conduit.Group

/-- The fields of a group: the name of a property may stand for a group by it. -/
def fieldsOf (v : Json) : Except CompileError Fields := do
  let named := v.str?.filter (Path.isShorthand false)
  let fs ← match named with
    | some name => pure [("_id", Json.str name)]
    | none => stageObject .group v
  return Fields.expand fs

/-- A group has a key, and a group of everything has an accumulator. -/
def checkKey (fs : Fields) : Except CompileError Unit :=
  match Fields.get? fs "_id" with
  | none => .error (Fault.groupWithoutId.at "")
  | some v =>
    if v.isNull ∧ fs.length = 1 then .error (Fault.groupOnlyNull.at "") else .ok ()

variable (ctx : Context)

/-- The key: null, a property, an object of keys, or a placeholder. -/
def parseKey (site : Site) (v : Json) : Except CompileError Operand :=
  match v with
  | .null => .ok (.simple .null)
  | .str _ | .obj _ => Expression.parseArgument ctx site v
  | _ => .error (Fault.groupId.at "_id")

def parseAccumulator (site : Site) (v : Json) : Except CompileError Operand := do
  match v with
  | .obj [(key, arg)] =>
    match Accumulator.ofKey? key with
    | none => throw (Fault.accumulatorExpected.at site.fullpath)
    | some a =>
      let _ ← checkExpression ctx.limits site v
      let place := site.child key
      Rule.checkAll a.rules place key arg (ctx.placeholder? arg).isSome ctx.limits
      return .expression [(key, ← Expression.parseArgument ctx place arg)]
  | _ => throw (Fault.accumulatorExpected.at site.fullpath)

def parseAll (root : Site) : Fields → Except CompileError (List (String × Operand))
  | [] => .ok []
  | (key, v) :: rest => do
    if !Path.isFieldName key then throw (Fault.groupFieldName.at key)
    let place := root.child key
    let first ← if key = "_id" then parseKey ctx place v else parseAccumulator ctx place v
    return (key, first) :: (← parseAll root rest)

def parse (v : Json) : Except CompileError Operand := do
  let fs ← fieldsOf v
  checkKey fs
  return .expression (← parseAll ctx (Site.root ctx.kind.key) fs)

/-- The first value of a label that is part of the key, as in `{_id: {object: "$object"}}`. -/
def keyLabel? (body : Fields) (label : String) : Option Json := do
  let key ← Fields.get? body "_id"
  match ← key.field? label with
  | .str s => if s = "$" ++ label then some (.obj [("$first", .str s)]) else none
  | _ => none

def constant (s : String) : Json := .obj [("$first", .obj [("$literal", .str s)])]

/-- Adds a label to what a group produces, if it has a value and the name is free. -/
def addLabel (label : String) (value : Option Json) (o : Expression.Outcome) :
    Expression.Outcome :=
  match value with
  | some v =>
    if Fields.contains o.body label then o
    else { o with
      body := Fields.insert o.body label v
      nodes := o.nodes ++ [(Expression.scalarNode .string).rename label] }
  | none => o

/-- Adds the object and, where there is only one, the type. -/
def addLabels (o : Expression.Outcome) : Expression.Outcome :=
  let object := (keyLabel? o.body "object").getD (constant ctx.options.object)
  let type := (keyLabel? o.body "type").or ((ctx.catalog.agreedType ctx.models).map constant)
  addLabel "type" type (addLabel "object" (some object) o)

def compile (value : Json) : Compile StageOutput := do
  let v ← Journaled.of (parse ctx value)
  let outcome ← Expression.elaborateStage ctx v
  let outcome := addLabels ctx outcome
  return { json := .obj [(StageKind.group.key, .obj outcome.body)]
           models := ctx.models
           properties := []
           projection := some ⟨outcome.nodes, false⟩
           placeholderNames := v.placeholderNames
           expansions := outcome.expansions }

end Conduit.Group
