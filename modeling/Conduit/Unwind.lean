import Conduit.Stage.Context

/-!
# The unwind stage

Unwinding gives one document for each element of an array, so that later stages see its path as
a single value.
-/

namespace Conduit.Unwind

/-- The object of an unwind; the path may stand for it. -/
def fieldsOf (v : Json) : Except CompileError Fields :=
  match v.str?.filter (Path.isShorthand true) with
  | some path => .ok [("path", .str path)]
  | none => stageObject .unwind v

def pathOf (fs : Fields) : Except CompileError Json :=
  match fs with
  | [(key, v)] => if key = "path" then .ok v else .error (Fault.unwindKey.at key)
  | _ => .error (Fault.unwindNotSingle.at "")

def propertyOf (v : Json) : Except CompileError String :=
  match v with
  | .str s =>
    if s.isEmpty ∨ Path.property s ≠ s then .error ((Fault.unwindName s).at "path") else .ok s
  | _ => .error (Fault.unwindNotName.at "path")

variable (ctx : Context)

def candidates (path : String) : Except CompileError (List Candidate) :=
  if (Candidate.find? ctx.properties path).isSome then
    .ok (setSingle ctx.properties)
  else
    let nodes := ctx.filterByDiscriminators (ctx.catalog.gatherNodes ctx.models path)
    if nodes.isEmpty ∧ ctx.strict then .error (Fault.noUnwindCandidates.at path)
    else .ok (ctx.properties ++ [{ path, nodes, isArray := some false }])
where
  /-- The first candidate of the path becomes a single value. -/
  setSingle : List Candidate → List Candidate
    | [] => []
    | c :: rest =>
      if c.path = path then { c with isArray := some false } :: rest else c :: setSingle rest

def checkNodes (path : String) : List NodeId → Compile Unit
  | [] => pure ()
  | id :: rest => do
    let refuses (id : NodeId) :=
      (ctx.catalog.node id).groupReader || (ctx.catalog.node id).isVirtual
    ctx.checkLineage false refuses .unwindNotConcrete path (ctx.catalog.lineage id)
    checkNodes path rest

def form (path : String) : Json := .obj [(StageKind.unwind.key, .obj [("path", .str path)])]

def compile (value : Json) : Compile StageOutput := do
  let v ← Journaled.of do pathOf (← fieldsOf value)
  match ctx.placeholder? v with
  | some name =>
    return { ctx.passThrough (form (Path.placeholder name)) with placeholderNames := [name] }
  | none =>
    let path ← Journaled.of (propertyOf v)
    let properties ← Journaled.of (candidates ctx path)
    match Candidate.find? properties path with
    | none => throw (Fault.unreconciledUnwind.at path)
    | some p => checkNodes ctx path p.nodes
    return { ctx.passThrough (form ("$" ++ path)) with properties }

end Conduit.Unwind
