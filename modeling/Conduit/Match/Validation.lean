import Conduit.Match.Trail

/-!
# Checking a match

Every node that a matched path may mean has to be readable, stored, and of a type that can be
compared.  Nodes without an index of their own are noted for the check of native indexes.
-/

namespace Conduit.Match

structure Findings where
  /-- The components that are stored by reference. -/
  references : List (List Nat) := []
  /-- The nodes that need a native index, with the path of the condition. -/
  checks : List (String × NodeId) := []

namespace Findings

def append (a b : Findings) : Findings := ⟨a.references ++ b.references, a.checks ++ b.checks⟩

instance : Append Findings := ⟨append⟩

end Findings

variable (ctx : Context)

/-- Whether values of a type can be compared though it is no primitive type. -/
def isComparable : PropertyType → Bool
  | .reference | .geometry | .any => true
  | _ => false

def checkNodes (trail : Trail) : List NodeId → Compile Findings
  | [] => pure {}
  | id :: rest => do
    ctx.checkLineage true (fun id => (ctx.catalog.node id).isReaderBacked) .matchNotConcrete
      trail.fullpath (ctx.catalog.lineage id)
    let n := ctx.catalog.node id
    if ctx.strict && !n.isPrimitive && !isComparable n.type then
      throw ((Fault.matchNotPrimitive n.publicType).at trail.fullpath)
    let needsIndex :=
      ctx.usesIndex && !n.nativeIndex && !n.indexed && !ctx.options.unindexed
    let here : Findings :=
      { references := if n.type = .reference then trail.referenced else []
        checks := if needsIndex then [(trail.fullpath, id)] else [] }
    return here ++ (← checkNodes trail rest)

def checkProperty (trail : Trail) : Compile Findings := do
  match ← trail.property with
  | none => throw (Fault.unreconciledMatch.at trail.fullpath)
  | some c =>
    let findings ← checkNodes ctx trail c.nodes
    let isReference := fun id => (ctx.catalog.node id).type == .reference
    if c.nodes.any isReference && !c.nodes.all isReference then
      throw (Fault.matchMixesReferences.at trail.fullpath)
    return findings

/-- Patterns are matched against strings only. -/
def checkStrings (trail : Trail) : Compile Unit := do
  let nodes := match ← trail.property with
    | some c => c.nodes
    | none => []
  match nodes.find? fun id => (ctx.catalog.node id).publicType != "String" with
  | some id =>
    throw ((Fault.patternNotOnString (ctx.catalog.node id).qualifiedPath).at trail.fullpath)
  | none => pure ()

mutual

def checkComponent (trail : Trail) : Operand → Compile Findings
  | .variable _ => if trail.site.matchOp?.isSome then pure {} else checkProperty ctx trail
  | .expression cs => checkChildren trail 0 0 cs
  | .array elements =>
    match trail.site.matchOp? with
    | none => throw (Fault.exactMatching.at trail.fullpath)
    | some op =>
      match op with
      | .oneOf | .noneOf => if elements.isEmpty then pure {} else checkProperty ctx trail
      | .all => checkAllElements trail 0 elements
      | .and | .or => checkElements trail 0 elements
      | .elemMatch => pure {}
      | _ => checkProperty ctx trail
  | _ =>
    match trail.site.matchOp? with
    | some .pattern => do
      let findings ← checkProperty ctx trail
      checkStrings ctx trail
      return findings
    | some .all | some .and | some .or | some .elemMatch | some .oneOf | some .noneOf => pure {}
    | _ => checkProperty ctx trail

def checkChildren (trail : Trail) (element index : Nat) :
    List (String × Operand) → Compile Findings
  | [] => pure {}
  | (key, v) :: rest => do
    let first ← checkComponent (trail.child ctx element index key v) v
    return first ++ (← checkChildren trail element (index + 1) rest)

def checkElements (trail : Trail) (element : Nat) : List Operand → Compile Findings
  | [] => pure {}
  | .expression cs :: rest => do
    let first ← checkChildren trail element 0 cs
    return first ++ (← checkElements trail (element + 1) rest)
  | _ :: rest => checkElements trail (element + 1) rest

/-- Checks the elements of `$all`, up to the first literal. -/
def checkAllElements (trail : Trail) (element : Nat) : List Operand → Compile Findings
  | [] => pure {}
  | .simple _ :: _ => checkProperty ctx trail
  | .expression cs :: rest => do
    let first ← checkChildren trail element 0 cs
    return first ++ (← checkAllElements trail (element + 1) rest)
  | _ :: rest => checkAllElements trail (element + 1) rest

end

def validate (root : Trail) (v : Operand) : Compile Findings :=
  checkChildren ctx root 0 0 v.children

end Conduit.Match
