import Conduit.Built
import Conduit.Cast
import Conduit.Json.Nested
import Conduit.Match.Validation

/-!
# Building a match

A match is built into the native query, and its leaves are entered into an index query of the
same shape.  If the index query says the same as the native one, it stands alone; otherwise both
must hold.

A literal is cast for every node that its path may mean.  Where the casts differ, the condition
fans out over them.
-/

namespace Conduit.Match

/-- What building a match does besides giving the query. -/
inductive Step where
  | event (e : Event)
  /-- Enters the keys of a leaf into the index query. -/
  | enter (steps : List IndexStep) (pairs : List (String × Json)) (path : String)
  /-- The index query no longer says all that the native one does. -/
  | incomplete

abbrev Build (α : Type) := Journaled Step α

def lift {α : Type} (x : Compile α) : Build α := x.mapNotes fun events => events.map .event

/-- What a stage is built from: the context and the components stored by reference. -/
structure Builder where
  ctx : Context
  references : List (List Nat)

/-- What the object around a component holds so far. -/
structure Enclosing where
  fields : Fields := []
  replacement : Option Json := none

inductive Caster where
  | stored
  | truth

def single (key : String) (v : Json) : Json := .obj [(key, v)]

namespace Builder

variable (b : Builder)

def isReference (trail : Trail) : Bool := b.references.contains trail.address

def buildKey (trail : Trail) : String :=
  if b.isReference trail then trail.site.key ++ "._id" else trail.site.key

/-- The key that a component is entered under: the whole path, so that entries below
`$elemMatch` name one too. -/
def indexKey (trail : Trail) : String :=
  let path := trail.site.propertyPath
  if b.isReference trail then path ++ "._id" else path

/-! ## Casting and entering -/

/-- A literal, and whether a placeholder stands for it. -/
def rawValue : Operand → Json × Bool
  | .variable name => (.str (Path.placeholder name), true)
  | v => (v.underlying, false)

def rawValues : Operand → List (Json × Bool)
  | .array elements => elements.map rawValue
  | v => [rawValue v]

def castValue (caster : Caster) (type : PropertyType) (path : String) (raw : Json × Bool) :
    Except CompileError Json :=
  if raw.2 then .ok raw.1
  else match caster with
    | .stored => castForQuery type raw.1 path
    | .truth => .ok (.bool raw.1.isTruthy)

def enter (trail : Trail) (pairs : List (String × Json)) : Build Unit := do
  .note (.event (.entered trail.fullpath trail.steps))
  .note (.enter trail.steps pairs trail.fullpath)

def slotKey? (n : Node) : Option String :=
  match n.slot, n.indexed with
  | some slot, true =>
    let key := IndexEntries.slotKey slot
    some (if n.localized then key ++ "." ++ b.ctx.options.currentLocale else key)
  | _, _ => none

def addPair (pairs : List (String × Json)) (key : String) (v : Json) : List (String × Json) :=
  if pairs.any fun p => p.1 == key && p.2.sameAs v then pairs else pairs ++ [(key, v)]

/-- Casts literals for each node.  Nodes with a slot are collected, others are entered at once.
The result holds the casts of each node and the pairs of the slots. -/
def castNodes (trail : Trail) (raw : List (Json × Bool)) (isArray enters : Bool)
    (format : Json → Json) (caster : Caster) :
    List NodeId → List (String × Json) → Build (List (List Json) × List (String × Json))
  | [], slotted => pure ([], slotted)
  | id :: rest, slotted => do
    let n := b.ctx.catalog.node id
    let cast ← Journaled.of (raw.mapM (castValue caster n.type trail.fullpath))
    let slotted ←
      if enters then
        let entry := format (if isArray then .arr cast else cast.headD .null)
        match b.slotKey? n with
        | some key => pure (addPair slotted key entry)
        | none => do
          enter trail.named [(b.indexKey trail.named, entry)]
          pure slotted
      else pure slotted
    let (casts, slotted) ← castNodes trail raw isArray enters format caster rest slotted
    return (cast :: casts, slotted)

/-- Casts the value of a component for every node it may mean, and enters it into the index
query.  The result holds the distinct casts. -/
def castIntoQuery (trail : Trail) (v : Operand) (format : Json → Json) (caster : Caster) :
    Build (List Json) := do
  let raw := rawValues v
  let hasVariables := raw.any Prod.snd
  if hasVariables then .note .incomplete
  let isArray := match v with
    | .array _ => true
    | _ => false
  match ← lift trail.property with
  | none => throw (Fault.unreconciledMatch.at trail.fullpath)
  | some c =>
    if c.nodes.isEmpty then return raw.map Prod.fst
    let enters := b.ctx.usesIndex && !hasVariables
    let (casts, slotted) ← b.castNodes trail raw isArray enters format caster c.nodes []
    let values := Json.distinct casts.flatten
    if !slotted.isEmpty then enter trail.named slotted
    if values.length > raw.length then .note .incomplete
    return values

/-! ## Localized properties -/

def oneOrMany (op : String) : List Json → Json
  | [v] => v
  | vs => single op (.arr vs)

/-- A condition on localized nodes, which keep their values in a list by locale.  None if no node
is localized. -/
def localized (trail : Trail) (values : List Json) (op : String) : Build (Option Json) := do
  let catalog := b.ctx.catalog
  match ← lift trail.property with
  | none => return none
  | some c =>
    if !c.nodes.any fun id => (catalog.node id).localized then return none
    .note .incomplete
    let expression := oneOrMany op values
    let locale := match c.nodes with
      | first :: _ => (catalog.node first).fixedLocale.getD b.ctx.options.currentLocale
      | [] => b.ctx.options.currentLocale
    let path := trail.site.propertyPath
    let localesKey := "locales." ++ path
    let element :=
      single "$elemMatch" (.obj [("value", expression), ("locale", .str locale)])
    match c.nodes with
    | [_] => return some (single localesKey element)
    | nodes =>
      return some (single "$or" (.arr (nodes.map fun id =>
        let condition :=
          if (catalog.node id).localized then (localesKey, element) else (path, expression)
        match (catalog.nodeModel id).type with
        | some type => .obj (Fields.insert [condition] "type" (.str type))
        | none => .obj [condition])))

/-! ## Operators -/

/-- Comparisons and `$exists`.  Casts that differ fan out into an `$or` that stands for the whole
object around; one that is already there takes the further condition into its branches. -/
def buildSimple (trail : Trail) (op : MatchOp) (v : Operand) (around : Enclosing) :
    Build (Option Built) := do
  let caster := if op = .present then .truth else .stored
  let values ← b.castIntoQuery trail v (single op.key) caster
  match values with
  | [w] => return some (.value (single op.key w))
  | values =>
    if !around.fields.isEmpty && around.replacement.isNone then
      throw (Fault.severalTypedProperties.at trail.fullpath)
    let parentKey := b.buildKey trail.parent
    let fanOut := single "$or" (.arr (values.map fun w => single parentKey (single op.key w)))
    match around.replacement with
    | some (.obj fs) =>
      match Fields.get? fs "$or" with
      | some (.arr branches) =>
        if branches.length = values.length then
          let addTo (branch w : Json) : Json := match branch with
            | .obj gs =>
              match (Fields.get? gs parentKey).getD (.obj []) with
              | .obj hs => .obj (Fields.insert gs parentKey (.obj (Fields.insert hs op.key w)))
              | _ => .obj gs
            | other => other
          let merged := List.zipWith addTo branches values
          return some (.replace (.value (.obj (Fields.insert fs "$or" (.arr merged)))))
        else return some (.replace (.value fanOut))
      | _ => return some (.replace (.value fanOut))
    | _ => return some (.replace (.value fanOut))

def buildLeaf (trail : Trail) (op : MatchOp) (v : Operand) : Build (Option Built) := do
  match op with
  | .hasType | .size =>
    .note .incomplete
    return some (.value (single op.key v.underlying))
  | .noneOf =>
    if v.elements.isEmpty then
      .note .incomplete
      return some (.value (single "$nin" (.arr [])))
    let values ← b.castIntoQuery trail v (single "$nin") .stored
    return some (.value (single "$nin" (.arr values)))
  | .oneOf =>
    if v.elements.isEmpty then
      .note .incomplete
      return some (.value (single "$in" (.arr [])))
    let values ← b.castIntoQuery trail v (single "$in") .stored
    match ← b.localized trail.parent values "$in" with
    | some w => return some (.replace (.value w))
    | none => return some (.value (single "$in" (.arr values)))
  | .pattern =>
    match ← b.castIntoQuery trail v id .stored with
    | [] => return some (.value v.underlying)
    | [w] => return some (.value w)
    | _ => throw (Fault.patternCastsDiffer.at trail.fullpath)
  | .all =>
    let values ← b.castIntoQuery trail v (single "$all") .stored
    match ← b.localized trail values "$all" with
    | some w => return some (.replace (.value w))
    | none => return some (.value (single "$all" (.arr values)))
  | .within =>
    let _ ← b.castIntoQuery trail v (single "$geoWithin") .stored
    return some (.value (single "$geoWithin" v.underlying))
  | _ => throw (Fault.unknownMatchValue.at trail.fullpath)

def holdsText (part : List Char) : List Char → Bool
  | [] => part.isEmpty
  | c :: rest => part.isPrefixOf (c :: rest) || holdsText part rest

mutual

/-- The dotted paths of the leaves of a built value, positions included. -/
def leafPaths (path : String) : Json → List String
  | .obj fs => leafPathsFields path fs
  | .arr items => leafPathsItems path 0 items
  | _ => [path]

def leafPathsItems (path : String) (i : Nat) : List Json → List String
  | [] => []
  | v :: rest => leafPaths (Path.child path (toString i)) v ++ leafPathsItems path (i + 1) rest

def leafPathsFields (path : String) : Fields → List String
  | [] => []
  | (key, v) :: rest => leafPaths (Path.child path key) v ++ leafPathsFields path rest

end

/-- The condition on elements around built conditions.  Conditions on localized properties stand
for themselves and cannot be mixed with others. -/
def buildElemMatch (trail : Trail) (conditions : Json) : Build (Option Built) := do
  let paths := leafPaths "" conditions
  let isLocalized (p : String) : Bool :=
    holdsText "locales.".toList p.toList && !holdsText "$elemMatch.locale".toList p.toList
  let count := (paths.filter isLocalized).length
  if count = 0 then return some (.value (single "$elemMatch" conditions))
  let topLevel := (conditions.obj?.getD []).length
  if count < paths.length && topLevel > 1 then throw (Fault.localizedMix.at trail.fullpath)
  return some (.replace (.value conditions))

def addBuilt (around : Enclosing) : Option Built → Enclosing
  | none => around
  | some (.replace inner) => { around with replacement := some inner.unwrap }
  | some (.value (.obj fs)) =>
    match around.replacement with
    | some (.obj current) => { around with replacement := some (.obj (Built.merge current fs)) }
    | _ => { around with fields := Built.merge around.fields fs }
  | some (.value _) => around

def enclosed (around : Enclosing) : Option Built :=
  match around.replacement with
  | some v => some (.replace (.value v))
  | none => if around.fields.isEmpty then none else some (.value (.obj around.fields))

def objectOrEmpty (built : Option Built) : Json :=
  match built with
  | some b => b.unwrap
  | none => .obj []

def buildField (trail : Trail) (built : Option Built) : Build (Option Built) := do
  match built with
  | none => return none
  | some (.replace inner) => return some (.value inner.unwrap)
  | some (.value v) =>
    match ← b.localized trail [v] "$in" with
    | some w => return some (.value w)
    | none => return some (.value (single (b.buildKey trail) v))

mutual

def buildComponent (trail : Trail) (around : Enclosing) : Operand → Build (Option Built)
  | .variable name => do
    .note .incomplete
    let key := match trail.site.matchOp? with
      | some op => op.key
      | none => b.buildKey trail
    return some (.value (single key (.str (Path.placeholder name))))
  | .expression cs => do
    match trail.site.matchOp? with
    | some op =>
      if around.replacement.isSome then throw (Fault.severalTypedProperties.at trail.fullpath)
      match op with
      | .elemMatch =>
        .note .incomplete
        buildElemMatch trail (objectOrEmpty (enclosed (← buildChildren trail 0 0 {} cs)))
      | _ => throw (Fault.unknownMatchValue.at trail.fullpath)
    | none => b.buildField trail (enclosed (← buildChildren trail 0 0 {} cs))
  | .array elements => do
    match trail.site.matchOp? with
    | some op =>
      match op with
      | .and | .or => return some (.value (single op.key (.arr (← buildElements trail 0 elements))))
      | _ =>
        if around.replacement.isSome then throw (Fault.severalTypedProperties.at trail.fullpath)
        if op = .all && elements.any Operand.isExpression then
          .note .incomplete
          return some (.value (single "$all" (.arr (← buildElements trail 0 elements))))
        else b.buildLeaf trail op (.array elements)
    | none => throw (Fault.exactMatching.at trail.fullpath)
  | v => do
    match trail.site.matchOp? with
    | some op =>
      if op.isSimple then b.buildSimple trail op v around
      else
        if around.replacement.isSome then throw (Fault.severalTypedProperties.at trail.fullpath)
        b.buildLeaf trail op v
    | none =>
      let values ← b.castIntoQuery trail v id .stored
      match ← b.localized trail values "$in" with
      | some w => return some (.value w)
      | none => return some (.value (single (b.buildKey trail) (oneOrMany "$in" values)))

def buildChildren (trail : Trail) (element index : Nat) (around : Enclosing) :
    List (String × Operand) → Build Enclosing
  | [] => pure around
  | (key, v) :: rest => do
    let built ← buildComponent (trail.child b.ctx element index key v) around v
    buildChildren trail element (index + 1) (addBuilt around built) rest

def buildElements (trail : Trail) (element : Nat) : List Operand → Build (List Json)
  | [] => pure []
  | .expression cs :: rest => do
    let first := objectOrEmpty (enclosed (← buildChildren trail element 0 {} cs))
    return first :: (← buildElements trail (element + 1) rest)
  | .variable name :: rest => do
    .note .incomplete
    return .str (Path.placeholder name) :: (← buildElements trail (element + 1) rest)
  | v :: rest => do return v.underlying :: (← buildElements trail (element + 1) rest)

end

def buildNatural (root : Trail) (v : Operand) : Build Fields := do
  let around ← b.buildChildren root 0 0 {} v.children
  return ((objectOrEmpty (enclosed around)).obj?).getD []

end Builder

/-! ## The index query -/

/-- The index query under construction, and whether it still says all. -/
structure Indexing where
  entries : IndexEntries
  complete : Bool := true

def runSteps : List Step → Indexing → Compile Indexing
  | [], i => pure i
  | .event e :: rest, i => do
    .note e
    runSteps rest i
  | .incomplete :: rest, i => runSteps rest { i with complete := false }
  | .enter steps pairs path :: rest, i => do
    if pairs.length > 1 then .note (.branched path pairs.length)
    match i.entries.insert steps pairs with
    | (entries, none) => runSteps rest { i with entries }
    | (_, some f) => throw (f.at path)

variable (ctx : Context)

/-- Properties without an index of their own have to be reached through a native index by keys
that the query uses. -/
def checkNativeIndexes (checks : List (String × NodeId)) (query : Json) : Compile Unit := do
  if !ctx.usesIndex || checks.isEmpty then return
  let paths := checks.map fun c => (ctx.catalog.node c.2).path
  let keys := (query.queryKeys []).map fun key =>
    (paths.find? fun p => Path.isBelow p key).getD key
  let covered := ctx.indexTree.covered keys paths
  .note (.matchCoverage covered paths)
  match checks.find? fun c => !covered.contains (ctx.catalog.node c.2).path with
  | some (path, id) => throw ((Fault.matchNotIndexed (ctx.catalog.node id).qualifiedPath).at path)
  | none => pure ()

/-- The query of a match: the native one with the base conditions, the index query, or both. -/
def build (root : Trail) (v : Operand) (findings : Findings) : Compile Json := do
  let built := Builder.buildNatural ⟨ctx, findings.references⟩ root v
  let indexing ← runSteps built.journal { entries := .new ctx.baseFind }
  let natural ← Journaled.of built.result
  let natural := ctx.baseFind.foldl (fun fs f => Fields.insertNew fs f.1 f.2) natural
  let query ← match indexing.entries.finish with
    | none => pure (Json.obj natural)
    | some index => do
      .note (.indexed ctx.position index indexing.complete)
      if index.hasBranches || index.slotted || index.pruned || !indexing.complete then
        pure (single "$and" (.arr [.obj natural, .obj index.query]))
      else pure (.obj index.query)
  checkNativeIndexes ctx findings.checks query
  return query

end Conduit.Match
