import Conduit.Match.Operator
import Conduit.Stage.Context

/-!
# Narrowing

A match narrows what may be left after it.  Conditions on `object` and `type` narrow the models.
Conditions on properties resolve their paths to nodes; a condition on the discriminator of a set
leaves only the documents with a fitting name.  Conditions that must all hold intersect what is
left, alternatives unite it.
-/

namespace Conduit

namespace Match

/-! ## Names -/

inductive NameTest where
  | any
  /-- A comparison; none stands for a missing name. -/
  | compare (op : CompareOp) (expected : Option String)
  | pattern (p : Pattern)

namespace NameTest

def ofJson? (v : Json) (op : CompareOp) (allowNull : Bool) : Option NameTest :=
  match Pattern.ofJson? v with
  | some p => some (.pattern p)
  | none =>
    match v with
    | .str s => some (.compare op (some s))
    | .null => if allowNull then some (.compare op none) else none
    | _ => none

def accepts : NameTest → Option String → Bool
  | .any, _ => true
  | .compare op (some expected), some name => op.accepts (Ord.compare name expected)
  | .compare op none, none => op.acceptsMissing true
  | .compare op _, _ => op.acceptsMissing false
  | .pattern p, name => name.any p.isMatch

def isNull : NameTest → Bool
  | .compare _ none => true
  | _ => false

end NameTest

/-- One test, or several none of which may pass. -/
inductive NameFilter where
  | test (t : NameTest)
  | exclude (ts : List NameTest)

namespace NameFilter

def accepts : NameFilter → Option String → Bool
  | .test t, name => t.accepts name
  | .exclude ts, name => !ts.any fun t => t.accepts name

def isNull : NameFilter → Bool
  | .test t => t.isNull
  | .exclude _ => false

end NameFilter

/-! ## Models -/

inductive Selector where
  | object
  | type
deriving DecidableEq

namespace Selector

def name : Selector → String
  | object => "object"
  | type => "type"

def ofPath? (path : String) : Option Selector :=
  if path = "object" then some object else if path = "type" then some type else none

end Selector

variable (ctx : Context)

def nameTest (site : Site) (field : Selector) (v : Json) (op : CompareOp) :
    Except CompileError NameTest :=
  let allowNull := field == .type
  match NameTest.ofJson? v op allowNull with
  | some t => .ok t
  | none =>
    let expected := if allowNull then "a string or regexp or null" else "a string or regexp"
    .error ((Fault.nameExpected field.name expected).at site.fullpath)

def modelsMatching (site : Site) (field : Selector) (filter : NameFilter) (models : List ModelId) :
    Except CompileError (List ModelId) :=
  match field with
  | .object => do
    let found := models.filter fun m => filter.accepts (some (ctx.catalog.model m).object)
    if found.isEmpty && ctx.strict then throw (Fault.objectNotCandidate.at site.fullpath)
    return found
  | .type => do
    let typed := models.filter fun m => (ctx.catalog.model m).isTyped
    let found := typed.filter fun m => filter.accepts (ctx.catalog.model m).type
    if ctx.strict then
      if typed.isEmpty && filter.isNull then throw (Fault.nullTypeWithoutTypes.at site.fullpath)
      if found.isEmpty then throw (Fault.typeNotCandidate.at site.fullpath)
    return found

def modelsOneOf (site : Site) (field : Selector) (models : List ModelId) :
    List Operand → Except CompileError (List (List ModelId))
  | [] => .ok []
  | .simple v :: rest => do
    let t ← nameTest site field v .eq
    let found ← modelsMatching ctx site field (.test t) models
    return found :: (← modelsOneOf site field models rest)
  | _ :: rest => do return models :: (← modelsOneOf site field models rest)

/-- The tests of the elements of a list, or none if one of them is open. -/
def exclusions (site : Site) (field : Selector) :
    List Operand → Except CompileError (Option (List NameTest))
  | [] => .ok (some [])
  | .simple v :: rest => do
    let t ← nameTest site field v .eq
    return (← exclusions site field rest).map (t :: ·)
  | _ :: _ => .ok none

def leafModels (site : Site) (field : Selector) (op : MatchOp) (v : Operand)
    (models : List ModelId) : Except CompileError (List ModelId) :=
  match op, v with
  | .oneOf, .array elements => unionModels <$> modelsOneOf ctx site field models elements
  | .noneOf, .array elements => do
    match ← exclusions site field elements with
    | some ts => modelsMatching ctx site field (.exclude ts) models
    | none => return models
  | op, .simple v => do
    let t ← nameTest site field v (op.compareOp?.getD .eq)
    modelsMatching ctx site field (.test t) models
  | op, _ => throw ((Fault.objectNotSimple op.key).at site.fullpath)

mutual

/-- The models that one condition leaves. -/
def childModels (site : Site) (models : List ModelId) :
    Operand → Except CompileError (List ModelId)
  | .variable _ => .ok models
  | .expression cs =>
    match site.matchOp? with
    | some _ => .ok models
    | none =>
      match Selector.ofPath? site.propertyPath with
      | some _ => intersectModels <$> childrenModels site models cs
      | none => .ok models
  | .array elements =>
    match site.matchOp? with
    | some op =>
      match op with
      | .and | .all => intersectModels <$> elementsModels site models elements
      | .or => unionModels <$> elementsModels site models elements
      | .oneOf | .noneOf =>
        match Selector.ofPath? site.propertyPath with
        | some field => leafModels ctx site field op (.array elements) models
        | none => .ok models
      | _ => .ok models
    | none =>
      match Selector.ofPath? site.propertyPath with
      | some field => .error ((Fault.discriminatorNotSimple field.name).at site.fullpath)
      | none => .ok models
  | v =>
    match Selector.ofPath? site.propertyPath with
    | none => .ok models
    | some field =>
      match site.matchOp? with
      | some op =>
        match op with
        | .hasType | .present | .size | .within | .elemMatch => .ok models
        | op => leafModels ctx site field op v models
      | none => leafModels ctx site field .eq v models

def childrenModels (site : Site) (models : List ModelId) :
    List (String × Operand) → Except CompileError (List (List ModelId))
  | [] => .ok []
  | (key, v) :: rest => do
    let first ← childModels (site.child key) models v
    return first :: (← childrenModels site models rest)

def elementsModels (site : Site) (models : List ModelId) :
    List Operand → Except CompileError (List (List ModelId))
  | [] => .ok []
  | .expression cs :: rest => do
    let first := intersectModels (← childrenModels site models cs)
    return first :: (← elementsModels site models rest)
  | _ :: rest => do return models :: (← elementsModels site models rest)

end

def expressionModels (site : Site) (children : List (String × Operand)) (models : List ModelId) :
    Except CompileError (List ModelId) :=
  intersectModels <$> childrenModels ctx site models children

def componentModels (site : Site) (v : Operand) (models : List ModelId) :
    Except CompileError (List ModelId) :=
  if models.isEmpty then .ok []
  else match v with
    | .expression cs => expressionModels ctx site cs models
    | .array elements => unionModels <$> elementsModels ctx site models elements
    | _ => .ok models

/-! ## Properties -/

/-- What a condition demands of the discriminator of a set. -/
inductive Demand where
  | compare (op : CompareOp) (v : Json)
  | exclude (vs : List Json)
  | keep

namespace Demand

def filter? : Demand → Option NameFilter
  | keep => some (.test .any)
  | compare op v => (NameTest.ofJson? v op false).map .test
  | exclude vs => (vs.mapM fun v => NameTest.ofJson? v .eq false).map .exclude

def shownValue (v : Json) : String :=
  match Pattern.ofJson? v, v with
  | some p, _ => "/" ++ p.body ++ "/" ++ p.options
  | none, .str s => s
  | none, v => v.text

def shown (path : String) : Demand → String
  | keep => path
  | compare _ v => shownValue v
  | exclude vs => ",".intercalate (vs.map shownValue)

end Demand

/-- Whether a node may be left by a demand, and whether it lives in a set. -/
def demandAllows (site : Site) (properties : List Candidate) (demand : Demand) (id : NodeId) :
    Except CompileError Bool :=
  match ctx.catalog.discriminatorKey id with
  | none => .ok true
  | some key =>
    if (ctx.catalog.node id).name = key then
      match demand.filter? with
      | some filter => .ok (filter.accepts (ctx.catalog.documentName id))
      | none => .error (Fault.setNameExpected.at site.fullpath)
    else .ok (ctx.catalog.discriminatorAllows properties id)

/-- Resolves the property of a component and narrows it by a demand.  Where nothing changes, the
list stays as it is. -/
def resolveProperty (site : Site) (models : List ModelId) (properties : List Candidate)
    (demand : Demand) : Compile (List Candidate) := do
  let path := site.propertyPath
  let existing := Candidate.find? properties path
  let candidates := match existing with
    | some c => c.nodes
    | none => ctx.catalog.gatherNodes models path
  let found ← Journaled.of (candidates.filterM (demandAllows ctx site properties demand))
  let hasSets := candidates.any fun id => (ctx.catalog.discriminatorKey id).isSome
  let unchanged := !hasSets || found.length == candidates.length
  let resolved := if unchanged then candidates else found
  if resolved.isEmpty && ctx.strict then
    throw ((Fault.noMatchCandidates (demand.shown path) ctx.position).at site.fullpath)
  if existing.isSome && unchanged then return properties
  .note (.narrowed path resolved.length)
  return properties.filter (fun p => p.path != path) ++
    [⟨path, resolved, existing.bind Candidate.isArray⟩]

def resolveEach (site : Site) (models : List ModelId) (properties : List Candidate) :
    List Operand → Compile (List (List Candidate))
  | [] => pure []
  | v :: rest => do
    let demand := match v with
      | .simple v => .compare .eq v
      | _ => .keep
    let first ← resolveProperty ctx site models properties demand
    return first :: (← resolveEach site models properties rest)

/-- The literals of a list, or none if one of them is open. -/
def literals? (elements : List Operand) : Option (List Json) :=
  elements.mapM fun
    | .simple v => some v
    | _ => none

def leafProperties (site : Site) (models : List ModelId) (properties : List Candidate)
    (op : MatchOp) (v : Operand) : Compile (List Candidate) :=
  match op, v with
  | .oneOf, .array [] | .noneOf, .array [] => pure properties
  | .oneOf, .array elements => do
    Journaled.of (Candidate.mergeUnion (← resolveEach ctx site models properties elements))
  | .noneOf, .array elements =>
    resolveProperty ctx site models properties
      (match literals? elements with
      | some vs => .exclude vs
      | none => .keep)
  | op, .simple v =>
    resolveProperty ctx site models properties
      (match op.compareOp?, op with
      | some c, _ => .compare c v
      | none, .pattern => .compare .eq v
      | none, _ => .keep)
  | op, _ => throw ((Fault.propertyNotSimple op.key).at site.fullpath)

/-- What messages call a condition on a property, apart from inside `$elemMatch`. -/
def matchLabel : String := "$match type property"

/-- What messages call a condition inside `$elemMatch`. -/
def elementLabel : String := "$elemMatch property"

mutual

/-- The properties that one condition leaves. -/
def childProperties (models : List ModelId) (label : String) (site : Site)
    (properties : List Candidate) : Operand → Compile (List Candidate)
  | .variable _ => resolveProperty ctx site models properties .keep
  | .expression cs =>
    match site.matchOp? with
    | some .elemMatch => do
      Journaled.of (Candidate.mergeInter
        (← childrenProperties models elementLabel site properties cs))
    | some op => leafProperties ctx site models properties op (.expression cs)
    | none => do
      Journaled.of (Candidate.mergeInter (← childrenProperties models label site properties cs))
  | .array elements =>
    match site.matchOp? with
    | some op =>
      match op with
      | .and => do
        Journaled.of (Candidate.mergeInter
          (← elementsProperties models false site properties elements))
      | .all => do
        Journaled.of (Candidate.mergeInter
          (← elementsProperties models true site properties elements))
      | .or => do
        Journaled.of (Candidate.mergeUnion
          (← elementsProperties models false site properties elements))
      | .elemMatch => pure properties
      | op => leafProperties ctx site models properties op (.array elements)
    | none => throw ((Fault.labelNotSimple label).at site.fullpath)
  | .simple v =>
    match site.matchOp? with
    | some op =>
      match op with
      | .and | .or | .all | .oneOf | .noneOf => throw ((Fault.notAnArray op.key).at site.fullpath)
      | .elemMatch => pure properties
      | op => leafProperties ctx site models properties op (.simple v)
    | none => resolveProperty ctx site models properties (.compare .eq v)
  | _ => throw ((Fault.labelNotSimple label).at site.fullpath)

def childrenProperties (models : List ModelId) (label : String) (site : Site)
    (properties : List Candidate) : List (String × Operand) → Compile (List (List Candidate))
  | [] => pure []
  | (key, v) :: rest => do
    let first ← childProperties models label (site.child key) properties v
    return first :: (← childrenProperties models label site properties rest)

/-- The properties that each element of a list leaves; literals count only inside `$all`. -/
def elementsProperties (models : List ModelId) (literals : Bool) (site : Site)
    (properties : List Candidate) : List Operand → Compile (List (List Candidate))
  | [] => pure []
  | .expression cs :: rest => do
    let first ← Journaled.of (Candidate.mergeInter
      (← childrenProperties models matchLabel site properties cs))
    return first :: (← elementsProperties models literals site properties rest)
  | .simple v :: rest => do
    let first ←
      if literals then resolveProperty ctx site models properties (.compare .eq v)
      else pure properties
    return first :: (← elementsProperties models literals site properties rest)
  | _ :: rest => do
    return properties :: (← elementsProperties models literals site properties rest)

end

def componentProperties (site : Site) (models : List ModelId) (v : Operand)
    (properties : List Candidate) : Compile (List Candidate) :=
  match v with
  | .expression cs => do
    Journaled.of (Candidate.mergeInter
      (← childrenProperties ctx models matchLabel site properties cs))
  | .array elements => do
    Journaled.of (Candidate.mergeUnion
      (← elementsProperties ctx models false site properties elements))
  | _ => pure properties

end Match

end Conduit
