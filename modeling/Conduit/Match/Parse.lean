import Conduit.Json.Number
import Conduit.Match.Operator
import Conduit.Stage.Context

/-!
# Reading a match

A match is an object of conditions.  A field is compared with a literal or meets an object of
operators; logical operators hold further objects of conditions.
-/

namespace Conduit.Match

variable (ctx : Context)

def simpleOrVariable (v : Json) : Operand :=
  match ctx.placeholder? v with
  | some name => .variable name
  | none => .simple v

def isPosition : Json → Bool
  | .arr [lng, lat] =>
    let within (v : Json) (bound : Int) : Bool :=
      v.double?.any fun x => Binary64.scale (-bound) ≤ x.scaled && x.scaled ≤ Binary64.scale bound
    within lng 180 && within lat 90
  | _ => false

def earthRadius : Option Binary64 := Binary64.ofDecimal false 63781 (-1)

def radius? : Json → Option Quantity
  | .str s => Quantity.read? (Text.trim s)
  | v => v.double?.map .finite

/-- A radius in radians; none where it is infinite. -/
def radians (x : Binary64) : Json := .ofDouble? (earthRadius.bind x.div?)

/-- A circle with its radius in radians. -/
def circle (path : String) (v : Json) : Except CompileError Json := do
  let center := v.field? "$center"
  if !center.any isPosition then throw (Fault.centerExpected.at path)
  let sphere (radius : Json) : Json := .obj [("$centerSphere", .arr [center.getD .null, radius])]
  match (v.field? "$radius").bind radius? with
  | some (.finite x) =>
    if 0 ≤ x.scaled then return sphere (radians x) else throw (Fault.radiusExpected.at path)
  | some (.infinite false) => return sphere .null
  | _ => throw (Fault.radiusExpected.at path)

/-- The elements of a value list.  Patterns among them are checked. -/
def listElements (site : Site) : List Json → Except CompileError (List Operand)
  | [] => .ok []
  | v :: rest => do
    let first ← match v with
      | .obj [("$regex", literal)] => do
        let p ← ctx.patterns.validate literal ctx.limits site.fullpath
        pure (Operand.simple p.toJson)
      | v => match ctx.placeholder? v with
        | some name => pure (.variable name)
        | none => do
          Rule.checkAll [.primitive] site site.key v false ctx.limits
          pure (.simple v)
    return first :: (← listElements site rest)

def leafOperand (site : Site) (op : MatchOp) (v : Json) : Except CompileError Operand := do
  let path := site.fullpath
  match op with
  | .hasType =>
    if v.str?.any MatchOp.typeAliases.contains then return .simple v
    else throw ((Fault.typeAliasExpected site.key (",".intercalate MatchOp.typeAliases)).at path)
  | .present =>
    if v.bool?.isSome then return .simple v else throw ((Fault.booleanExpected site.key).at path)
  | .oneOf | .noneOf => return .array (← listElements ctx site (v.arr?.getD []))
  | .pattern => return .simple (← ctx.patterns.validate v ctx.limits path).toJson
  | .size =>
    if v.integer?.any fun n => 0 ≤ n then return .simple v else throw (Fault.sizeExpected.at path)
  | .within => return .simple (← circle path v)
  | _ => return .simple v

/-- The elements of `$all` are all literals or all objects. -/
def checkUnmixed (path : String) (elements : List Operand) : Except CompileError Unit :=
  let isSimple : Operand → Bool
    | .simple _ => true
    | _ => false
  if elements.any isSimple && elements.any Operand.isExpression then
    throw (Fault.allMixed.at path)
  else pure ()

def checkField (site : Site) : Except CompileError Unit :=
  if Path.property site.key = site.key ∧ Path.isFieldPath site.key then .ok ()
  else .error ((Fault.fieldNotProperty site.key).at site.fullpath)

/-- Whether an operator is known, allowed, and in order with its value and place. -/
def checkOperator (site : Site) (v : Json) : Except CompileError MatchOp := do
  let some op := MatchOp.ofKey? site.key
    | throw ((Fault.unknownOperator site.key).at site.fullpath)
  if op.isRestricted && !ctx.options.allowsOperator site.key then
    throw ((Fault.restrictedOperator site.key).at site.fullpath)
  Rule.checkAll op.rules site site.key v (ctx.placeholder? v).isSome ctx.limits
  return op

mutual

def parseExpression (site : Site) : Json → Except CompileError Operand
  | .obj fs => do
    let _ ← checkExpression ctx.limits site (.obj fs)
    return .expression (← parseFields site fs)
  | v => (checkExpression ctx.limits site v).map fun _ => .expression []

def parseFields (site : Site) : Fields → Except CompileError (List (String × Operand))
  | [] => .ok []
  | (key, v) :: rest => do
    let first ← if Path.isOperator key then parseOperator (site.child key) v
      else parseField (site.child key) v
    return (key, first) :: (← parseFields site rest)

def parseField (site : Site) : Json → Except CompileError Operand
  | .arr _ => do
    checkField site
    throw (Fault.exactMatching.at site.fullpath)
  | .obj fs => do
    checkField site
    if fs.any fun f => !Path.isOperator f.1 then throw (Fault.exactMatching.at site.fullpath)
    let _ ← checkExpression ctx.limits site (.obj fs)
    return .expression (← parseFields site fs)
  | v => do
    checkField site
    return simpleOrVariable ctx v

def parseOperator (site : Site) : Json → Except CompileError Operand
  | .arr items => do
    let op ← checkOperator ctx site (.arr items)
    match op with
    | .and | .or => return .array (← parseConditions site items)
    | .all =>
      if Limits.exceeds ctx.limits.allElements items.length then
        throw (Fault.allTooLong.at site.fullpath)
      let elements ← parseAllElements site items
      checkUnmixed site.fullpath elements
      return .array elements
    | .elemMatch => (checkExpression ctx.limits site (.arr items)).map fun _ => .expression []
    | op => leafOperand ctx site op (.arr items)
  | .obj fs => do
    let op ← checkOperator ctx site (.obj fs)
    match op with
    | .elemMatch =>
      let _ ← checkExpression ctx.limits site (.obj fs)
      return .expression (← parseFields site fs)
    | .all => throw (Fault.allNotArray.at site.fullpath)
    | .and | .or => return .array []
    | op => leafOperand ctx site op (.obj fs)
  | v => do
    let op ← checkOperator ctx site v
    match ctx.placeholder? v with
    | some name => return .variable name
    | none =>
      match op with
      | .all => throw (Fault.allNotArray.at site.fullpath)
      | .elemMatch => (checkExpression ctx.limits site v).map fun _ => .expression []
      | .and | .or => return .array []
      | op => leafOperand ctx site op v

def parseConditions (site : Site) : List Json → Except CompileError (List Operand)
  | [] => .ok []
  | v :: rest => do
    let first ← match ctx.placeholder? v with
      | some name => pure (.variable name)
      | none => parseExpression site v
    return first :: (← parseConditions site rest)

/-- The elements of `$all`: literals, or objects that hold one `$elemMatch` each. -/
def parseAllElements (site : Site) : List Json → Except CompileError (List Operand)
  | [] => .ok []
  | .arr _ :: _ => throw (Fault.allHoldsArray.at site.fullpath)
  | .obj fs :: rest => do
    let first ← parseExpression site (.obj fs)
    if Fields.keys fs ≠ ["$elemMatch"] then throw (Fault.allNotElemMatch.at site.fullpath)
    return first :: (← parseAllElements site rest)
  | v :: rest => do
    let first := simpleOrVariable ctx v
    return first :: (← parseAllElements site rest)

end

def parse (v : Json) : Except CompileError Operand := do
  let fs ← stageObject .match v
  parseExpression ctx (.root StageKind.match.key) (.obj fs)

end Conduit.Match
