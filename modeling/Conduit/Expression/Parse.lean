import Conduit.Cast
import Conduit.Expression.Operator
import Conduit.Stage.Context

/-!
# Reading output expressions

An expression is an object of output fields, or of one operator.  A field is included, computed
from a property, or holds a further expression.
-/

namespace Conduit.Expression

def isLeftOut : Json → Bool
  | .null => true
  | .bool b => !b
  | v => v.integer? == some 0

/-- An expression holds fields or a single operator.  At the top, an `_id` that is switched off
does not count as a field. -/
def checkFieldsOrOperator (kind : StageKind) (fs : Fields) (topLevel : Bool) (path : String) :
    Except CompileError Unit := do
  let operators := (fs.filter fun f => Path.isOperator f.1).length
  let fields := (fs.filter fun f =>
    !Path.isOperator f.1 && (!topLevel || f.1 != "_id" || f.2.isTruthy)).length
  if operators + fields = 0 then throw ((Fault.noOutputField kind.key).at path)
  if operators > 1 ∨ (operators = 1 ∧ fields > 0) then throw (Fault.operatorsMixed.at path)

def numberOfText? (s : String) : Option Binary64 :=
  match Quantity.read? (Text.trim s) with
  | some (.finite x) => some x
  | _ => none

def integerPart? : Json → Option Int
  | .int n => some (clampInt64 n)
  | .double x => some (clampInt64 x.truncate)
  | .str s =>
    match readInt64? (Text.trim s) with
    | some n => some n
    | none => (numberOfText? s).map fun x => clampInt64 x.truncate
  | _ => none

/-- A literal of the type that an operator names, and what messages call it. -/
def literalAs (op : ExprOp) (v : Json) : Option Json × String :=
  match op with
  | .string => (if v.isStr then some v else none, "a string")
  | .number =>
    (match v with
      | .int _ | .double _ => some v
      | .str s => (numberOfText? s).map .double
      | _ => none, "a numeric")
  | .integer => ((integerPart? v).map .int, "an integer")
  | .boolean =>
    (match v with
      | .bool _ => some v
      | .str "true" => some (.bool true)
      | .str "false" => some (.bool false)
      | _ => none, "a boolean")
  | .date => (Cast.toDate? v, "a date")
  | .objectId => (Cast.toObjectId? v, "an ObjectId")
  | .array => (if v.isArr then some v else none, "an array")
  | .object => (if v.isObj then some v else none, "an object")
  | _ => (some v, "")

def literal (op : ExprOp) (path : String) (v : Json) : Except CompileError Operand :=
  match literalAs op v with
  | (some w, _) => .ok (.simple w)
  | (none, what) => .error ((Fault.literalExpected op.key what).at path)

/-- What to expand: everything, some paths, or a reference with arguments. -/
def expandArgument (path : String) (v : Json) : Except CompileError Operand :=
  match v with
  | .arr items =>
    if items.all Rule.isPropertyPath then .ok (.simple v) else .error (Fault.expandPaths.at path)
  | .obj _ => .ok (.raw v)
  | v => if v.isInclusion then .ok (.simple v) else .error (Fault.expandValue.at path)

/-- A string as an argument: a property, or a literal.  A leading dollar sign would be read as a
reference, so it is protected. -/
def stringArgument (path s : String) : Except CompileError Operand :=
  if s.startsWith "$$" then .error (Fault.aggregationVariable.at path)
  else if s.startsWith "$" then .ok (.simple (.obj [("$literal", .str s)]))
  else if Path.isFieldPath s then .ok (.property s)
  else .ok (.simple (.str s))

variable (ctx : Context)

def scalarArgument (path : String) (v : Json) : Except CompileError Operand :=
  match ctx.placeholder? v, v with
  | some name, _ => .ok (.variable name)
  | none, .str s => stringArgument path s
  | none, v => .ok (.simple v)

def dateArgument (path : String) (v : Json) : Except CompileError Operand :=
  match v.str?.bind Instant.read? with
  | some t => .ok (.simple t.toJson)
  | none => scalarArgument ctx path v

def operatorAt (site : Site) : Except CompileError ExprOp :=
  match ExprOp.ofKey? site.key with
  | some op =>
    if op = .expand ∧ ctx.kind ≠ .project ∧ ctx.kind ≠ .addFields then
      .error ((Fault.unknownOperator site.key).at site.fullpath)
    else .ok op
  | none => .error ((Fault.unknownOperator site.key).at site.fullpath)

def isWrapped (op : ExprOp) (v : Json) : Bool :=
  op.wrapsSingle && !v.isArr && (ctx.placeholder? v).isNone

def checkOperator (site : Site) (v : Json) : Except CompileError ExprOp := do
  let op ← operatorAt ctx site
  let v := if isWrapped ctx op v then .arr [v] else v
  Rule.checkAll op.rules site site.key v (ctx.placeholder? v).isSome ctx.limits
  return op

def checkFieldName (site : Site) : Except CompileError Unit :=
  if Path.isFieldName site.key then .ok () else .error (Fault.outputFieldName.at site.fullpath)

def scalarField (site : Site) (v : Json) : Except CompileError Operand :=
  let path := site.fullpath
  match ctx.placeholder? v, v with
  | some name, _ => .ok (.variable name)
  | none, .str s =>
    if s.startsWith "$$" then .error (Fault.aggregationVariable.at path)
    else if Path.isFieldPath s then .ok (.property s)
    else .error (Fault.outputFieldValue.at path)
  | none, v =>
    if ctx.kind = .group then
      if v.isNull then .ok (.simple .null) else .error (Fault.groupLiteral.at path)
    else if v.isInclusion then .ok (.simple v)
    else .error (Fault.outputFieldValue.at path)

def dateTextPart (site : Site) (position : Nat) (v : Json) : Except CompileError Operand :=
  match ctx.placeholder? v, v with
  | some name, _ => .ok (.variable name)
  | none, .str s => .ok (.simple (.str s))
  | none, _ =>
    let what := if position = 0 then "format" else "timezone"
    .error ((Fault.dateToStringPart what).at site.fullpath)

mutual

def parseFields (site : Site) : Fields → Except CompileError (List (String × Operand))
  | [] => .ok []
  | (key, v) :: rest => do
    if !Path.isOperator key && isLeftOut v && ctx.kind != .group then parseFields site rest
    else
      let first ← if Path.isOperator key then parseOperator (site.child key) v
        else parseField (site.child key) v
      return (key, first) :: (← parseFields site rest)

def parseField (site : Site) : Json → Except CompileError Operand
  | .obj fs => do
    checkFieldName site
    let _ ← checkExpression ctx.limits site (.obj fs)
    checkFieldsOrOperator ctx.kind fs false site.fullpath
    return .expression (← parseFields site fs)
  | .arr _ => do
    checkFieldName site
    throw (Fault.arrayUnsupported.at site.fullpath)
  | v => do
    checkFieldName site
    scalarField ctx site v

def parseOperator (site : Site) : Json → Except CompileError Operand
  | .obj fs => do
    let op ← checkOperator ctx site (.obj fs)
    match op.shape with
    | .literal => literal op site.fullpath (.obj fs)
    | .expand => expandArgument site.fullpath (.obj fs)
    | .dateToString => return .array []
    | _ =>
      if op.shape = .arrayOfExpressions ∧ !op.wrapsSingle then
        throw ((Fault.arrayRequired site.key).at site.fullpath)
      let _ ← checkExpression ctx.limits site (.obj fs)
      checkFieldsOrOperator ctx.kind fs false site.fullpath
      let e := Operand.expression (← parseFields site fs)
      return if op.wrapsSingle then .array [e] else e
  | .arr items => do
    let op ← checkOperator ctx site (.arr items)
    match op.shape with
    | .literal => literal op site.fullpath (.arr items)
    | .expand => expandArgument site.fullpath (.arr items)
    | .dateToString => return .array (← parseDateParts site 0 items)
    | .anyExpression | .arrayOfExpressions => return .array (← parseItems site items)
    | .simpleOrExpression | .dateOrSimple => throw (Fault.arrayUnsupported.at site.fullpath)
  | v => do
    let op ← checkOperator ctx site v
    match ctx.placeholder? v with
    | some name => return .variable name
    | none =>
      match op.shape with
      | .literal => literal op site.fullpath v
      | .expand => expandArgument site.fullpath v
      | .dateToString => return .array []
      | .dateOrSimple => dateArgument ctx site.fullpath v
      | .simpleOrExpression | .anyExpression => scalarArgument ctx site.fullpath v
      | .arrayOfExpressions =>
        if op.wrapsSingle then return .array [← scalarArgument ctx site.fullpath v]
        else throw ((Fault.arrayRequired site.key).at site.fullpath)

def parseItems (site : Site) : List Json → Except CompileError (List Operand)
  | [] => .ok []
  | .arr inner :: rest => do
    let first := Operand.array (← parseItems site inner)
    return first :: (← parseItems site rest)
  | .obj fs :: rest => do
    let _ ← checkExpression ctx.limits site (.obj fs)
    checkFieldsOrOperator ctx.kind fs false site.fullpath
    let first := Operand.expression (← parseFields site fs)
    return first :: (← parseItems site rest)
  | v :: rest => do
    let first ← scalarArgument ctx site.fullpath v
    return first :: (← parseItems site rest)

def parseDateParts (site : Site) (position : Nat) : List Json → Except CompileError (List Operand)
  | [] => .ok []
  | .obj fs :: rest => do
    let first ←
      if position = 1 then do
        let _ ← checkExpression ctx.limits site (.obj fs)
        checkFieldsOrOperator ctx.kind fs false site.fullpath
        pure (Operand.expression (← parseFields site fs))
      else dateTextPart ctx site position (.obj fs)
    return first :: (← parseDateParts site (position + 1) rest)
  | .arr items :: rest => do
    let first ←
      if position = 1 then throw (Fault.arrayUnsupported.at site.fullpath)
      else dateTextPart ctx site position (.arr items)
    return first :: (← parseDateParts site (position + 1) rest)
  | v :: rest => do
    let first ←
      if position = 1 then dateArgument ctx site.fullpath v else dateTextPart ctx site position v
    return first :: (← parseDateParts site (position + 1) rest)

end

def parseArgument (site : Site) : Json → Except CompileError Operand
  | .obj fs => do
    let _ ← checkExpression ctx.limits site (.obj fs)
    checkFieldsOrOperator ctx.kind fs false site.fullpath
    return .expression (← parseFields ctx site fs)
  | .arr _ => throw (Fault.arrayUnsupported.at site.fullpath)
  | v => scalarArgument ctx site.fullpath v

end Conduit.Expression
