import Conduit.Expression.Operator
import Conduit.Stage.Context

/-!
# What expressions produce

The type of a literal as it is written, and the node that an operator produces from the nodes of
its inputs.  Strict pipelines refuse inputs of the wrong type; sums and differences of dates are
always checked.
-/

namespace Conduit.Expression

def unknownNode : ProjectedNode := (ProjectedNode.named "").typed .unknown

def scalarNode (type : PropertyType) : ProjectedNode :=
  ((ProjectedNode.named "").typed type).withArray (some false)

/-- The type of a literal.  An array has the type of its first element. -/
def naturalType : Json → PropertyType
  | .null => .unknown
  | .bool _ => .boolean
  | .int _ | .double _ => .number
  | .str _ => .string
  | .arr [] => .unknown
  | .arr (v :: _) => naturalType v
  | .obj [(key, v)] =>
    if key = "$date" then .date
    else if key = "$oid" then .objectId
    else if key = "$literal" then naturalType v
    else .document
  | .obj _ => .document

def unprotected : Json → Json
  | .obj [(key, v)] => if key = "$literal" then v else .obj [(key, v)]
  | v => v

def literalNode (v : Json) : ProjectedNode :=
  ((ProjectedNode.named "").typed (naturalType (unprotected v))).withArray
    (some (unprotected v).isArr)

def commonType : List PropertyType → PropertyType
  | [] => .unknown
  | t :: rest => if rest.all (· = t) then t else .unknown

variable (ctx : Context)

def sharedType (nodes : List ProjectedNode) : PropertyType :=
  commonType (nodes.map fun n => n.type ctx.catalog)

def mergedNode (nodes : List ProjectedNode) : ProjectedNode :=
  ((ProjectedNode.named "").typed (sharedType ctx nodes)).withArray
    (ProjectedNode.agreedArray (nodes.map fun n => n.isArray ctx.catalog))

def arrayNode (nodes : List ProjectedNode) : ProjectedNode :=
  ((ProjectedNode.named "").typed (sharedType ctx nodes)).withArray (some true)

/-! ## Demands on inputs -/

/-- Strict pipelines demand inputs of a type, as far as their type is known. -/
def expectType (key path : String) (type : PropertyType) (inputs : List ProjectedNode) :
    Except CompileError Unit :=
  let odd := (inputs.map fun n => n.type ctx.catalog).find? fun t => !t.isVague && t != type
  match odd with
  | some t =>
    if ctx.strict then .error ((Fault.inputType key type.name t.name).at path) else .ok ()
  | none => .ok ()

def expectArrays (key path : String) (inputs : List ProjectedNode) : Except CompileError Unit :=
  if ctx.strict && inputs.any fun n => n.isArray ctx.catalog == some false then
    .error ((Fault.inputNotArray key).at path)
  else .ok ()

def expectSingle (key path : String) (inputs : List ProjectedNode) : Except CompileError Unit :=
  if ctx.strict && inputs.any fun n => n.isArray ctx.catalog == some true then
    .error ((Fault.inputIsArray key).at path)
  else .ok ()

/-- A sum: of numbers, or of a date and numbers. -/
def sumType (path : String) (types : List PropertyType) : Except CompileError PropertyType := do
  let dates := types.countP (· = .date)
  if dates > 1 then throw (Fault.severalDates.at path)
  match types.find? fun t => !t.isVague && t != .number && t != .date with
  | some t => throw ((Fault.addType t.name).at path)
  | none => return if dates = 1 then .date else .number

/-- A difference: of numbers, of dates, or of a date and a number. -/
def differenceType (path : String) (left right : PropertyType) :
    Except CompileError PropertyType :=
  if left = right ∧ (left = .date ∨ left = .number) then .ok .number
  else if left = .date ∧ (right = .number ∨ right.isVague) then .ok .date
  else if left.isVague ∨ right.isVague then .ok .number
  else .error ((Fault.subtractTypes left.name right.name).at path)

/-! ## Outputs -/

/-- The node that an operator produces.  `inputs` are the nodes of its arguments, none for a
placeholder, and `whole` is the node of its value. -/
def operatorOutput (op : ExprOp) (path : String) (inputs : List ProjectedNode)
    (whole : ProjectedNode) : Except CompileError ProjectedNode := do
  let key := op.key
  match op with
  | .sum | .avg | .stdDevPop | .stdDevSamp =>
    expectType ctx key path .number inputs
    return scalarNode .number
  | .max | .min | .ifNull => return mergedNode ctx inputs
  | .cond => return mergedNode ctx (inputs.drop 1)
  | .literal => return whole
  | .string => return scalarNode .string
  | .number | .integer => return scalarNode .number
  | .boolean => return scalarNode .boolean
  | .date => return scalarNode .date
  | .objectId => return scalarNode .objectId
  | .array => return if inputs.isEmpty then unknownNode.withArray (some true) else whole
  | .object => return scalarNode .document
  | .and | .or | .not | .anyElementTrue | .allElementsTrue | .isArray
  | .eq | .gt | .gte | .lt | .lte | .ne => return scalarNode .boolean
  | .setEquals | .setIsSubset =>
    expectArrays ctx key path inputs
    return scalarNode .boolean
  | .setIntersection | .setUnion | .setDifference | .concatArrays =>
    expectArrays ctx key path inputs
    return arrayNode ctx inputs
  | .cmp => return scalarNode .number
  | .strcasecmp =>
    expectType ctx key path .string inputs
    return scalarNode .number
  | .trunc | .sqrt | .ln | .floor | .exp | .ceil | .abs | .multiply | .divide | .mod | .pow
  | .log =>
    expectType ctx key path .number inputs
    expectSingle ctx key path inputs
    return scalarNode .number
  | .add => return scalarNode (← sumType path (inputs.map fun n => n.type ctx.catalog))
  | .subtract =>
    let type := fun (i : Nat) => (inputs[i]?.map fun n => n.type ctx.catalog).getD .unknown
    return scalarNode (← differenceType path (type 0) (type 1))
  | .concat | .toLower | .toUpper =>
    expectType ctx key path .string inputs
    expectSingle ctx key path inputs
    return scalarNode .string
  | .substr =>
    expectType ctx key path .string (inputs.take 1)
    return scalarNode .string
  | .size =>
    expectArrays ctx key path inputs
    return scalarNode .number
  | .arrayElemAt =>
    expectArrays ctx key path (inputs.take 1)
    return (inputs.head?.getD unknownNode).withArray (some false)
  | .slice =>
    expectArrays ctx key path (inputs.take 1)
    return (inputs.head?.getD unknownNode).withArray (some true)
  | .dayOfYear | .dayOfMonth | .dayOfWeek | .year | .month | .week | .hour | .minute | .second
  | .millisecond =>
    expectType ctx key path .date inputs
    expectSingle ctx key path inputs
    return scalarNode .number
  | .dateToString =>
    expectType ctx key path .date ((inputs.drop 1).take 1)
    return scalarNode .string
  | .expand => return unknownNode

def accumulatorOutput (a : Accumulator) (path : String) (input : ProjectedNode) :
    Except CompileError ProjectedNode := do
  match a.output with
  | .number =>
    if a ≠ .count then expectType ctx a.key path .number [input]
    return scalarNode .number
  | .source => return input
  | .arrayOfSource =>
    return ((ProjectedNode.named "").typed (input.type ctx.catalog)).withArray (some true)

end Conduit.Expression
