import Conduit.Expression.Reading
import Conduit.Built

/-!
# Elaborating expressions

Every part of a parsed expression is elaborated into the node it produces, the native form that
computes it, and the references to expand.
-/

namespace Conduit.Expression

structure Elaborated where
  node : ProjectedNode
  /-- The nodes that an operator around this value has for inputs. -/
  inputs : List ProjectedNode
  built : Built
  expansions : List Expansion := []

/-! ## Native forms -/

/-- Reads a localized property from the table of locales. -/
def localizedValue (path locale : String) : Json :=
  let matching := Json.obj [
    ("input", .str ("$locales." ++ path)),
    ("as", .str "loc"),
    ("cond", .obj [("$eq", .arr [.str "$$loc.locale", .str locale])])]
  .obj [("$let", .obj [
    ("vars", .obj [("localize", .obj [("$arrayElemAt",
      .arr [.obj [("$filter", matching)], .int 0])])]),
    ("in", .obj [("$concat", .arr [.str "$$localize.value", .str ""])])])]

def fieldReference (path : String) : Option String → Json
  | some locale => localizedValue path locale
  | none => .str ("$" ++ path)

def dateToStringForm : Json → Json
  | .arr [] => .obj [("format", .null), ("date", .null)]
  | .arr [format] => .obj [("format", format), ("date", .null)]
  | .arr [format, date] => .obj [("format", format), ("date", date)]
  | .arr (format :: date :: timezone :: _) =>
    .obj [("format", format), ("date", date), ("timezone", timezone)]
  | v => v

/-- The native form of an operator.  Typed literals and parts of dates stand for the whole
expression around them: a part of a date that is missing is null. -/
def operatorForm (op : ExprOp) (arg : Json) : Built :=
  match op with
  | .string | .number | .integer | .boolean | .date | .objectId | .array | .object =>
    .replace (.value (.obj [("$literal", arg)]))
  | .dateToString => .value (.obj [(op.key, dateToStringForm arg)])
  | _ =>
    if op.isDatePart then
      .replace (.value (.obj [("$cond", .arr [
        .obj [("$ifNull", .arr [arg, .bool false])], .obj [(op.key, arg)], .null])]))
    else .value (.obj [(op.key, arg)])

/-- The native form of an accumulator.  Counting an array counts its elements, and otherwise the
values that are there. -/
def accumulatorForm (a : Accumulator) (ofArrays : Bool) (arg : Json) : Json :=
  match a with
  | .count =>
    let number := if ofArrays then
        Json.arr [.obj [("$isArray", arg)], .obj [("$size", arg)], .int 0]
      else .arr [.obj [("$ifNull", .arr [arg, .bool false])], .int 1, .int 0]
    .obj [("$sum", .obj [("$cond", number)])]
  | .pushAll => .obj [("$push", .obj [("$ifNull", .arr [arg, .bool false])])]
  | a => .obj [(a.key, arg)]

/-- The fields of an expression together.  A replacement stands for all of them. -/
def assemble (parts : List Built) (fs : Fields) : Built :=
  match parts with
  | [] => .value (.obj fs)
  | .replace inner :: _ => inner
  | .value (.obj object) :: rest => assemble rest (Fields.extend fs object)
  | .value _ :: rest => assemble rest fs

def fieldForm (key : String) : Built → Built
  | .replace inner => inner
  | .value v => .value (.obj [(key, v)])

/-! ## Elaboration -/

variable (ctx : Context)

/-- A projected field keeps the name of an existing property for that property. -/
def checkRename (site : Site) (v : Operand) : Except CompileError Unit :=
  let path := site.propertyPath
  let taken := !(ctx.catalog.gatherNodes ctx.models path).isEmpty
  match v with
  | .property source =>
    if source ≠ path ∧ taken then .error (Fault.renamesBuiltin.at site.fullpath) else .ok ()
  | .expression [(key, _)] =>
    if Path.isOperator key ∧ key ≠ ExprOp.expand.key ∧ taken then
      .error (Fault.renamesProperty.at site.fullpath)
    else .ok ()
  | _ => .ok ()

/-- The accumulator at a place: accumulators stand directly below the fields of `$group`. -/
def accumulatorAt? (site : Site) : Option Accumulator :=
  match site.enclosing with
  | [field, _] =>
    if ctx.kind = .group ∧ Path.isOperator site.key ∧ field ≠ "_id" then
      Accumulator.ofKey? site.key
    else none
  | _ => none

/-- A literal at a place: the inclusion of a field, or the literal itself. -/
def elaborateSimple (site : Site) (v : Json) : Compile Elaborated := do
  if site.isOperator ∨ ctx.kind = .group then
    let node := literalNode v
    return { node, inputs := [node], built := .value v }
  let path := site.propertyPath
  let reading ← read ctx site path true
  let form := if reading.locale.isSome ∨ ctx.kind = .addFields then
      fieldReference path reading.locale
    else v
  return { node := reading.node, inputs := [reading.node], built := .value form }

/-- What may be expanded: references that allow it, and lists with arguments. -/
def checkExpandable (path : String) (v : Operand) (node : ProjectedNode) :
    Except CompileError Unit :=
  let withArguments := match v with
    | .raw _ => true
    | _ => false
  let c := ctx.catalog
  let needArguments : Except CompileError Unit :=
    if withArguments then .ok () else .error (Fault.expandNeedsArguments.at path)
  match node.type c, (node.isArray c).getD false with
  | .reference, false =>
    if node.isExpandable c then .ok ()
    else
      let paths := (node.storedSources c).map fun id => (c.node id).qualifiedPath
      .error ((Fault.expandDenied (", ".intercalate paths)).at path)
  | .reference, true | .list, _ => needArguments
  | _, _ => .error (Fault.expandNotReference.at path)

/-- The expansion of the field around it.  Later stages must leave documents whole. -/
def elaborateExpand (site : Site) (v : Operand) : Compile Elaborated := do
  match ctx.laterStage? [.group, .unwind] with
  | some (stage, position) => throw ((Fault.expandNotLast stage.key position).at site.fullpath)
  | none => pure ()
  let path := site.propertyPath
  let reading ← read ctx site path true
  Journaled.of (checkExpandable ctx site.fullpath v reading.node)
  let included := if ctx.kind = .addFields then fieldReference path none else .int 1
  let field := site.enclosing.headD ""
  return { node := reading.node
           inputs := [reading.node]
           built := .replace (.replace (.value (.obj [(field, included)])))
           expansions := [⟨path, v.underlying⟩] }

def applyOperator (site : Site) (e : Elaborated) : Compile Elaborated := do
  match accumulatorAt? ctx site, ExprOp.ofKey? site.key with
  | some a, _ =>
    let node ← Journaled.of (accumulatorOutput ctx a site.fullpath e.node)
    let ofArrays := e.node.isArray ctx.catalog == some true
    return { e with node, inputs := [node],
                    built := .value (accumulatorForm a ofArrays e.built.unwrap) }
  | none, some op =>
    let node ← Journaled.of (operatorOutput ctx op site.fullpath e.inputs e.node)
    return { e with node, inputs := [node], built := operatorForm op e.built.unwrap }
  | none, none => throw ((Fault.unknownOperator site.key).at site.fullpath)

def nameField (site : Site) (e : Elaborated) : Compile Elaborated := do
  let node := e.node.rename site.key
  Journaled.note (.output ctx.kind site.fullpath (node.publicType ctx.catalog))
  return { e with node, inputs := [node], built := fieldForm site.key e.built }

def elaborateObject (site : Site) (keys : List String) (parts : List Elaborated) : Elaborated :=
  let built := assemble (parts.map Elaborated.built) []
  let expansions := parts.flatMap Elaborated.expansions
  match keys, parts with
  | [key], [only] =>
    if Path.isOperator key then { only with built, expansions }
    else document built expansions
  | _, _ => document built expansions
where
  /-- The node of a document.  Its sources are the nodes that have been there before. -/
  document (built : Built) (expansions : List Expansion) : Elaborated :=
    let node := (ProjectedNode.named "").withProperties (parts.map Elaborated.node)
    let node :=
      if ctx.kind = .group then node
      else
        let (found, isArray) := ctx.candidateNodes site.propertyPath
        (node.withSources ((ctx.filterByDiscriminators found).map .node)).withArray isArray
    { node, inputs := [node], built, expansions }

mutual

def elaborate (site : Site) : Operand → Compile Elaborated
  | .variable name => return {
      node := unknownNode, inputs := [], built := .value (.str (Path.placeholder name)) }
  | .raw v => return { node := unknownNode, inputs := [unknownNode], built := .value v }
  | .simple v => elaborateSimple ctx site v
  | .property path => do
    let reading ← read ctx site path false
    return { node := reading.node
             inputs := [reading.node]
             built := .value (fieldReference path reading.locale) }
  | .array elements => do
    let parts ← elaborateItems site elements
    let nodes := parts.map Elaborated.node
    return { node := arrayNode ctx nodes
             inputs := nodes
             built := .value (.arr (parts.map fun e => e.built.unwrap))
             expansions := parts.flatMap Elaborated.expansions }
  | .expression children => do
    let parts ← elaborateChildren site children
    return elaborateObject ctx site (children.map Prod.fst) parts

def elaborateItems (site : Site) : List Operand → Compile (List Elaborated)
  | [] => return []
  | v :: rest => do
    let first ← elaborate site v
    return first :: (← elaborateItems site rest)

def elaborateChildren (site : Site) : List (String × Operand) → Compile (List Elaborated)
  | [] => return []
  | (key, v) :: rest => do
    let place := site.child key
    let first ←
      if key = ExprOp.expand.key then elaborateExpand ctx place v
      else if Path.isOperator key then applyOperator ctx place (← elaborate place v)
      else do
        if ctx.kind = .project then Journaled.of (checkRename ctx place v)
        nameField ctx place (← elaborate place v)
    return first :: (← elaborateChildren site rest)

end

structure Outcome where
  nodes : List ProjectedNode
  body : Fields
  expansions : List Expansion

def elaborateStage (v : Operand) : Compile Outcome := do
  let parts ← elaborateChildren ctx (Site.root ctx.kind.key) v.children
  let body := match (assemble (parts.map Elaborated.built) []).unwrap with
    | .obj fs => fs
    | _ => []
  return { nodes := parts.map Elaborated.node
           body
           expansions := parts.flatMap Elaborated.expansions }

end Conduit.Expression
