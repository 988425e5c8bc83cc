import Conduit.Expression.Output

/-!
# Properties in expressions

The nodes that an expression reads for a path.  Each has to be readable with all that is above
it, and stored, unless the path only includes the node itself.
-/

namespace Conduit.Expression

structure Reading where
  node : ProjectedNode
  /-- The locale, if all that is read is localized. -/
  locale : Option String := none

variable (ctx : Context)

/-- Checks the stored sources of a computed node.  Several of them must be readable as a
whole. -/
def readSources (site : Site) (several : Bool) : List NodeId → Compile Unit
  | [] => pure ()
  | id :: rest => do
    let n := ctx.catalog.node id
    if !n.readable then throw (Fault.propertyNotFound.at site.fullpath)
    if n.acl.isSome && several then throw (Fault.ambiguousAcl.at site.fullpath)
    if n.readAccess == .system && !ctx.options.allowSystemAccess then
      throw (Fault.hiddenValues.at site.fullpath)
    if several && n.isReaderBacked then
      throw ((Fault.amalgamatedReader site.key n.qualifiedPath).at site.fullpath)
    if ctx.kind = .group ∧ n.acl.isNone then
      Journaled.note (.needs ctx.kind ctx.position n.readAccess)
    readSources site several rest

/-- Reads nodes with their lineages.  Only an included node itself may do without stored data. -/
def readNodes (site : Site) (inclusion : Bool) : List NodeId → Compile Unit
  | [] => pure ()
  | id :: rest => do
    let refuses (ancestor : NodeId) :=
      ((ctx.catalog.node ancestor).groupReader || (ctx.catalog.node ancestor).isVirtual) &&
        !(inclusion && ancestor == id)
    ctx.checkLineage (ctx.kind = .group) refuses (.projectNotConcrete site.key) site.fullpath
      (ctx.catalog.lineage id)
    let n := ctx.catalog.node id
    if n.projected then readSources ctx site (n.sources.length > 1) n.sources
    readNodes site inclusion rest

/-- Operators need stored data, and in strict pipelines of a known type. -/
def checkOperands (site : Site) (nodes : List Node) : Except CompileError Unit := do
  let readers := nodes.filter Node.isReaderBacked
  if !readers.isEmpty then
    let paths := ", ".intercalate (readers.map Node.qualifiedPath)
    throw ((Fault.selectNotConcrete site.key paths).at site.fullpath)
  match nodes.find? fun n => n.type == .any with
  | some n => if ctx.strict then throw ((Fault.anyProperty n.qualifiedPath).at site.fullpath)
  | none => pure ()

def localeOf (nodes : List Node) : Option String :=
  match nodes with
  | [] => none
  | n :: _ =>
    if nodes.all Node.localized then some (n.fixedLocale.getD ctx.options.currentLocale) else none

def read (site : Site) (path : String) (inclusion : Bool) : Compile Reading := do
  let (found, isArray) := ctx.candidateNodes path
  let ids := ctx.filterByDiscriminators found
  if ids.isEmpty then
    if ctx.strict then throw ((Fault.noCandidates path).at site.fullpath)
    return { node := unknownNode }
  readNodes ctx site inclusion ids
  let nodes := ids.map ctx.catalog.node
  if site.isOperator then Journaled.of (checkOperands ctx site nodes)
  return { node := ((ProjectedNode.named "").withSources (ids.map .node)).withArray isArray
           locale := localeOf ctx nodes }

end Conduit.Expression
