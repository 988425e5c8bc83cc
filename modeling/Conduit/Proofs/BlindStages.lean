import Conduit.Proofs.BlindCatalog

/-!
# Stages that see nothing of indexes

A stage reads index data in two places only: a match builds index entries, and a sort asks for a
native index.  Both are guarded by `Context.usesIndex`.  So where that is off, each stage gives
what it gives in a context from which all index data has been erased (`compileStage_blind`).

Everything below the stages is either equal in both contexts outright, or is handed a node of the
erased catalog and does the same with it.  The equations are between functions where they can be,
so that they rewrite under binders too.
-/

namespace Conduit

namespace Context

/-- A stage that sees nothing of indexes. -/
@[simps] def blind (ctx : Context) : Context :=
  { ctx with catalog := ctx.catalog.blind, options := ctx.options.blind, indexes := fun _ => [] }

variable (ctx : Context)

@[simp] lemma limits_blind : ctx.blind.limits = ctx.limits := rfl

@[simp] lemma strict_blind : ctx.blind.strict = ctx.strict := rfl

@[simp] lemma placeholder?_blind : ctx.blind.placeholder? = ctx.placeholder? := rfl

@[simp] lemma laterStage?_blind : ctx.blind.laterStage? = ctx.laterStage? := rfl

@[simp] lemma passThrough_blind : ctx.blind.passThrough = ctx.passThrough := rfl

lemma baseFind_blind (h : ctx.usesIndex = false) : ctx.blind.baseFind = ctx.baseFind := by
  simp [baseFind, h]

@[simp] lemma authorizeEntries_blind (n : Node) :
    ctx.blind.authorizeEntries n.blind = ctx.authorizeEntries n := rfl

@[simp] lemma authorize_blind : ctx.blind.authorize = ctx.authorize := by
  funext id counts
  simp [authorize]

@[simp] lemma checkLineage_blind : ctx.blind.checkLineage = ctx.checkLineage := by
  delta checkLineage checkLineage._f
  simp

@[simp] lemma candidateNodes_blind : ctx.blind.candidateNodes = ctx.candidateNodes := by
  funext path
  simp [candidateNodes]

@[simp] lemma filterByDiscriminators_blind :
    ctx.blind.filterByDiscriminators = ctx.filterByDiscriminators := by
  funext nodes
  simp [filterByDiscriminators]

end Context

/-! ## Matches -/

namespace Match

section

variable (ctx : Context)

@[simp] lemma parse_blind : parse ctx.blind = parse ctx := by
  delta parse parseExpression parseOperator._f leafOperand listElements
  rfl

/-! ### Narrowing -/

@[simp] lemma resolveProperty_blind : resolveProperty ctx.blind = resolveProperty ctx := by
  delta resolveProperty demandAllows
  simp

@[simp] lemma leafProperties_blind : leafProperties ctx.blind = leafProperties ctx := by
  delta leafProperties resolveEach resolveEach._f
  simp

@[simp] lemma childrenModels_blind : childrenModels ctx.blind = childrenModels ctx := by
  delta childrenModels childModels._f leafModels modelsOneOf
  rfl

@[simp] lemma elementsModels_blind : elementsModels ctx.blind = elementsModels ctx := by
  delta elementsModels childModels._f leafModels modelsOneOf
  rfl

@[simp] lemma childrenProperties_blind : childrenProperties ctx.blind = childrenProperties ctx := by
  delta childrenProperties childProperties._f childrenProperties._f elementsProperties._f
  simp only [leafProperties_blind, resolveProperty_blind]

@[simp] lemma elementsProperties_blind : elementsProperties ctx.blind = elementsProperties ctx := by
  delta elementsProperties childProperties._f childrenProperties._f elementsProperties._f
  simp only [leafProperties_blind, resolveProperty_blind]

/-! ### Trails and checks -/

@[simp] lemma narrowTwice_blind : Trail.narrowTwice ctx.blind = Trail.narrowTwice ctx := by
  delta Trail.narrowTwice expressionModels componentModels componentProperties
  simp

lemma root_blind : Trail.root ctx.blind = Trail.root ctx := by
  delta Trail.root expressionModels
  simp

@[simp] lemma child_blind : Trail.child ctx.blind = Trail.child ctx := by
  delta Trail.child componentModels componentProperties expressionModels
  simp

variable {ctx} (hindex : ctx.usesIndex = false)

include hindex

lemma checkProperty_blind : checkProperty ctx.blind = checkProperty ctx := by
  delta checkProperty checkNodes checkNodes._f
  simp [hindex]

lemma checkChildren_blind : checkChildren ctx.blind = checkChildren ctx := by
  delta checkChildren checkComponent._f checkChildren._f checkElements._f checkAllElements._f
    checkStrings
  simp [checkProperty_blind hindex]

end

/-! ### Building -/

namespace Builder

/-- A builder that sees nothing of indexes. -/
@[simps] def blind (b : Builder) : Builder := { b with ctx := b.ctx.blind }

variable (b : Builder)

@[simp] lemma buildKey_blind : buildKey b.blind = buildKey b := rfl

@[simp] lemma localized_blind : localized b.blind = localized b := by
  delta localized Catalog.nodeModel
  simp

@[simp] lemma buildField_blind : buildField b.blind = buildField b := by
  delta buildField
  simp

variable {b} (hindex : b.ctx.usesIndex = false)

include hindex

lemma castIntoQuery_blind : castIntoQuery b.blind = castIntoQuery b := by
  delta castIntoQuery castNodes castNodes._f
  simp [hindex]

lemma buildChildren_blind : b.blind.buildChildren = b.buildChildren := by
  delta buildChildren buildComponent._f buildChildren._f buildElements._f buildLeaf buildSimple
  simp [castIntoQuery_blind hindex]

end Builder

variable {ctx : Context}

lemma compile_blind (hindex : ctx.usesIndex = false) (value : Json) :
    compile ctx.blind value = compile ctx value := by
  have hchildren : ∀ references,
      Builder.buildChildren ⟨ctx.blind, references⟩ = Builder.buildChildren ⟨ctx, references⟩ :=
    fun references => Builder.buildChildren_blind (b := ⟨ctx, references⟩) hindex
  simp [compile, root_blind, validate, checkChildren_blind hindex, build, Builder.buildNatural,
    hchildren, ctx.baseFind_blind hindex, checkNativeIndexes, hindex]

end Match

end Conduit

/-! ## Sorts -/

namespace Conduit.Sort

section

variable (ctx : Context)

@[simp] lemma read?_blind : Direction.read? ctx.blind = Direction.read? ctx := rfl

@[simp] lemma keyOf_blind : keyOf ctx.blind = keyOf ctx := rfl

variable {ctx} (hindex : ctx.usesIndex = false)

include hindex

lemma compile_blind : compile ctx.blind = compile ctx := by
  delta compile parse parseFields parseFields._f candidates candidatesWith sortKeys sortKeys._f
    sortKey survey survey._f surveyIndex surveySlot holdsArrays checkNativeIndexes
  simp [hindex]

end

end Conduit.Sort

namespace Conduit

/-! ## Output expressions -/

namespace Expression

variable (ctx : Context)

@[simp] lemma parseFields_blind : parseFields ctx.blind = parseFields ctx := by
  delta parseFields
  rfl

@[simp] lemma parseArgument_blind : parseArgument ctx.blind = parseArgument ctx := by
  delta parseArgument parseFields
  rfl

@[simp] lemma readSources_blind : readSources ctx.blind = readSources ctx := by
  delta readSources readSources._f
  simp

@[simp] lemma readNodes_blind : readNodes ctx.blind = readNodes ctx := by
  delta readNodes readNodes._f
  simp

@[simp] lemma checkOperands_blind (site : Site) (nodes : List Node) :
    checkOperands ctx.blind site (nodes.map Node.blind) = checkOperands ctx site nodes := by
  have hreaders : (nodes.map Node.blind).filter Node.isReaderBacked =
      (nodes.filter Node.isReaderBacked).map Node.blind := List.filter_map
  have hpaths : Node.qualifiedPath ∘ Node.blind = Node.qualifiedPath := rfl
  have hany : (nodes.map Node.blind).find? (fun n => n.type == .any) =
      (nodes.find? fun n => n.type == .any).map Node.blind := List.find?_map
  simp only [checkOperands, hreaders, hany, List.map_map, hpaths, List.isEmpty_map,
    Context.strict_blind]
  cases nodes.find? fun n => n.type == .any with
  | none => rfl
  | some n => rfl

@[simp] lemma localeOf_blind (nodes : List Node) :
    localeOf ctx.blind (nodes.map Node.blind) = localeOf ctx nodes := by
  cases nodes with
  | nil => rfl
  | cons n rest => simp [localeOf, Function.comp_def]

@[simp] lemma read_blind : read ctx.blind = read ctx := by
  funext site path inclusion
  have hnodes : ∀ ids : List NodeId,
      ids.map ctx.catalog.blind.node = (ids.map ctx.catalog.node).map Node.blind := fun ids => by
    simp
  simp only [read, Context.candidateNodes_blind, Context.filterByDiscriminators_blind,
    Context.strict_blind, Context.blind_catalog, readNodes_blind, hnodes, checkOperands_blind,
    localeOf_blind]
  rfl

@[simp] lemma expectType_blind : expectType ctx.blind = expectType ctx := by
  funext key path type inputs
  simp only [expectType, Context.blind_catalog, ProjectedNode.type_blind]
  rfl

@[simp] lemma operatorOutput_blind : operatorOutput ctx.blind = operatorOutput ctx := by
  delta operatorOutput expectArrays expectSingle mergedNode arrayNode sharedType
  simp

@[simp] lemma elaborateStage_blind : elaborateStage ctx.blind = elaborateStage ctx := by
  delta elaborateStage elaborateChildren elaborate._f elaborateItems._f elaborateChildren._f
    elaborateSimple elaborateExpand checkExpandable applyOperator accumulatorAt? accumulatorOutput
    arrayNode elaborateObject elaborateObject.document nameField checkRename sharedType
  simp

end Expression

/-! ## The other stages -/

section

variable (ctx : Context)

lemma Group.compile_blind : compile ctx.blind = compile ctx := by
  delta compile parse parseAll parseAll._f parseKey parseAccumulator addLabels
  simp

lemma Project.compile_blind : compile ctx.blind = compile ctx := by
  funext value
  simp [compile, parse]

lemma Unwind.compile_blind : compile ctx.blind = compile ctx := by
  delta compile candidates checkNodes checkNodes._f
  simp

/-- **A stage that uses no index compiles to the same** without all that is said of indexes. -/
lemma compileStage_blind {ctx : Context} (hindex : ctx.usesIndex = false) (value : Json) :
    compileStage ctx.blind value = compileStage ctx value := by
  simp only [compileStage, Context.blind_kind, Context.blind_position]
  cases ctx.kind with
  | «match» => simp only [Match.compile_blind hindex]
  | sort => simp only [Sort.compile_blind hindex]
  | group => simp only [Group.compile_blind]
  | project | addFields => simp only [Project.compile_blind]
  | unwind => simp only [Unwind.compile_blind]
  | limit | skip => rfl

end

end Conduit
