import Conduit.Proofs.LiftedMatch
import Conduit.Schema.Load

/-!
# Pipelines under looser checks

Every stage compiles to the same under looser checks, and hands the same on to the next one, so that
a whole pipeline does.

Strict pipelines refuse inputs of a wrong type, limits refuse what is too large, and access refuses
what may not be read; none of them takes part in what is built.
-/

namespace Conduit

/-! ## Output expressions -/

namespace Expression

section

variable {ctx : Context} {k : Checks} (hk : k.LooserThan ctx.checks)

include hk

lemma checkOperator_lifts (site : Site) (v : Json) : Lifted ctx k (checkOperator · site v) :=
  .bind (.refl _) fun _ => .bind (Rule.checkAll_lifts (Context.limits_under hk) _ _ _ _ _) fun _ =>
    .refl _

lemma checkFields_lifts {α : Type} (site : Site) (fs : Fields)
    {f g : Unit → Except CompileError α} (h : Lifts Eq (f ()) (g ())) :
    Lifts Eq (checkExpression ctx.limits site (.obj fs) >>= fun _ =>
        checkFieldsOrOperator ctx.kind fs false site.fullpath >>= f)
      (checkExpression (ctx.under k).limits site (.obj fs) >>= fun _ =>
        checkFieldsOrOperator (ctx.under k).kind fs false site.fullpath >>= g) :=
  .bind (checkExpression_lifts (Context.limits_under hk) site _) fun _ => .bind (.refl _) fun _ => h

omit hk in
mutual

lemma parseFields_lifts (hk : k.LooserThan ctx.checks) (site : Site) :
    ∀ fs : Fields, Lifted ctx k (parseFields · site fs)
  | [] => .refl _
  | (key, v) :: rest => by
    refine .ite (parseFields_lifts hk site rest)
      (.ite (.bind (parseOperator_lifts hk _ v) fun _ => ?_)
        (.bind (parseField_lifts hk _ v) fun _ => ?_))
    all_goals exact .bind (parseFields_lifts hk site rest) fun _ => .refl _

lemma parseField_lifts (hk : k.LooserThan ctx.checks) (site : Site) :
    ∀ v : Json, Lifted ctx k (parseField · site v)
  | .obj fs =>
    .bind (.refl _) fun _ => checkFields_lifts hk site fs
      (.bind (parseFields_lifts hk site fs) fun _ => .refl _)
  | .null | .bool _ | .int _ | .double _ | .str _ | .arr _ => .refl _

lemma parseOperator_lifts (hk : k.LooserThan ctx.checks) (site : Site) :
    ∀ v : Json, Lifted ctx k (parseOperator · site v)
  | .obj fs => by
    refine .bind (checkOperator_lifts hk site _) fun op => ?_
    split
    · exact .refl _
    · exact .refl _
    · exact .refl _
    · exact .guard id (checkFields_lifts hk site fs
        (.bind (parseFields_lifts hk site fs) fun _ => .refl _))
  | .arr items => by
    refine .bind (checkOperator_lifts hk site _) fun op => ?_
    cases op.shape with
    | literal | expand | simpleOrExpression | dateOrSimple => exact .refl _
    | dateToString => exact .bind (parseDateParts_lifts hk site 0 items) fun _ => .refl _
    | anyExpression | arrayOfExpressions =>
      exact .bind (parseItems_lifts hk site items) fun _ => .refl _
  | .null | .bool _ | .int _ | .double _ | .str _ =>
    .bind (checkOperator_lifts hk site _) fun _ => .refl _

lemma parseItems_lifts (hk : k.LooserThan ctx.checks) (site : Site) :
    ∀ vs : List Json, Lifted ctx k (parseItems · site vs)
  | [] => .refl _
  | .arr inner :: rest =>
    .bind (parseItems_lifts hk site inner) fun _ =>
      .bind (parseItems_lifts hk site rest) fun _ => .refl _
  | .obj fs :: rest =>
    checkFields_lifts hk site fs (.bind (parseFields_lifts hk site fs) fun _ =>
      .bind (parseItems_lifts hk site rest) fun _ => .refl _)
  | .null :: rest | .bool _ :: rest | .int _ :: rest | .double _ :: rest | .str _ :: rest =>
    .bind (.refl _) fun _ => .bind (parseItems_lifts hk site rest) fun _ => .refl _

lemma parseDateParts_lifts (hk : k.LooserThan ctx.checks) (site : Site) (position : Nat) :
    ∀ vs : List Json, Lifted ctx k (parseDateParts · site position vs)
  | [] => .refl _
  | .obj fs :: rest => by
    refine .ite (checkFields_lifts hk site fs (.bind (parseFields_lifts hk site fs) fun _ =>
      .bind (.refl _) fun _ => ?_)) (.bind (.refl _) fun _ => ?_)
    all_goals exact .bind (parseDateParts_lifts hk site (position + 1) rest) fun _ => .refl _
  | .arr items :: rest => by
    refine .ite (.bind (.refl _) fun _ => ?_) (.bind (.refl _) fun _ => ?_)
    all_goals exact .bind (parseDateParts_lifts hk site (position + 1) rest) fun _ => .refl _
  | .null :: rest | .bool _ :: rest | .int _ :: rest | .double _ :: rest | .str _ :: rest => by
    refine .ite (.bind (.refl _) fun _ => ?_) (.bind (.refl _) fun _ => ?_)
    all_goals exact .bind (parseDateParts_lifts hk site (position + 1) rest) fun _ => .refl _

end

lemma parseArgument_lifts (site : Site) (v : Json) : Lifted ctx k (parseArgument · site v) := by
  cases v with
  | obj fs =>
    exact checkFields_lifts hk site fs (.bind (parseFields_lifts hk site fs) fun _ => .refl _)
  | _ => exact .refl _

/-! ### Reading properties -/

lemma readSources_lifts (site : Site) (several : Bool) : ∀ ids : List NodeId,
    LiftedRun ctx k (readSources · site several ids)
  | [] => .refl _
  | id :: rest => by
    refine .guard (fun h => h) (.guard (fun h => h) (.guard (fun h => ?_) (.guard (fun h => h)
      (.ite (.bind (.refl _) fun _ => readSources_lifts site several rest)
        (readSources_lifts site several rest)))))
    simp only [Bool.and_eq_true, Bool.not_eq_true'] at h ⊢
    exact ⟨h.1, Context.systemAccess_under hk h.2⟩

lemma readNodes_lifts (site : Site) (inclusion : Bool) : ∀ ids : List NodeId,
    LiftedRun ctx k (readNodes · site inclusion ids)
  | [] => .refl _
  | _ :: rest =>
    .bind (Context.checkLineage_lifts hk _ _ _ _ _) fun _ =>
      .ite (.bind (readSources_lifts hk site _ _) fun _ => readNodes_lifts site inclusion rest)
        (readNodes_lifts site inclusion rest)

lemma checkOperands_lifts (site : Site) (nodes : List Node) :
    Lifted ctx k (checkOperands · site nodes) := by
  refine .guard id ?_
  cases nodes.find? fun n => n.type == .any with
  | none => exact .refl _
  | some n => exact .guard hk.strict (.refl _)

lemma read_lifts (site : Site) (path : String) (inclusion : Bool) :
    LiftedRun ctx k (read · site path inclusion) := by
  rw [LiftedRun, read, read, Context.candidateNodes_under]
  cases ctx.candidateNodes path with
  | mk found isArray =>
    exact .ite (.guard hk.strict (.refl _)) (.bind (readNodes_lifts hk site inclusion _) fun _ =>
      .ite (.bind (.of (checkOperands_lifts hk site _)) fun _ => .refl _) (.refl _))

/-! ### Outputs -/

lemma expectType_lifts (key path : String) (type : PropertyType) (inputs : List ProjectedNode) :
    Lifted ctx k (expectType · key path type inputs) := by
  unfold Lifted expectType
  dsimp only [Context.under]
  split
  · exact .guard hk.strict (.refl _)
  · exact .refl _

lemma expectArrays_lifts (key path : String) (inputs : List ProjectedNode) :
    Lifted ctx k (expectArrays · key path inputs) :=
  .guard (Context.strict_and_under hk) (.refl _)

lemma expectSingle_lifts (key path : String) (inputs : List ProjectedNode) :
    Lifted ctx k (expectSingle · key path inputs) :=
  .guard (Context.strict_and_under hk) (.refl _)

lemma operatorOutput_lifts (op : ExprOp) (path : String) (inputs : List ProjectedNode)
    (whole : ProjectedNode) : Lifted ctx k (operatorOutput · op path inputs whole) := by
  cases op with
  | sum | avg | stdDevPop | stdDevSamp | strcasecmp | substr | dateToString =>
    exact .bind (expectType_lifts hk _ _ _ _) fun _ => .refl _
  | setEquals | setIsSubset | setIntersection | setUnion | setDifference | concatArrays | size
  | arrayElemAt | slice =>
    exact .bind (expectArrays_lifts hk _ _ _) fun _ => .refl _
  | trunc | sqrt | ln | floor | exp | ceil | abs | multiply | divide | mod | pow | log | concat
  | toLower | toUpper | dayOfYear | dayOfMonth | dayOfWeek | year | month | week | hour | minute
  | second | millisecond =>
    exact .bind (expectType_lifts hk _ _ _ _) fun _ => .bind (expectSingle_lifts hk _ _ _) fun _ =>
      .refl _
  | _ => exact .refl _

lemma accumulatorOutput_lifts (a : Accumulator) (path : String) (input : ProjectedNode) :
    Lifted ctx k (accumulatorOutput · a path input) := by
  unfold accumulatorOutput
  cases a.output with
  | number => exact .ite (.bind (expectType_lifts hk _ _ _ _) fun _ => .refl _) (.refl _)
  | _ => exact .refl _

/-! ### Elaborating -/

lemma elaborateSimple_lifts (site : Site) (v : Json) : LiftedRun ctx k (elaborateSimple · site v) :=
  .ite (.refl _) (.bind (read_lifts hk site _ true) fun _ => .refl _)

lemma elaborateExpand_lifts (site : Site) (v : Operand) :
    LiftedRun ctx k (elaborateExpand · site v) := by
  rw [LiftedRun, elaborateExpand, elaborateExpand,
    show (ctx.under k).laterStage? = ctx.laterStage? from rfl]
  cases ctx.laterStage? [.group, .unwind] with
  | some later => exact .error _ _ _
  | none => exact .bind (read_lifts hk site _ true) fun _ => .refl _

lemma applyOperator_lifts (site : Site) (e : Elaborated) :
    LiftedRun ctx k (applyOperator · site e) := by
  rw [LiftedRun, applyOperator, applyOperator,
    show accumulatorAt? (ctx.under k) site = accumulatorAt? ctx site from rfl]
  cases accumulatorAt? ctx site with
  | some a => exact .bind (.of (accumulatorOutput_lifts hk a _ _)) fun _ => .refl _
  | none =>
    cases ExprOp.ofKey? site.key with
    | some op => exact .bind (.of (operatorOutput_lifts hk op _ _ _)) fun _ => .refl _
    | none => exact .refl _

omit hk in
mutual

lemma elaborate_lifts (hk : k.LooserThan ctx.checks) (site : Site) :
    ∀ v : Operand, LiftedRun ctx k (elaborate · site v)
  | .variable _ | .raw _ => .refl _
  | .simple v => elaborateSimple_lifts hk site v
  | .property path => .bind (read_lifts hk site path false) fun _ => .refl _
  | .array elements => .bind (elaborateItems_lifts hk site elements) fun _ => .refl _
  | .expression children => .bind (elaborateChildren_lifts hk site children) fun _ => .refl _

lemma elaborateItems_lifts (hk : k.LooserThan ctx.checks) (site : Site) : ∀ vs : List Operand,
    LiftedRun ctx k (elaborateItems · site vs)
  | [] => .refl _
  | v :: rest =>
    .bind (elaborate_lifts hk site v) fun _ =>
      .bind (elaborateItems_lifts hk site rest) fun _ => .refl _

lemma elaborateChildren_lifts (hk : k.LooserThan ctx.checks) (site : Site) : ∀ cs : Children,
      LiftedRun ctx k (elaborateChildren · site cs)
  | [] => .refl _
  | (key, v) :: rest => by
    have hrest : ∀ first, LiftedRun ctx k fun c =>
        elaborateChildren c site rest >>= fun more => pure (first :: more) :=
      fun _ => .bind (elaborateChildren_lifts hk site rest) fun _ => .refl _
    have hvalue := elaborate_lifts hk (site.child key) v
    refine .ite (.bind (elaborateExpand_lifts hk _ v) hrest)
      (.ite (.bind hvalue fun e => .bind (applyOperator_lifts hk _ e) hrest) ?_)
    exact .ite (.bind (.refl _) fun _ => .bind hvalue fun _ => .bind (.refl _) hrest)
      (.bind hvalue fun _ => .bind (.refl _) hrest)

end

lemma elaborateStage_lifts (v : Operand) : LiftedRun ctx k (elaborateStage · v) :=
  .bind (elaborateChildren_lifts hk _ v.children) fun _ => .refl _

end

end Expression

/-! ## Stages -/

section

variable {ctx : Context} {k : Checks} (hk : k.LooserThan ctx.checks)

include hk

lemma Group.parseAccumulator_lifts (site : Site) (v : Json) :
    Lifted ctx k (parseAccumulator · site v) := by
  unfold parseAccumulator
  split
  · split
    · exact .refl _
    · exact .bind (checkExpression_lifts (Context.limits_under hk) site _) fun _ =>
        .bind (Rule.checkAll_lifts (Context.limits_under hk) _ _ _ _ _) fun _ =>
          .bind (Expression.parseArgument_lifts hk _ _) fun _ => .refl _
  · exact .refl _

lemma Group.parseKey_lifts (site : Site) (v : Json) : Lifted ctx k (parseKey · site v) := by
  cases v with
  | str s => exact Expression.parseArgument_lifts hk site (.str s)
  | obj fs => exact Expression.parseArgument_lifts hk site (.obj fs)
  | _ => exact .refl _

lemma Group.parseAll_lifts (root : Site) : ∀ fs : Fields, Lifted ctx k (parseAll · root fs)
  | [] => .refl _
  | (key, v) :: rest => by
    refine .guard id (.ite (.bind (parseKey_lifts hk _ v) fun _ => ?_)
      (.bind (parseAccumulator_lifts hk _ v) fun _ => ?_))
    all_goals exact .bind (parseAll_lifts root rest) fun _ => .refl _

lemma Group.compile_lifts (value : Json) : LiftedRun ctx k (compile · value) :=
  .bind (.of (.bind (.refl _) fun _ => .bind (.refl _) fun _ =>
    .bind (parseAll_lifts hk _ _) fun _ => .refl _)) fun v =>
      .bind (Expression.elaborateStage_lifts hk v) fun _ => .refl _

lemma Project.parse_lifts (v : Json) : Lifted ctx k (parse · v) := by
  refine .bind (.refl _) fun _ =>
    .bind (checkExpression_lifts (Context.limits_under hk) _ _) fun fs => ?_
  cases fs.find? fun f => Path.isOperator f.1 with
  | some f => exact .error _ _
  | none =>
    exact .bind (.refl _) fun _ => .ite
      (.bind (.refl _) fun _ => .bind (Expression.parseFields_lifts hk _ _) fun _ => .refl _)
      (.bind (.refl _) fun _ => .bind (Expression.parseFields_lifts hk _ _) fun _ => .refl _)

lemma Project.compile_lifts (value : Json) : LiftedRun ctx k (compile · value) :=
  .bind (.of (parse_lifts hk value)) fun v =>
    .bind (Expression.elaborateStage_lifts hk v) fun _ => .refl _

lemma Unwind.candidates_lifts (path : String) : Lifted ctx k (candidates · path) :=
  .ite (.refl _) (.guard (fun h => ⟨h.1, hk.strict h.2⟩) (.refl _))

lemma Unwind.checkNodes_lifts (path : String) : ∀ ids : List NodeId,
    LiftedRun ctx k (checkNodes · path ids)
  | [] => .refl _
  | _ :: rest =>
    .bind (Context.checkLineage_lifts hk _ _ _ _ _) fun _ => checkNodes_lifts path rest

lemma Unwind.compile_lifts (value : Json) : LiftedRun ctx k (compile · value) := by
  refine .bind (.refl _) fun v => ?_
  rw [Context.placeholder?_under]
  cases ctx.placeholder? v with
  | some name => exact .refl _
  | none =>
    refine .bind (.refl _) fun path => .bind (.of (candidates_lifts hk path)) fun properties => ?_
    cases Candidate.find? properties path with
    | none => exact .error _ _ _
    | some p => exact .bind (checkNodes_lifts hk path p.nodes) fun _ => .refl _

lemma Bound.isWithin_under {n : Int} (h : isWithin (range ctx).2.1 (range ctx).2.2 n = true) :
    isWithin (range (ctx.under k)).2.1 (range (ctx.under k)).2.2 n = true := by
  have hlift : ∀ {min : Nat} {max : Option Int}, isWithin min max n = true →
      isWithin min none n = true := by
    intro min max hn
    simp only [isWithin, Bool.and_eq_true, Option.all_none, Bool.and_true] at hn ⊢
    exact hn.1
  unfold range at h ⊢
  rw [Context.kind_under]
  rcases Context.limits_under hk with hlimits | hlimits
  · rw [hlimits]
    by_cases hkind : ctx.kind = .limit
    · rw [if_pos hkind] at h ⊢
      exact hlift h
    · rw [if_neg hkind] at h ⊢
      exact hlift h
  · rw [hlimits]
    exact h

lemma Bound.compile_lifts (value : Json) : LiftedRun ctx k (compile · value) := by
  rw [LiftedRun, compile, compile, Context.placeholder?_under]
  cases ctx.placeholder? value with
  | some name => exact .refl _
  | none =>
    dsimp only
    cases hn : (numberOf? value).filter (isWithin (range ctx).2.1 (range ctx).2.2) with
    | none => exact .error _ _ _
    | some n =>
      have hn' : (numberOf? value).filter
          (isWithin (range (ctx.under k)).2.1 (range (ctx.under k)).2.2) = some n := by
        rw [Option.filter_eq_some_iff] at hn ⊢
        exact ⟨hn.1, isWithin_under hk hn.2⟩
      rw [hn']
      exact .refl _

end

end Conduit

/-! ## Sorting -/

namespace Conduit.Sort

section

variable {ctx : Context} {k : Checks}

lemma parseFields_under : ∀ fs : Fields, parseFields (ctx.under k) fs = parseFields ctx fs
  | [] => rfl
  | (key, v) :: rest => by
    rw [parseFields, parseFields, parseFields_under rest]
    rfl

/-- What is surveyed under other checks. -/
def Survey.under (k : Checks) (s : Survey) : Survey := { s with checks := k.pending s.checks }

lemma Survey.under_empty : ({} : Survey).under k = {} := by
  simp [Survey.under]

lemma Survey.countNative_under (n : Node) (s : Survey) :
    (s.under k).countNative n = (s.countNative n).under k := by
  unfold Survey.countNative
  split <;> rfl

variable (hk : k.LooserThan ctx.checks)

include hk

lemma parse_lifts (v : Json) : Lifted ctx k (parse · v) := by
  refine .bind (.refl _) fun _ =>
    .bind (checkExpression_lifts (Context.limits_under hk) _ _) fun fs => ?_
  rw [parseFields_under]
  exact .refl _

lemma candidates_lifts (paths : List String) : Lifted ctx k (candidates · paths) :=
  .bind (.mapM (fun _ => .ite (.refl _) (.guard (fun h => ⟨h.1, hk.strict h.2⟩) (.refl _))) paths)
    fun _ => .refl _

lemma surveySlot_lifts (path : String) (id : NodeId) (s : Survey) :
    Lifts (fun a b => b = a.under k) (surveySlot ctx path id s)
      (surveySlot (ctx.under k) path id (s.under k)) := by
  refine .ite ?_ ?_
  · rw [Context.catalog_under, show (s.under k).slot = s.slot from rfl]
    cases (ctx.catalog.node id).slot with
    | none => exact .error _ _
    | some name =>
      cases s.slot with
      | none => exact .ok rfl
      | some current => exact .ite (.ok rfl) (.error _ _)
  · have hadd : ∀ (needed : Bool) (s : Survey),
        (if needed = true then pure { s with checks := s.checks ++ [id] } else pure s :
          Except CompileError Survey) =
          .ok { s with checks := s.checks ++ if needed = true then [id] else [] } := by
      intro needed s
      cases needed
      · simp [pure, Except.pure]
      · rfl
    rw [hadd, hadd, Context.pending_under hk]
    exact .ok (congrArg (Survey.mk _ _ _) (k.pending_append _ _).symm)

lemma surveyIndex_lifts (path : String) (id : NodeId) (s : Survey) :
    Lifts (fun a b => b = a.under k) (surveyIndex ctx path id s)
      (surveyIndex (ctx.under k) path id (s.under k)) := by
  rw [surveyIndex, surveyIndex, Survey.countNative_under]
  exact .ite (.ok rfl) (surveySlot_lifts hk path id _)

lemma survey_lifts (path : String) : ∀ (ids : List NodeId) (s : Survey),
    Journaled.Lifts (fun a b => b = a.under k) (survey ctx path ids s)
      (survey (ctx.under k) path ids (s.under k))
  | [], _ => .ok rfl
  | id :: rest, s => by
    refine .bind (Context.checkLineage_lifts hk _ _ _ _ _) fun _ => .guard (fun h => h) ?_
    have hcount : (if ((ctx.under k).catalog.node id).type = .reference then
          { s.under k with references := (s.under k).references + 1 } else s.under k) =
        (if (ctx.catalog.node id).type = .reference then
          { s with references := s.references + 1 } else s).under k := by
      change (if (ctx.catalog.node id).type = .reference then _ else _) = _
      split <;> rfl
    rw [hcount]
    refine .bindBy (.of (surveyIndex_lifts hk path id _)) fun a b hab => ?_
    rw [hab]
    exact survey_lifts path rest a

lemma sortKey_lifts (properties : List Candidate) (path : String) :
    Journaled.Lifts (fun a b => b = (a.1, k.pending a.2)) (sortKey ctx properties path)
      (sortKey (ctx.under k) properties path) := by
  unfold sortKey
  cases Candidate.find? properties path with
  | none => exact .error _ _ _
  | some p =>
    have hsurvey := survey_lifts hk path p.nodes {}
    rw [Survey.under_empty] at hsurvey
    refine .guard id (.bindBy hsurvey fun a b hab => ?_)
    subst hab
    refine .guard id (.guard id (.ok ?_))
    exact Prod.ext rfl (k.map_pending _ _)

lemma sortKeys_lifts (properties : List Candidate) : ∀ (fields : List (String × Direction))
    (keys : Fields) (checks : List (String × NodeId)),
    Journaled.Lifts (fun a b => b = (a.1, k.pending a.2))
      (sortKeys ctx properties fields keys checks)
      (sortKeys (ctx.under k) properties fields keys (k.pending checks))
  | [], keys, checks => .ok rfl
  | (path, d) :: rest, keys, checks => by
    refine .bindBy (sortKey_lifts hk properties path) fun a b hab => ?_
    obtain ⟨key, more⟩ := a
    subst hab
    have hrest := sortKeys_lifts properties rest (Fields.insert keys key d.toJson) (checks ++ more)
    rw [Checks.pending_append] at hrest
    exact hrest

lemma checkNativeIndexes_keeps (sort : Json) (checks : List (String × NodeId)) :
    Keeps (checkNativeIndexes ctx sort checks)
      (checkNativeIndexes (ctx.under k) sort (k.pending checks)) := by
  let own := sort.queryKeys ((Json.obj ctx.baseFind).queryKeys [])
  exact Context.demandIndexed_keeps hk .sortCoverage .sortNotIndexed
    (fun _ => ctx.priorIndexKeys.foldl Json.addKey own) checks fun _ _ => rfl

lemma compile_keeps (value : Json) : Keeps (compile ctx value) (compile (ctx.under k) value) := by
  refine .bind (Journaled.Lifts.of (parse_lifts hk value)).keeps fun fields =>
    .bind (Journaled.Lifts.of (candidates_lifts hk _)).keeps fun properties => ?_
  have hkeys := sortKeys_lifts hk properties fields [] []
  rw [Checks.pending_nil] at hkeys
  refine hkeys.bindKeeps fun a b hab => ?_
  obtain ⟨keys, checks⟩ := a
  subst hab
  exact .bind (checkNativeIndexes_keeps hk _ checks) fun _ => .refl _

end

end Conduit.Sort

namespace Conduit

lemma compileStage_keeps {ctx : Context} {k : Checks} (hk : k.LooserThan ctx.checks)
    (value : Json) : Keeps (compileStage ctx value) (compileStage (ctx.under k) value) := by
  refine .bind (.refl _) fun _ => ?_
  rw [Context.kind_under]
  cases ctx.kind with
  | «match» => exact Match.compile_keeps hk value
  | sort => exact Sort.compile_keeps hk value
  | group => exact (Group.compile_lifts hk value).keeps
  | project | addFields => exact (Project.compile_lifts hk value).keeps
  | unwind => exact (Unwind.compile_lifts hk value).keeps
  | limit | skip => exact (Bound.compile_lifts hk value).keeps

/-! ## Pipelines -/

namespace Pipeline

/-- The checks of a setting. -/
def Setting.checks (s : Setting) : Checks := s.options.checks s.policy s.indexes

/-- The setting with other checks. -/
def Setting.under (s : Setting) (k : Checks) : Setting :=
  { s with options := s.options.under k, policy := k.policy, indexes := k.indexes }

section

variable {s : Setting} {k : Checks} (hk : k.LooserThan s.checks)

include hk

lemma stagesOf_lifts (v : Json) :
    Lifts Eq (stagesOf s.options v) (stagesOf (s.under k).options v) :=
  .bind (.refl _) fun _ =>
    .guard ((Limits.LooserThan.of hk.relaxLimits).exceeds Limits.stages rfl) (.refl _)

lemma compileFrom_keeps : ∀ (stages : List PendingStage) (position : Nat) (p : Progress),
    Keeps (compileFrom s position stages p) (compileFrom (s.under k) position stages p)
  | [], _, _ => .refl _
  | stage :: rest, position, p => by
    have hctx : k.LooserThan
        (contextOf s position (rest.map PendingStage.kind) stage p).checks := hk
    exact .bind (compileStage_keeps hctx stage.value) fun _ => .bind (.refl _) fun next =>
      .bind (compileFrom_keeps rest (position + 1) next) fun _ => .refl _

lemma compileStages_keeps (v : Json) : Keeps (compileStages s v) (compileStages (s.under k) v) :=
  .bind (Journaled.Lifts.of (stagesOf_lifts hk v)).keeps fun stages =>
    .bind (.refl _) fun p => compileFrom_keeps hk stages 0 p

/-- **Looser checks keep what a pipeline compiles to**, its need of access included. -/
theorem looser_checks_keep_pipeline {v : Json} {p : CompiledPipeline}
    (h : (compile s v).result = .ok p) : (compile (s.under k) v).result = .ok p := by
  unfold compile at h ⊢
  dsimp only at h ⊢
  cases hrun : (compileStages s v).result with
  | error e =>
    rw [hrun] at h
    cases h
  | ok stages =>
    rw [hrun] at h
    obtain ⟨notes, hlifted, haccess⟩ :=
      compileStages_keeps hk v stages _ (Journaled.eq_ok_of_result hrun)
    rw [hlifted, ← h]
    exact congrArg (fun access => Except.ok (assemble stages access)) haccess

end

/-- Pets whose weight is for connected callers, with an index over code and weight. -/
def pets : Setting where
  catalog := ((Catalog.load (.obj [("objects", .arr [.obj [("name", .str "c_pet"),
    ("properties", .arr [ .obj [("name", .str "c_code"), ("type", .str "String")],
      .obj [("name", .str "c_weight"), ("type", .str "Number"), ("acl",
        .obj [("kind", .str "targeted"), ("level", .str "connected")])]])]])])).toOption).getD {}
  options := { object := "c_pet", allowedRestrictedOps := ["$ne"] }
  policy := .principal .read
  indexes := fun _ => [{ name := "weights", fields := ["c_code", "c_weight"] }]

/-- Every check of the pets lifted, and one more index. -/
def liftedChecks : Checks where
  strict := false
  relaxLimits := true
  unindexed := true
  allowSystemAccess := true
  allowedRestrictedOps := ["$ne", "*"]
  policy := .allowAll
  indexes := fun _ => [{ name := "weights", fields := ["c_code", "c_weight"] },
    { name := "codes", fields := ["c_code"] }]

/-- The weights of a code, by weight. -/
def weightsOfCode : Json := .arr [
    .obj [("$match", .obj [("c_code", .str "a"), ("c_weight", .obj [("$ne", .int 3)])])],
    .obj [("$sort", .obj [("c_weight", .int 1)])], .obj [("$project", .obj [("c_weight", .int 1)])]]

/-- The weights of a code compile to the same with every check lifted. -/
theorem weights_of_code_kept : liftedChecks.LooserThan pets.checks ∧
    ∃ p, (compile pets weightsOfCode).result = .ok p ∧
      (compile (pets.under liftedChecks) weightsOfCode).result = .ok p := by
  have hlooser : liftedChecks.LooserThan pets.checks := by
    refine ⟨fun h => Bool.noConfusion h, fun _ => rfl, fun _ => rfl, fun _ => rfl, ?_, trivial,
      fun _ => ?_⟩
    · decide
    · exact List.subset_append_left _ [_]
  obtain ⟨p, hp⟩ : ∃ p, (compile pets weightsOfCode).result = .ok p :=
    exists_eq_ok (by decide +kernel)
  exact ⟨hlooser, p, hp, looser_checks_keep_pipeline hlooser hp⟩

end Pipeline

end Conduit
