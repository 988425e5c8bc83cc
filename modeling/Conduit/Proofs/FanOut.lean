import Conduit.Proofs.ReferenceMarks
import Conduit.Proofs.Unindexed

/-!
# Conditions on several types

A path may mean nodes of several types.  Its literals are cast for each of them, and the condition
fans out over the distinct casts: a literal into `$in`, a comparison into `$or`, a list into one
list.  A document holds values of one stored type, so that casts for other types find nothing in
it (`Spreads.exists_iff`, `fan_out_exact`).

Only positive conditions may fan out.  An inequality holds as soon as one cast is absent, and a
list of required values demands the casts for every type at once; both are right only where the
nodes agree.
-/

namespace Conduit

open List Journaled Match.Builder

variable {type : PropertyType} {vs : Set Json} {w : Json}

/-! ## Stored types -/

/-- A literal is cast to the stored form of the type, or stands for itself whatever the type. -/
lemma castForQuery_stored (htype : type ∈ storedTypes) {v : Json} {path : String}
    (h : castForQuery type v path = .ok w) :
    HasStoredType type w ∨ ∀ t, castForQuery t v path = .ok w := by
  unfold castForQuery at h
  split at h
  · next hself =>
    refine .inr fun t => ?_
    rw [castForQuery, if_pos hself]
    exact h
  · split at h
    · next hcast =>
      cases h
      exact .inl (Cast.to?_stored htype hcast)
    · cases h

/-- What an engine does with values of one stored type: those of other types are neither equal to
them nor ordered with them. -/
structure StoredAs (d : Document) (vs : Set Json) (type : PropertyType) : Prop where
  typed : ∀ v ∈ vs, ∀ t, HasStoredType t v → t = type
  ordered : ∀ op ∈ [MatchOp.gt, .gte, .lt, .lte], ∀ w t, HasStoredType t w → t ≠ type →
    ¬d.test op.key w vs
  differs : ∀ w, d.test "$ne" w vs ↔ w ∉ vs
  all : ∀ ws, d.test "$all" (.arr ws) vs ↔ ∀ w ∈ ws, w ∈ vs

/-- Values of a fan-out as one type sees them: its own casts, and those for other types. -/
structure Spreads (values casts : List Json) (type : PropertyType) : Prop where
  own : casts ⊆ values
  other : ∀ w ∈ values, w ∈ casts ∨ ∃ t, HasStoredType t w ∧ t ≠ type

/-- **Casts for other types decide nothing**, if no value of another type passes. -/
lemma Spreads.exists_iff {values casts : List Json} (h : Spreads values casts type)
    {P : Json → Prop} (hother : ∀ w t, HasStoredType t w → t ≠ type → ¬P w) :
    (∃ w ∈ values, P w) ↔ ∃ w ∈ casts, P w := by
  constructor
  · rintro ⟨w, hw, hP⟩
    rcases h.other w hw with hmem | ⟨t, ht, hne⟩
    · exact ⟨w, hmem, hP⟩
    · exact absurd hP (hother w t ht hne)
  · rintro ⟨w, hw, hP⟩
    exact ⟨w, h.own hw, hP⟩

lemma StoredAs.not_mem {d : Document} (h : StoredAs d vs type) (w : Json)
    (t : PropertyType) (ht : HasStoredType t w) (hne : t ≠ type) : w ∉ vs :=
  fun hw => hne (h.typed w hw t ht)

namespace Match

/-! ## The casts of a condition -/

/-- The literals of a condition cast for a node. -/
def castsFor (ctx : Context) (path : String) (arg : Operand) (id : NodeId) :
    Except CompileError (List Json) :=
  (rawValues arg).mapM fun raw => castForQuery (ctx.catalog.node id).type raw.1 path

/-- The values that a condition fans out over: the distinct casts for all nodes. -/
def FansOut (ctx : Context) (trail : Trail) (arg : Operand) (values : List Json) : Prop :=
  ∃ casts, (trailNodes trail).mapM (castsFor ctx trail.fullpath arg) = .ok casts ∧
    (trailNodes trail ≠ [] → values = Json.distinct casts.flatten)

/-- What a condition may compare a field with. -/
def Compared (op : Option MatchOp) (arg : Operand) : Prop := match op with
  | none => ∃ w, arg = .simple w ∧ w.isArr = false ∧ w.isObj = false
  | some .oneOf | some .noneOf | some .all =>
    ∃ elements, arg = .array elements ∧ ∀ e ∈ elements, ∃ w, e = .simple w ∧ w.IsLiteral
  | some _ => ∃ w, arg = .simple w ∧ w.IsLiteral

/-- The operators that compare a field with literals; none stands for equality. -/
def comparedOps : List (Option MatchOp) :=
  [none, some .eq, some .ne, some .gt, some .gte, some .lt, some .lte, some .oneOf, some .noneOf,
    some .all]

lemma mem_of_mapM {α β : Type} {f : α → Except CompileError β} {xs : List α} {ys : List β}
    (h : xs.mapM f = .ok ys) {y : β} : y ∈ ys ↔ ∃ x ∈ xs, f x = .ok y := by
  rw [← filterMap_of_mapM h, mem_filterMap]
  refine exists_congr fun x => and_congr_right fun _ => ?_
  cases f x with
  | error e => simp [Except.toOption]
  | ok z => simp [Except.toOption]

variable {op : Option MatchOp} {arg : Operand}

lemma Compared.array {op : MatchOp} (h : Compared (some op) arg)
    (hlist : op = .oneOf ∨ op = .noneOf ∨ op = .all) :
    ∃ elements, arg = .array elements ∧ ∀ e ∈ elements, ∃ w, e = .simple w ∧ w.IsLiteral := by
  rcases hlist with rfl | rfl | rfl <;> exact h

lemma Compared.simple {op : MatchOp} (h : Compared (some op) arg) (hsimple : op.isSimple = true) :
    ∃ w, arg = .simple w ∧ w.IsLiteral := by
  cases op
  case oneOf | noneOf | all => cases hsimple
  all_goals exact h

lemma Compared.exists_simple (h : Compared op arg) (hop : op ∈ comparedOps)
    (hlist : op ∉ [some .oneOf, some .noneOf, some .all]) : ∃ w, arg = .simple w := by
  cases op with
  | none =>
    obtain ⟨w, rfl, -⟩ := h
    exact ⟨w, rfl⟩
  | some op =>
    have hsimple : op.isSimple = true := by
      revert hop hlist
      cases op <;> decide
    obtain ⟨w, rfl, -⟩ := h.simple hsimple
    exact ⟨w, rfl⟩

lemma Compared.literal (h : Compared op arg) :
    ∀ raw ∈ rawValues arg, raw.2 = false ∧ raw.1.IsLiteral := by
  intro raw hraw
  unfold Compared at h
  split at h
  · obtain ⟨w, rfl, harr, hobj⟩ := h
    cases mem_singleton.1 hraw
    exact ⟨rfl, isLiteral_of_scalar harr hobj⟩
  iterate 3
    · obtain ⟨elements, rfl, helements⟩ := h
      obtain ⟨e, he, rfl⟩ := mem_map.1 hraw
      obtain ⟨w, rfl, hw⟩ := helements e he
      exact ⟨rfl, hw⟩
  · obtain ⟨w, rfl, hw⟩ := h
    cases mem_singleton.1 hraw
    exact ⟨rfl, hw⟩

section

variable {ctx : Context} {trail : Trail} {values : List Json}

variable {id : NodeId} {casts : List Json}

section

variable (h : FansOut ctx trail arg values)

include h

lemma FansOut.exists_casts (hid : id ∈ trailNodes trail) :
    ∃ casts, castsFor ctx trail.fullpath arg id = .ok casts := by
  obtain ⟨casts, hcasts, -⟩ := h
  obtain ⟨cs, -, hok⟩ := exists_of_mapM hcasts hid
  exact ⟨cs, hok⟩

variable (harg : Compared op arg)

include harg

lemma FansOut.mem_iff (hnodes : trailNodes trail ≠ []) :
    w ∈ values ↔ ∃ id ∈ trailNodes trail, ∃ raw ∈ rawValues arg,
      castForQuery (ctx.catalog.node id).type raw.1 trail.fullpath = .ok w := by
  obtain ⟨casts, hcasts, hvalues⟩ := h
  have hflat : ∀ {w}, w ∈ casts.flatten ↔ ∃ id ∈ trailNodes trail, ∃ raw ∈ rawValues arg,
        castForQuery (ctx.catalog.node id).type raw.1 trail.fullpath = .ok w := by
    intro w
    rw [mem_flatten]
    constructor
    · rintro ⟨cs, hcs, hw⟩
      obtain ⟨id, hid, hok⟩ := (mem_of_mapM hcasts).1 hcs
      exact ⟨id, hid, (mem_of_mapM hok).1 hw⟩
    · rintro ⟨id, hid, hraw⟩
      obtain ⟨cs, hcs, hok⟩ := exists_of_mapM hcasts hid
      exact ⟨cs, hcs, (mem_of_mapM hok).2 hraw⟩
  rw [hvalues hnodes, Json.mem_distinct, hflat]
  intro v hv
  obtain ⟨id, -, raw, hraw, hok⟩ := hflat.1 hv
  exact castForQuery_isLiteral (harg.literal raw hraw).2 hok

/-- **A node finds its own casts in a fan-out, and casts of other stored types.** -/
lemma FansOut.spreads (htypes : ∀ id ∈ trailNodes trail, (ctx.catalog.node id).type ∈ storedTypes)
    (hid : id ∈ trailNodes trail) (hcasts : castsFor ctx trail.fullpath arg id = .ok casts) :
    Spreads values casts (ctx.catalog.node id).type where
  own := by
    intro w hw
    exact (h.mem_iff harg (ne_nil_of_mem hid)).2 ⟨id, hid, (mem_of_mapM hcasts).1 hw⟩
  other := by
    intro w hw
    obtain ⟨n, hn, raw, hraw, hok⟩ := (h.mem_iff harg (ne_nil_of_mem hid)).1 hw
    rcases castForQuery_stored (htypes n hn) hok with hstored | hself
    · by_cases heq : (ctx.catalog.node n).type = (ctx.catalog.node id).type
      · exact .inl ((mem_of_mapM hcasts).2 ⟨raw, hraw, by rw [← heq, hok]⟩)
      · exact .inr ⟨_, hstored, heq⟩
    · exact .inl ((mem_of_mapM hcasts).2 ⟨raw, hraw, hself _⟩)

/-- Where all nodes agree, a fan-out has their casts only. -/
lemma FansOut.subset_of_agree (hnodes : trailNodes trail ≠ [])
    (hagree : ∀ id ∈ trailNodes trail, castsFor ctx trail.fullpath arg id = .ok casts) :
    values ⊆ casts := by
  intro w hw
  obtain ⟨id, hid, hraw⟩ := (h.mem_iff harg hnodes).1 hw
  exact (mem_of_mapM (hagree id hid)).2 hraw

end

lemma castsFor_simple {path : String} (h : castsFor ctx path (.simple w) id = .ok casts) :
    ∃ c, casts = [c] := by
  simp only [castsFor, rawValues, mapM_cons, mapM_nil, except_bind_ok_iff] at h
  obtain ⟨c, -, _, hnil, h⟩ := h
  cases hnil
  exact ⟨c, (Except.ok.inj h).symm⟩

end

/-! ## Casting without an index -/

section

variable {b : Builder}

lemma mapM_congr {α β : Type} {f g : α → Except CompileError β} {xs : List α}
    (h : ∀ x ∈ xs, f x = g x) : xs.mapM f = xs.mapM g := by
  induction xs with
  | nil => rfl
  | cons x rest ih =>
    rw [mapM_cons, mapM_cons, h x mem_cons_self, ih fun y hy => h y (mem_cons_of_mem _ hy)]

/-- **Casting without an index** gives the values of the fan-out. -/
lemma castIntoQuery_unindexed {trail : Trail} {format : Json → Json} {values : List Json}
    (hindex : b.ctx.usesIndex = false) (harg : Compared op arg)
    (h : (b.castIntoQuery trail arg format .stored).result = .ok values) :
    FansOut b.ctx trail arg values := by
  have hvars : (rawValues arg).any Prod.snd = false := by
    rw [any_eq_false]
    intro raw hmem
    rw [(harg.literal raw hmem).1]
    exact Bool.false_ne_true
  simp only [castIntoQuery, hvars, hindex, Bool.false_eq_true, if_false, Bool.false_and,
    result_bind_ok_iff] at h
  obtain ⟨found, hproperty, h⟩ := h
  cases found with
  | none => cases h
  | some c =>
    have hnodes := trailNodes_eq hproperty
    dsimp only at h
    split at h
    · next hempty =>
      rw [List.isEmpty_iff] at hempty
      cases h
      refine ⟨[], ?_, fun hne => absurd (hnodes.trans hempty) hne⟩
      rw [hnodes, hempty]
      rfl
    · obtain ⟨⟨casts, slotted⟩, hrun, h⟩ := result_bind_ok_iff.1 h
      obtain ⟨rfl, hcasts⟩ := castNodes_unindexed hrun
      refine ⟨casts, ?_, fun _ => ?_⟩
      · rw [hnodes, ← hcasts]
        refine mapM_congr fun id _ => mapM_congr fun raw hraw => ?_
        rw [castValue, (harg.literal raw hraw).1]
        rfl
      · simp only [isEmpty_nil, Bool.not_true, Bool.false_eq_true, if_false] at h
        split at h <;> cases h <;> rfl

/-! ## Building a condition -/

/-- The condition of a field, with or without an operator. -/
def fieldCondition (op : Option MatchOp) (arg : Operand) : Operand := match op with
  | none => arg
  | some op => .expression [(op.key, arg)]

/-- The field of a match that has no other condition. -/
def fieldTrail (ctx : Context) (f : String) (op : Option MatchOp) (arg : Operand) : Trail :=
  (Trail.root ctx (.expression [(f, fieldCondition op arg)])).child ctx 0 0 f (fieldCondition op arg)

/-- What is compared in such a match. -/
def conditionTrail (ctx : Context) (f : String) (op : Option MatchOp) (arg : Operand) : Trail :=
  match op with
  | none => fieldTrail ctx f none arg
  | some op => (fieldTrail ctx f (some op) arg).child ctx 0 0 op.key arg

lemma fieldTrail_ne_nil (ctx : Context) (f : String) (op : Option MatchOp) (arg : Operand) :
    fieldTrail ctx f op arg ≠ [] := cons_ne_nil _ _

lemma matchOp?_conditionTrail (ctx : Context) {f : String} (hf : Path.isOperator f = false)
    (op : Option MatchOp) (arg : Operand) : (conditionTrail ctx f op arg).site.matchOp? = op := by
  cases op with
  | none =>
    exact MatchOp.ofKey?_of_not_isOperator hf
  | some op =>
    exact MatchOp.ofKey?_key op

/-- A comparison with one of several values. -/
def alternatives (f : String) (op : MatchOp) : List Json → Json
  | [w] => single f (single op.key w)
  | values => single "$or" (.arr (values.map fun w => single f (single op.key w)))

/-- The query of a condition that fans out over values. -/
def fanned (f : String) (op : Option MatchOp) (values : List Json) : Json := match op with
  | none => single f (oneOrMany "$in" values)
  | some op =>
    if op.isSimple then alternatives f op values else single f (single op.key (.arr values))

/-- What an operator of a fan-out is built into: a condition of the field, or one that stands in
its place. -/
def Fans (f : String) (op : MatchOp) (values : List Json) (built : Option Built) : Prop :=
  (∃ w, built = some (.value (single op.key w)) ∧
    fanned f (some op) values = single f (single op.key w)) ∨
  ∃ key v, built = some (.replace (.value (single key v))) ∧
    fanned f (some op) values = single key v

lemma buildKey_stored (hrefs : b.references = []) (trail : Trail) :
    b.buildKey trail = trail.site.key := by
  rw [buildKey, isReference, hrefs]
  rfl

section

variable {trail : Trail} {arg : Operand} {op : MatchOp}
  {built : Option Built} (hindex : b.ctx.usesIndex = false)

include hindex

lemma buildSimple_fans (hrefs : b.references = []) (hsimple : op.isSimple = true)
    (hpresent : op ≠ .present) (harg : Compared (some op) arg)
    (h : (b.buildSimple trail op arg {}).result = .ok built) :
    ∃ values, FansOut b.ctx trail arg values ∧ Fans trail.parent.site.key op values built := by
  simp only [buildSimple, if_neg hpresent, result_bind_ok_iff] at h
  obtain ⟨values, hrun, h⟩ := h
  have hfans := castIntoQuery_unindexed hindex harg hrun
  split at h
  · next w =>
    cases h
    exact ⟨[w], hfans, .inl ⟨w, rfl, if_pos hsimple⟩⟩
  · next hmany =>
    simp only [isEmpty_nil, Bool.not_true, Bool.false_and, Bool.false_eq_true, if_false,
      buildKey_stored hrefs] at h
    cases h
    refine ⟨values, hfans, .inr ⟨_, _, rfl, ?_⟩⟩
    rw [fanned, if_pos hsimple, alternatives]
    exact hmany

omit hindex in
lemma fansOut_nil (ctx : Context) (trail : Trail) : FansOut ctx trail (.array []) [] := by
  refine ⟨(trailNodes trail).map fun _ => [], ?_, fun _ => ?_⟩
  · exact mapM_pure
  · rw [flatten_eq_nil_iff.2 fun cs hcs => ?_]
    · rfl
    · obtain ⟨_, -, rfl⟩ := mem_map.1 hcs
      rfl

lemma buildLeaf_fans (hlist : op = .oneOf ∨ op = .noneOf ∨ op = .all)
    (harg : Compared (some op) arg) (hlocal : ∀ id ∈ trailNodes trail ++ trailNodes trail.parent,
      (b.ctx.catalog.node id).localized = false)
    (h : (b.buildLeaf trail op arg).result = .ok built) : ∃ values, FansOut b.ctx trail arg values ∧
      Fans trail.parent.site.key op values built := by
  have hfans : ∀ values, Fans trail.parent.site.key op values
      (some (.value (single op.key (.arr values)))) := by
    refine fun values => .inl ⟨.arr values, rfl, ?_⟩
    rcases hlist with rfl | rfl | rfl <;> rfl
  have hempty : arg.elements.isEmpty = true → FansOut b.ctx trail arg [] := by
    intro hnil
    obtain ⟨elements, rfl, -⟩ := harg.array hlist
    rw [Operand.elements, List.isEmpty_iff] at hnil
    rw [hnil]
    exact fansOut_nil b.ctx trail
  rcases hlist with rfl | rfl | rfl
  · simp only [buildLeaf] at h
    split at h
    · next hnil =>
      cases h
      exact ⟨[], hempty hnil, hfans []⟩
    · simp only [result_bind_ok_iff] at h
      obtain ⟨values, hrun, found, hfound, h⟩ := h
      obtain ⟨rfl, -⟩ := localized_ok (fun id hid => hlocal id (mem_append_right _ hid))
        (eq_ok_of_result hfound)
      cases h
      exact ⟨values, castIntoQuery_unindexed hindex harg hrun, hfans values⟩
  · simp only [buildLeaf] at h
    split at h
    · next hnil =>
      cases h
      exact ⟨[], hempty hnil, hfans []⟩
    · simp only [result_bind_ok_iff] at h
      obtain ⟨values, hrun, h⟩ := h
      cases h
      exact ⟨values, castIntoQuery_unindexed hindex harg hrun, hfans values⟩
  · simp only [buildLeaf, result_bind_ok_iff] at h
    obtain ⟨values, hrun, found, hfound, h⟩ := h
    obtain ⟨rfl, -⟩ := localized_ok (fun id hid => hlocal id (mem_append_left _ hid))
      (eq_ok_of_result hfound)
    cases h
    exact ⟨values, castIntoQuery_unindexed hindex harg hrun, hfans values⟩

/-- **An operator of a field fans out over the casts of its literals.** -/
lemma buildOperator_fans (hrefs : b.references = []) (hop : some op ∈ comparedOps)
    (hsite : trail.site.matchOp? = some op) (harg : Compared (some op) arg)
    (hlocal : ∀ id ∈ trailNodes trail ++ trailNodes trail.parent,
      (b.ctx.catalog.node id).localized = false)
    (h : (b.buildComponent trail {} arg).result = .ok built) :
    ∃ values, FansOut b.ctx trail arg values ∧ Fans trail.parent.site.key op values built := by
  cases hsimple : op.isSimple with
  | true =>
    have hpresent : op ≠ .present := by
      rintro rfl
      revert hop
      decide
    obtain ⟨w, rfl, -⟩ := harg.simple hsimple
    simp only [buildComponent, hsite, hsimple, if_true] at h
    exact buildSimple_fans hindex hrefs hsimple hpresent harg h
  | false =>
    have hlist : op = .oneOf ∨ op = .noneOf ∨ op = .all := by
      revert hop hsimple
      cases op <;> decide
    obtain ⟨elements, rfl, helements⟩ := harg.array hlist
    have hplain : elements.any Operand.isExpression = false := by
      rw [any_eq_false]
      intro e he
      obtain ⟨w, rfl, -⟩ := helements e he
      exact Bool.false_ne_true
    have h : (b.buildLeaf trail op (.array elements)).result = .ok built := by
      rcases hlist with rfl | rfl | rfl <;>
        simpa only [buildComponent, hsite, Option.isSome_none, Bool.false_eq_true,
          if_false, hplain, Bool.and_false] using h
    exact buildLeaf_fans hindex hlist harg hlocal h

end

/-- **A match of one condition is built into its fan-out.** -/
lemma buildNatural_fans {f : String} {natural : Fields}
    (hindex : b.ctx.usesIndex = false) (hrefs : b.references = [])
    (hf : Path.isOperator f = false) (hop : op ∈ comparedOps) (harg : Compared op arg)
    (hlocal : ∀ id ∈ trailNodes (conditionTrail b.ctx f op arg) ++ trailNodes (fieldTrail b.ctx f op arg),
      (b.ctx.catalog.node id).localized = false)
    (h : (b.buildNatural (Trail.root b.ctx (.expression [(f, fieldCondition op arg)]))
      (.expression [(f, fieldCondition op arg)])).result = .ok natural) :
    ∃ values, FansOut b.ctx (conditionTrail b.ctx f op arg) arg values ∧
      .obj natural = fanned f op values := by
  have hsite : (fieldTrail b.ctx f op arg).site.key = f := by
    rfl
  have hfield : (fieldTrail b.ctx f op arg).site.matchOp? = none := by
    exact MatchOp.ofKey?_of_not_isOperator hf
  simp only [buildNatural, Operand.children, buildChildren, result_bind_ok_iff] at h
  obtain ⟨around, ⟨built, hbuilt, haround⟩, hnatural⟩ := h
  cases haround
  cases hnatural
  rw [← fieldTrail] at hbuilt
  cases op with
  | none =>
    obtain ⟨w, rfl, -, -⟩ := id harg
    simp only [fieldCondition, buildComponent, hfield, result_bind_ok_iff] at hbuilt
    obtain ⟨values, hrun, found, hfound, hbuilt⟩ := hbuilt
    obtain ⟨rfl, -⟩ := localized_ok (fun id hid => hlocal id (mem_append_left _ hid))
      (eq_ok_of_result hfound)
    cases hbuilt
    refine ⟨values, castIntoQuery_unindexed hindex harg hrun, ?_⟩
    rw [buildKey_stored hrefs, hsite]
    rfl
  | some op =>
    have hparent : (conditionTrail b.ctx f (some op) arg).parent = fieldTrail b.ctx f (some op) arg :=
      parent_child (fieldTrail_ne_nil b.ctx f (some op) arg) 0 0 op.key arg
    have hopsite := matchOp?_conditionTrail b.ctx hf (some op) arg
    simp only [fieldCondition, buildComponent, hfield, buildChildren, result_bind_ok_iff] at hbuilt
    obtain ⟨inner, ⟨part, hpart, hinner⟩, hbuilt⟩ := hbuilt
    cases hinner
    obtain ⟨values, hvalues, hfans⟩ :=
      buildOperator_fans hindex hrefs hop hopsite harg hlocal hpart
    rw [hparent, hsite] at hfans
    rcases hfans with ⟨w, rfl, hfanned⟩ | ⟨key, v, rfl, hfanned⟩
    · have hbuilt : (b.buildField (fieldTrail b.ctx f (some op) arg)
          (some (.value (single op.key w)))).result = .ok built := hbuilt
      simp only [buildField, result_bind_ok_iff] at hbuilt
      obtain ⟨found, hfound, hbuilt⟩ := hbuilt
      obtain ⟨rfl, -⟩ := localized_ok
        (fun id hid => hlocal id (mem_append_right _ (hparent ▸ hid))) (eq_ok_of_result hfound)
      cases hbuilt
      refine ⟨values, hvalues, ?_⟩
      rw [buildKey_stored hrefs, hsite, hfanned]
      rfl
    · have hbuilt : (b.buildField (fieldTrail b.ctx f (some op) arg)
          (some (.replace (.value (single key v))))).result = .ok built := hbuilt
      cases hbuilt
      exact ⟨values, hvalues, hfanned.symm⟩

end

/-! ## Checking a condition -/

section

variable {ctx : Context} {trail : Trail} {findings : Findings} {notes : List Event}

lemma checkProperty_references
    (hnodes : ∀ id ∈ trailNodes trail, (ctx.catalog.node id).type ≠ .reference)
    (h : checkProperty ctx trail = ⟨.ok findings, notes⟩) : findings.references = [] := by
  obtain ⟨-, -, -, hmarks⟩ := checkProperty_marks h
  refine eq_nil_iff_forall_not_mem.2 fun a ha => ?_
  obtain ⟨-, hne, hall⟩ := hmarks a ha
  obtain ⟨id, hid⟩ := exists_mem_of_ne_nil _ hne
  exact hnodes id hid (hall id hid)

lemma checkComponent_references (hop : op ∈ comparedOps)
    (harg : Compared op arg) (hsite : trail.site.matchOp? = op)
    (hnodes : ∀ id ∈ trailNodes trail, (ctx.catalog.node id).type ≠ .reference)
    (h : checkComponent ctx trail arg = ⟨.ok findings, notes⟩) : findings.references = [] := by
  have hproperty := fun h => @checkProperty_references ctx trail findings notes hnodes h
  cases op with
  | none =>
    obtain ⟨w, rfl, -⟩ := harg
    simp only [checkComponent, hsite] at h
    exact hproperty h
  | some op =>
    cases op
    case oneOf | noneOf =>
      obtain ⟨elements, rfl, -⟩ := harg
      simp only [checkComponent, hsite] at h
      split at h
      · cases h
        rfl
      · exact hproperty h
    case all =>
      obtain ⟨elements, rfl, helements⟩ := harg
      simp only [checkComponent, hsite] at h
      cases elements with
      | nil =>
        cases h
        rfl
      | cons e rest =>
        obtain ⟨w, rfl, -⟩ := helements e mem_cons_self
        exact hproperty h
    case eq | ne | gt | gte | lt | lte =>
      obtain ⟨w, rfl, -⟩ := harg
      simp only [checkComponent, hsite] at h
      exact hproperty h
    all_goals exact absurd hop (by decide)

lemma validate_references {f : String}
    (hf : Path.isOperator f = false) (hop : op ∈ comparedOps) (harg : Compared op arg)
    (hnodes : ∀ id ∈ trailNodes (conditionTrail ctx f op arg),
      (ctx.catalog.node id).type ≠ .reference)
    (h : validate ctx (Trail.root ctx (.expression [(f, fieldCondition op arg)]))
      (.expression [(f, fieldCondition op arg)]) = ⟨.ok findings, notes⟩) :
    findings.references = [] := by
  simp only [validate, Operand.children, checkChildren, bind_ok_iff] at h
  obtain ⟨first, m, n, hfirst, ⟨last, m', n', hlast, hout, -⟩, -⟩ := h
  cases hlast
  cases hout
  show first.references ++ [] = []
  rw [append_nil]
  have hsite := matchOp?_conditionTrail ctx hf op arg
  cases op with
  | none => exact checkComponent_references hop harg hsite hnodes hfirst
  | some op =>
    simp only [fieldCondition, checkComponent, checkChildren, bind_ok_iff] at hfirst
    obtain ⟨inner, m₁, n₁, hinner, ⟨last, m₂, n₂, hlast, hout, -⟩, -⟩ := hfirst
    cases hlast
    cases hout
    show inner.references ++ [] = []
    rw [append_nil]
    exact checkComponent_references hop harg hsite hnodes hinner

end

/-! ## What a fan-out means -/

section

open Document

variable {d : Document} {f : String} {values : List Json}

lemma meets_single (hf : Path.isOperator f = false) (v : Json) :
    d.meets (single f v) ↔ d.meetsValue (d.values f) v := by
  have hne : ∀ key, Path.isOperator key = true → f ≠ key := by
    rintro key hkey rfl
    rw [hf] at hkey
    cases hkey
  rw [single, meets, meetsFields_singleton,
    meetsKey_field (hne "$and" (by decide +kernel)) (hne "$or" (by decide +kernel))]

lemma meetsValue_single (op : MatchOp) (w : Json) :
    d.meetsValue vs (single op.key w) ↔ d.meetsOperator vs op.key w := by
  have hop : holdsOperators [(op.key, w)] = true := by
    cases op <;> rfl
  simp [single, meetsValue, hop]

lemma meetsValue_plain (h : isPlain w = true) : d.meetsValue vs w ↔ w ∈ vs := by
  cases w with
  | obj fs =>
    match fs, h with
    | [(key, v)], h =>
      have hnone : holdsOperators [(key, v)] = false := by
        simpa [isPlain, holdsOperators] using h
      simp [meetsValue, hnone]
  | _ => rfl

variable (hf : Path.isOperator f = false)

include hf

/-- A literal fans out into the values it may be equal to. -/
lemma meets_fanned_literal (hplain : ∀ w ∈ values, isPlain w = true) :
    d.meets (fanned f none values) ↔ ∃ w ∈ values, w ∈ d.values f := by
  rw [fanned, meets_single hf]
  have hmany := @meetsValue_oneOf values d (d.values f)
  unfold oneOrMany
  split
  · next w =>
    rw [meetsValue_plain (hplain w mem_cons_self)]
    simp
  · exact hmany

lemma meets_fanned_simple {op : MatchOp} (hop : op.isSimple = true) :
    d.meets (fanned f (some op) values) ↔ ∃ w ∈ values, d.meetsOperator (d.values f) op.key w := by
  rw [fanned, if_pos hop]
  unfold alternatives
  split
  · next w =>
    rw [meets_single hf, meetsValue_single]
    simp
  · rw [single, meets, meetsFields_singleton, meetsKey_or]
    simp only [mem_map, exists_exists_and_eq_and, meets_single hf, meetsValue_single]

lemma meets_fanned_list {op : MatchOp} (hop : op.isSimple = false) :
    d.meets (fanned f (some op) values) ↔ d.meetsOperator (d.values f) op.key (.arr values) := by
  rw [fanned, if_neg (by rw [hop]; exact Bool.false_ne_true), meets_single hf, meetsValue_single]

/-- The condition as cast for one node. -/
def castCondition (op : Option MatchOp) (casts : List Json) : Json := match op with
  | some .all => single "$all" (.arr casts)
  | op => comparison op casts

/-- **Of values of one type a fan-out says what the casts for this type say**, where inequalities
and lists of required values have no other casts. -/
lemma meets_fanned_iff {casts : List Json} (hop : op ∈ comparedOps)
    (hspreads : Spreads values casts type)
    (hagree : op = some .ne ∨ op = some .all → values ⊆ casts)
    (hone : op ∉ [some .oneOf, some .noneOf, some .all] → ∃ c, casts = [c])
    (hplain : op = none → ∀ w ∈ values, isPlain w = true) (hd : StoredAs d (d.values f) type) :
    d.meets (fanned f op values) ↔ d.meetsValue (d.values f) (castCondition op casts) := by
  cases op with
  | none =>
    obtain ⟨c, rfl⟩ := hone (by decide)
    have hc := hplain rfl c (hspreads.own mem_cons_self)
    rw [meets_fanned_literal hf (hplain rfl), hspreads.exists_iff hd.not_mem]
    simp only [mem_singleton, exists_eq_left]
    exact (meetsValue_plain hc).symm
  | some op =>
    -- a comparison holds of one of the values only if it holds of the cast for this type
    have hsimple : op.isSimple = true → op ∉ [MatchOp.oneOf, .noneOf, .all] →
        (∀ w t, HasStoredType t w → t ≠ type → ¬d.meetsOperator (d.values f) op.key w) →
        (d.meets (fanned f (some op) values) ↔
          d.meetsValue (d.values f) (castCondition (some op) casts)) := by
      intro hsimple hnot hother
      obtain ⟨c, rfl⟩ := hone (by simpa using hnot)
      have hcondition : castCondition (some op) [c] = single op.key c := by
        rw [castCondition, comparison_isSimple hsimple]
        · rfl
        · rintro ⟨⟩
          exact hnot (by simp)
      rw [hcondition, meets_fanned_simple hf hsimple, hspreads.exists_iff hother, meetsValue_single]
      simp
    cases op
    case eq => exact hsimple rfl (by decide) hd.not_mem
    case gt => exact hsimple rfl (by decide) (hd.ordered .gt (by decide))
    case gte => exact hsimple rfl (by decide) (hd.ordered .gte (by decide))
    case lt => exact hsimple rfl (by decide) (hd.ordered .lt (by decide))
    case lte => exact hsimple rfl (by decide) (hd.ordered .lte (by decide))
    case ne =>
      obtain ⟨c, rfl⟩ := hone (by decide)
      have hvalues : ∀ w, w ∈ values ↔ w = c := fun w =>
        ⟨fun hw => mem_singleton.1 (hagree (.inl rfl) hw),
          fun hw => hspreads.own (hw ▸ mem_cons_self)⟩
      rw [meets_fanned_simple hf rfl]
      simp only [hvalues, exists_eq_left]
      exact (meetsValue_single .ne c).symm
    case oneOf =>
      rw [meets_fanned_list hf rfl]
      exact (hspreads.exists_iff hd.not_mem).trans meetsValue_oneOf.symm
    case noneOf =>
      have hsome := not_congr (hspreads.exists_iff hd.not_mem)
      simp only [not_exists, not_and] at hsome
      rw [meets_fanned_list hf rfl]
      exact hsome.trans meetsValue_noneOf.symm
    case all =>
      have hvalues : ∀ w, w ∈ values ↔ w ∈ casts := fun w =>
        ⟨fun hw => hagree (.inr rfl) hw, fun hw => hspreads.own hw⟩
      rw [meets_fanned_list hf rfl]
      refine (hd.all values).trans (Iff.trans ?_ (meetsValue_single .all (.arr casts)).symm)
      simp only [hvalues]
      exact (hd.all casts).symm
    all_goals exact absurd hop (by decide)

end

/-! ## Compiling a condition -/

/-- Whether a value is a literal or a list of literals. -/
def holdsLiterals : Operand → Bool
  | .simple _ => true
  | .array elements => elements.all Operand.isSimple
  | _ => false

section

variable {ctx : Context} {value : Json} {f : String} {out : StageOutput} {notes : List Event}

lemma compared_of_parse (hvars : ctx.options.withVariables = false) (hop : op ∈ comparedOps)
    (harg : holdsLiterals arg = true)
    (hparse : parse ctx value = .ok (.expression [(f, fieldCondition op arg)])) :
    Path.isOperator f = false ∧ Compared op arg := by
  obtain ⟨cs, hcs, -, hopen⟩ := parse_open hparse
  cases hcs
  rw [hvars] at hopen
  have hopen := hopen.1
  cases op with
  | none =>
    cases arg with
    | simple w => exact ⟨hopen.1.1, w, rfl, hopen.2⟩
    | array elements =>
      obtain ⟨-, hne, hamong⟩ := hopen
      obtain ⟨e, rest, rfl⟩ := exists_cons_of_ne_nil hne
      have he : e.isSimple = true := all_eq_true.1 harg e mem_cons_self
      cases e with
      | simple w => cases hamong
      | _ => cases he
    | _ => cases harg
  | some op =>
    obtain ⟨hkey, -, hvalue⟩ := hopen
    refine ⟨hkey.1, ?_⟩
    obtain ⟨op', hop', hvalue⟩ := hvalue (op.key, arg) mem_cons_self
    rw [MatchOp.ofKey?_key] at hop'
    cases hop'
    cases arg with
    | simple w =>
      cases op
      case oneOf | noneOf | all => cases hvalue
      case eq | ne | gt | gte | lt | lte => exact ⟨w, rfl, hvalue⟩
      all_goals exact absurd hop (by decide)
    | array elements =>
      have hsimple : ∀ e ∈ elements, e.isSimple = true := all_eq_true.1 harg
      rcases hvalue with ⟨hlist, helements⟩ | ⟨rfl, helements⟩
      · have hliteral : ∀ e ∈ elements, ∃ w, e = .simple w ∧ w.IsLiteral := fun e he =>
          (helements e he).elim id fun hvar => nomatch hvar.1
        rcases hlist with rfl | rfl <;> exact ⟨elements, rfl, hliteral⟩
      · refine ⟨elements, rfl, fun e he => ?_⟩
        have hscalar := helements e he
        have hsimple := hsimple e he
        cases e with
        | simple w => exact ⟨w, rfl, isLiteral_of_scalar hscalar.1 hscalar.2⟩
        | _ => cases hsimple
    | _ => cases harg

lemma compile_fans (hindex : ctx.usesIndex = false) (hf : Path.isOperator f = false)
    (hop : op ∈ comparedOps) (harg : Compared op arg)
    (hparse : parse ctx value = .ok (.expression [(f, fieldCondition op arg)]))
    (hnodes : ∀ id ∈ trailNodes (conditionTrail ctx f op arg) ++ trailNodes (fieldTrail ctx f op arg),
      (ctx.catalog.node id).localized = false ∧ (ctx.catalog.node id).type ∈ storedTypes)
    (h : compile ctx value = ⟨.ok out, notes⟩) :
    ∃ values, FansOut ctx (conditionTrail ctx f op arg) arg values ∧
      out.json = single "$match" (fanned f op values) := by
  obtain ⟨findings, natural, journal, indexing, events, hvalidate, hnatural, hrun, -, hjson⟩ :=
    compile_queries hparse h
  have hreferences : findings.references = [] := by
    refine validate_references hf hop harg (fun id hid htype => ?_) (eq_ok_of_result hvalidate)
    have hstored := (hnodes id (mem_append_left _ hid)).2
    rw [htype] at hstored
    revert hstored
    decide
  obtain ⟨values, hvalues, hfanned⟩ :=
    buildNatural_fans (b := ⟨ctx, findings.references⟩) hindex hreferences hf hop harg
      (fun id hid => (hnodes id hid).1) (congrArg result hnatural)
  have hbase : ctx.baseFind = [] := by rw [Context.baseFind, hindex]; rfl
  obtain ⟨complete, hsame⟩ := runSteps_silent
    (buildNatural_silent (b := ⟨ctx, findings.references⟩) hindex _ _) { entries := .new [] }
  rw [hnatural, ← hbase, hrun] at hsame
  cases hsame
  refine ⟨values, hvalues, ?_⟩
  rw [hjson, hbase, ← hfanned]
  rfl

/-- **The fan-out of a condition is exact**: of a document with values of the stored type of one
node, the query holds if and only if the condition does with the literals cast for this node
alone.  Inequalities and lists of required values need nodes that agree on the casts. -/
theorem fan_out_exact (hindex : ctx.usesIndex = false)
    (hvars : ctx.options.withVariables = false) (hop : op ∈ comparedOps)
    (harg : holdsLiterals arg = true)
    (hparse : parse ctx value = .ok (.expression [(f, fieldCondition op arg)]))
    (hnodes : ∀ id ∈ trailNodes (conditionTrail ctx f op arg) ++ trailNodes (fieldTrail ctx f op arg),
      (ctx.catalog.node id).localized = false ∧ (ctx.catalog.node id).type ∈ storedTypes)
    (h : compile ctx value = ⟨.ok out, notes⟩) :
    let trail := conditionTrail ctx f op arg
    ∃ query, out.json = single "$match" query ∧ ∀ id ∈ trailNodes trail, ∃ casts,
      castsFor ctx trail.fullpath arg id = .ok casts ∧
      ((op = some .ne ∨ op = some .all → ∀ other ∈ trailNodes trail,
          castsFor ctx trail.fullpath arg other = .ok casts) →
        ∀ d : Document, StoredAs d (d.values f) (ctx.catalog.node id).type →
          (d.meets query ↔ d.meetsValue (d.values f) (castCondition op casts))) := by
  intro trail
  obtain ⟨hf, hcompared⟩ := compared_of_parse hvars hop harg hparse
  obtain ⟨values, hvalues, hjson⟩ := compile_fans hindex hf hop hcompared hparse hnodes h
  refine ⟨_, hjson, fun id hid => ?_⟩
  obtain ⟨casts, hcasts⟩ := hvalues.exists_casts hid
  have hne := List.ne_nil_of_mem hid
  refine ⟨casts, hcasts, fun hagree d hd => ?_⟩
  have hspreads := hvalues.spreads hcompared
    (fun n hn => (hnodes n (List.mem_append_left _ hn)).2) hid hcasts
  refine meets_fanned_iff hf hop hspreads
    (fun hall => hvalues.subset_of_agree hcompared hne (hagree hall)) (fun hlist => ?_)
    (fun hnone w hw => ?_) hd
  · obtain ⟨w, rfl⟩ := hcompared.exists_simple hop hlist
    exact castsFor_simple hcasts
  · obtain ⟨n, -, raw, hraw, hok⟩ := (hvalues.mem_iff hcompared hne).1 hw
    subst hnone
    obtain ⟨u, rfl, harr, hobj⟩ := hcompared
    cases List.mem_singleton.1 hraw
    exact castForQuery_isPlain harr hobj hok

/-- A list of tags as a match has it. -/
def tagList : Operand := .array [.simple (.str "5"), .simple (.int 7), .simple .null]

/-- Whether a match compares the tag with this list, and nothing else. -/
def isTagList : Operand → Bool
  | .expression [(f, .expression [(op, .array [.simple u, .simple v, .simple w])])] =>
    f == "c_tag" && op == "$in" && decide (u = .str "5") && decide (v = .int 7) &&
      decide (w = .null)
  | _ => false

lemma eq_of_isTagList {v : Operand} (h : isTagList v = true) :
    v = .expression [("c_tag", fieldCondition (some .oneOf) tagList)] := by
  unfold isTagList at h
  split at h
  · simp only [Bool.and_eq_true, beq_iff_eq, decide_eq_true_eq] at h
    obtain ⟨⟨⟨⟨rfl, rfl⟩, rfl⟩, rfl⟩, rfl⟩ := h
    rfl
  · cases h

/-- A document with one text at every key, under an engine that keeps types apart. -/
def typedDocument (text : String) : Document where
  values := fun _ => {.str text}
  test := fun op arg vs =>
    if op = "$ne" then arg ∉ vs
    else if op = "$all" then ∀ w ∈ arg.arr?.getD [], w ∈ vs
    else False

lemma storedAs_typedDocument (text key : String) :
    StoredAs (typedDocument text) ((typedDocument text).values key) .string where
  typed := by
    rintro _ rfl t ht
    cases t <;> simp [HasStoredType] at ht ⊢
  ordered := by
    intro op hop w t _ _ h
    simp only [mem_cons, not_mem_nil, or_false] at hop
    rcases hop with rfl | rfl | rfl | rfl <;> exact h
  differs := fun w => Iff.rfl
  all := fun ws => Iff.rfl

/-- A list of tags, of which cats see texts. -/
theorem tag_list_exact :
    let ctx := { tagContext [] with usesIndex := false }
    let value := tagMatch "$in" tagList.underlying
    ∃ out query, (compile ctx value).result = .ok out ∧ out.json = single "$match" query ∧
      ∀ d : Document, StoredAs d (d.values "c_tag") .string →
        (d.meets query ↔ ∃ w ∈ [Json.str "5", .str "7", .null], w ∈ d.values "c_tag") := by
  intro ctx value
  let trail := conditionTrail ctx "c_tag" (some .oneOf) tagList
  obtain ⟨out, hresult⟩ : ∃ out, (compile ctx value).result = .ok out :=
    exists_eq_ok (by decide +kernel)
  obtain ⟨v, hparse, hshape⟩ : ∃ v, parse ctx value = .ok v ∧ isTagList v = true :=
    exists_eq_ok_and (by decide +kernel)
  rw [eq_of_isTagList hshape] at hparse
  obtain ⟨query, hjson, hall⟩ := fan_out_exact rfl rfl (by decide) rfl hparse (by decide +kernel)
    (eq_ok_of_result hresult)
  obtain ⟨id, hid, htype⟩ : ∃ id ∈ trailNodes trail, (ctx.catalog.node id).type = .string := by
    decide +kernel
  obtain ⟨casts, hcasts, hexact⟩ := hall id hid
  have hcats : ∀ id ∈ trailNodes trail, (ctx.catalog.node id).type = .string →
      ∀ casts ∈ (castsFor ctx trail.fullpath tagList id).toOption,
        casts = [.str "5", .str "7", .null] := by
    decide +kernel
  have hcasts' := hcats id hid htype casts (by rw [hcasts]; rfl)
  refine ⟨out, query, hresult, hjson, fun d hd => ?_⟩
  rw [hexact (fun h => by rcases h with h | h <;> cases h) d (htype ▸ hd), hcasts']
  exact meetsValue_oneOf

/-- **Conditions that exclude or demand fan out wrongly** where the types disagree: an inequality
holds of the excluded tag, and a required tag is not enough. -/
theorem exclusion_and_demand_fan_out :
    let ctx := { tagContext [] with usesIndex := false }
    ∃ out out' query query', (compile ctx (tagMatch "$ne" (.str "5"))).result = .ok out ∧
      out.json = single "$match" query ∧
      (compile ctx (tagMatch "$all" (.arr [.str "5"]))).result = .ok out' ∧
      out'.json = single "$match" query' ∧ ∃ d : Document, StoredAs d (d.values "c_tag") .string ∧
        (d.meets query ∧ ¬d.meetsValue (d.values "c_tag") (castCondition (some .ne) [.str "5"])) ∧
        (¬d.meets query' ∧
          d.meetsValue (d.values "c_tag") (castCondition (some .all) [.str "5"])) := by
  intro ctx
  obtain ⟨out, hresult, hjson⟩ : ∃ out, (compile ctx (tagMatch "$ne" (.str "5"))).result = .ok out ∧
      out.json = single "$match" (fanned "c_tag" (some .ne) [.str "5", .int 5]) :=
    exists_eq_ok_and (by decide +kernel)
  obtain ⟨out', hresult', hjson'⟩ :
      ∃ out, (compile ctx (tagMatch "$all" (.arr [.str "5"]))).result = .ok out ∧
        out.json = single "$match" (fanned "c_tag" (some .all) [.str "5", .int 5]) :=
    exists_eq_ok_and (by decide +kernel)
  have hf : Path.isOperator "c_tag" = false := by decide +kernel
  let d := typedDocument "5"
  have hvalues : d.values "c_tag" = {.str "5"} := rfl
  refine ⟨out, out', _, _, hresult, hjson, hresult', hjson', d,
    storedAs_typedDocument "5" "c_tag", ⟨?_, ?_⟩, ?_, ?_⟩
  · -- the tag is no number
    rw [meets_fanned_simple hf rfl]
    refine ⟨.int 5, by simp, ?_⟩
    rw [hvalues]
    simp [Document.meetsOperator, MatchOp.key, d, typedDocument]
  · refine fun hmeets => (meetsValue_single .ne _).1 hmeets ?_
    rw [hvalues]
    rfl
  · rw [meets_fanned_list hf rfl, hvalues]
    simp [Document.meetsOperator, MatchOp.key, d, typedDocument, Json.arr?]
  · exact (meetsValue_single .all _).2 ((storedAs_typedDocument "5" "c_tag").all _ |>.2 (by
      rw [hvalues]
      simp))

end

end Match

end Conduit
