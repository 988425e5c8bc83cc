import Conduit.Proofs.Casts
import Conduit.Proofs.TrailSteps

/-!
# Building clauses

Building a match without placeholders, element operators, localized or slotted nodes gives the
native query of its clauses and enters what they enter, leaf by leaf (`buildChildren_clauses`).

Where casts of one literal differ, a condition would fan out.  That takes a note that the index
query is not complete, or nodes of which the last does not cover the others.
-/

namespace Conduit.Match

open List Match.Builder Journaled

open IndexEntries

/-! ## Journals -/

/-- What a journal enters into the index query. -/
def entered (journal : List Step) : List (List IndexStep × Fields) :=
  journal.filterMap fun
    | .enter steps pairs _ => some (steps, pairs)
    | _ => none

lemma entered_append (xs ys : List Step) : entered (xs ++ ys) = entered xs ++ entered ys :=
  filterMap_append

lemma entered_events (events : List Event) : entered (events.map .event) = [] := by
  refine filterMap_eq_nil_iff.2 fun s hs => ?_
  obtain ⟨e, -, rfl⟩ := mem_map.1 hs
  rfl

lemma incomplete_not_mem_events (events : List Event) :
    Step.incomplete ∉ (events.map Step.event : List Step) := by
  intro h
  obtain ⟨e, -, he⟩ := mem_map.1 h
  cases he

lemma lift_ok {α : Type} {x : Compile α} {a : α} {journal : List Step}
    (h : lift x = ⟨.ok a, journal⟩) : x.result = .ok a ∧ entered journal = [] ∧
      Step.incomplete ∉ journal := by
  obtain ⟨m, hx, rfl⟩ := mapNotes_ok_iff.1 h
  exact ⟨by rw [hx], entered_events m, incomplete_not_mem_events m⟩

/-! ## Casting into the queries -/

section

variable {b : Builder}

lemma filterMap_of_mapM {α β : Type} {f : α → Except CompileError β} {xs : List α} {ys : List β}
    (h : xs.mapM f = .ok ys) : xs.filterMap (fun x => (f x).toOption) = ys := by
  induction xs generalizing ys with
  | nil =>
    cases h
    rfl
  | cons x rest ih =>
    rw [mapM_cons, except_bind_ok_iff] at h
    obtain ⟨y, hy, h⟩ := h
    rw [except_bind_ok_iff] at h
    obtain ⟨tail, htail, h⟩ := h
    cases h
    rw [filterMap_cons, hy, ← ih htail]
    rfl

/-- The values of a leaf as one value. -/
def pack (isArray : Bool) (vs : List Json) : Json := if isArray then .arr vs else vs.headD .null

variable {ys xs journal : List Step} {v : Operand} {format : Json → Json} {trail : Trail}
  {ctx : Context} {ls : List LeafAt} {values : List Json} {steps : List IndexStep}
  {leaf : LeafAt} {op : MatchOp} {ms : List LeafAt} {es : List Entry} {w : Json}

lemma castNodes_ok {isArray : Bool} {ids : List NodeId} {casts : List (List Json)}
    {slotted : Fields} (hslots : ∀ id ∈ ids, b.slotKey? (b.ctx.catalog.node id) = none)
    (h : b.castNodes trail (rawValues v) isArray true format (casterOf trail.site) ids [] =
      ⟨.ok (casts, slotted), journal⟩) :
    slotted = [] ∧ casts = ids.map (castsOf b.ctx (trail, v)) ∧
      (∀ id ∈ ids, (rawValues v).mapM (castValue (casterOf trail.site)
        (b.ctx.catalog.node id).type trail.fullpath) = .ok (castsOf b.ctx (trail, v) id)) ∧
      entered journal = casts.map (fun vs => (trail.named.steps,
        [(b.indexKey trail.named, format (pack isArray vs))])) ∧ Step.incomplete ∉ journal := by
  induction ids generalizing casts journal with
  | nil =>
    cases h
    exact ⟨rfl, rfl, fun id hid => (nomatch hid), rfl, not_mem_nil⟩
  | cons id rest ih =>
    simp only [castNodes, hslots id mem_cons_self, if_true, bind_ok_iff] at h
    obtain ⟨cast, m, n, hcast, ⟨_, m', n', henter, ⟨_, m'', n'', hpure, hrest, rfl⟩, rfl⟩, rfl⟩ := h
    cases hpure
    obtain ⟨result, m₁, n₁, hrun, hpure, rfl⟩ := hrest
    injection hpure with hpair hnil
    cases hpair
    cases hnil
    have hmap := congrArg Journaled.result hcast
    have hmapM : (rawValues v).mapM (castValue (casterOf trail.site)
        (b.ctx.catalog.node id).type trail.fullpath) = .ok cast := hmap
    have hcasts : castsOf b.ctx (trail, v) id = cast := filterMap_of_mapM hmapM
    injection hcast with _ hm
    injection henter with _ hm'
    subst hm
    obtain ⟨hslotted, hmapped, hok, hentered, hcomplete⟩ :=
      ih (fun x hx => hslots x (mem_cons_of_mem _ hx)) hrun
    refine ⟨hslotted, ?_, ?_, ?_, ?_⟩
    · rw [map_cons, hcasts, ← hmapped]
    · exact forall_mem_cons.2 ⟨by rw [hcasts]; exact hmapM, hok⟩
    · simp only [nil_append, append_nil, entered_append, hentered, ← hm', map_cons]
      rfl
    · simp only [nil_append, append_nil, mem_append, not_or]
      exact ⟨by rw [← hm']; simp, hcomplete⟩

/-- Whether a value is a list. -/
def isList : Operand → Bool
  | .array _ => true
  | _ => false

/-- **What casting a leaf gives, enters and notes.** -/
lemma castIntoQuery_ok (hindex : b.ctx.usesIndex = true)
    (hraw : ∀ raw ∈ rawValues v, raw.2 = false) (hcast : isCast (trail, v) = true)
    (hslots : ∀ id ∈ trailNodes trail, b.slotKey? (b.ctx.catalog.node id) = none)
    (h : b.castIntoQuery trail v format (casterOf trail.site) = ⟨.ok values, journal⟩) :
    values = leafValues b.ctx (trail, v) ∧ CastsOk b.ctx (trail, v) ∧
      entered journal = (leafCasts b.ctx (trail, v)).map (fun vs => (trail.named.steps,
        [(b.indexKey trail.named, format (pack (isList v) vs))])) ∧
      (Step.incomplete ∉ journal → leafCasts b.ctx (trail, v) ≠ [] →
        values.length ≤ (rawValues v).length) := by
  have hvars : (rawValues v).any Prod.snd = false := by
    rw [any_eq_false]
    intro raw hmem
    rw [hraw raw hmem]
    exact Bool.false_ne_true
  unfold castIntoQuery at h
  simp only [hvars, hindex, Bool.false_eq_true, if_false, Bool.not_false, Bool.and_true,
    bind_ok_iff] at h
  obtain ⟨found, m, n, hproperty, h, rfl⟩ := h
  obtain ⟨hresult, hm, hmcomplete⟩ := lift_ok hproperty
  cases found with
  | none => cases h
  | some c =>
    have hnodes := trailNodes_eq hresult
    rw [hnodes] at hslots
    have hcasts : leafCasts b.ctx (trail, v) = c.nodes.map (castsOf b.ctx (trail, v)) := by
      rw [leafCasts, if_pos hcast, hnodes]
    dsimp only at h
    split at h
    · next hempty =>
      rw [List.isEmpty_iff] at hempty
      rw [hempty, List.map_nil] at hcasts
      cases h
      refine ⟨by rw [leafValues, if_pos hcasts], fun _ id hid => ?_, ?_, fun _ hne => absurd hcasts hne⟩
      · rw [hnodes, hempty] at hid
        cases hid
      · rw [hcasts, append_nil, hm]
        rfl
    · next hnonempty =>
      rw [bind_ok_iff] at h
      obtain ⟨⟨casts, slotted⟩, m', n', hrun, h, rfl⟩ := h
      obtain ⟨rfl, rfl, hok, hentered, hcomplete⟩ := castNodes_ok hslots hrun
      have hne : leafCasts b.ctx (trail, v) ≠ [] := by
        rw [hcasts]
        simpa using hnonempty
      have hvalues : values = Json.distinct (leafCasts b.ctx (trail, v)).flatten ∧
          entered n' = [] ∧ (Step.incomplete ∉ n' → values.length ≤ (rawValues v).length) := by
        rw [hcasts]
        simp only [isEmpty_nil, Bool.not_true, Bool.false_eq_true, if_false] at h
        split at h
        · cases h
          exact ⟨rfl, rfl, fun hnot => absurd mem_cons_self hnot⟩
        · next hle =>
          cases h
          exact ⟨rfl, rfl, fun _ => by omega⟩
      obtain ⟨rfl, hn', hlength⟩ := hvalues
      refine ⟨by rw [leafValues, if_neg hne], fun _ id hid => hok id (hnodes ▸ hid), ?_, ?_⟩
      · rw [entered_append, entered_append, hm, hn', hentered, hcasts, nil_append, append_nil]
        cases v <;> rfl
      · intro hnot _
        simp only [mem_append, not_or] at hnot
        exact hlength hnot.2.2

/-- A journal that enters these entries at these steps.  If it notes no gap, each leaf was cast
to no more values than it has. -/
structure Journals (ctx : Context) (journal : List Step) (steps : List IndexStep)
    (leaves : List LeafAt) (entries : List Entry) : Prop where
  entered : entered journal = entries.map fun e => (steps ++ e.1, [e.2])
  casts : ∀ leaf ∈ leaves, CastsOk ctx leaf
  complete : Step.incomplete ∉ journal → ∀ leaf ∈ leaves, isCast leaf = true ∧
    (leafCasts ctx leaf ≠ [] → (leafValues ctx leaf).length ≤ (rawValues leaf.2).length)

lemma Journals.nil (ctx : Context) (steps : List IndexStep) : Journals ctx [] steps [] [] where
  entered := rfl
  casts := nofun
  complete := nofun

lemma Journals.append {fs : List Entry} (hx : Journals ctx xs steps ls es)
    (hy : Journals ctx ys steps ms fs) : Journals ctx (xs ++ ys) steps (ls ++ ms) (es ++ fs) where
  entered := by rw [entered_append, hx.entered, hy.entered, map_append]
  casts := fun leaf hleaf => (mem_append.1 hleaf).elim (hx.casts leaf) (hy.casts leaf)
  complete := by
    intro hnot leaf hleaf
    rw [mem_append, not_or] at hnot
    rcases mem_append.1 hleaf with hleaf | hleaf
    · exact hx.complete hnot.1 leaf hleaf
    · exact hy.complete hnot.2 leaf hleaf

/-- Notes that enter nothing and find no gap change nothing. -/
lemma Journals.append_quiet (hx : Journals ctx xs steps ls es)
    (hentered : Match.entered ys = []) : Journals ctx (xs ++ ys) steps ls es where
  entered := by rw [entered_append, hx.entered, hentered, append_nil]
  casts := hx.casts
  complete := fun hnot => hx.complete fun hmem => hnot (mem_append_left _ hmem)

/-- The nodes of a single leaf agree, if its journal notes no gap or the last one covers the
others. -/
lemma Journals.uniform {leaves : List LeafAt} {entries : List Entry}
    (h : Journals ctx journal steps leaves entries) (hmem : leaf ∈ leaves) (hleaf : ShapedLeaf leaf)
    (hsingle : isSingle leaf = true) (hmode : Step.incomplete ∉ journal ∨ LastCovers ctx leaf) :
    Uniform ctx leaf := by
  rcases hmode with hnot | hcovers
  · refine uniform_of_length hleaf hsingle (h.casts leaf hmem) fun hne => ?_
    obtain ⟨w, hw⟩ := hleaf.simple hsingle
    have hlength := (h.complete hnot leaf hmem).2 hne
    rw [hw] at hlength
    exact hlength
  · exact uniform_of_covers hleaf hsingle (h.casts leaf hmem) hcovers

/-- A single leaf whose nodes agree is compared with one value. -/
lemma leafValues_singleton (hleaf : ShapedLeaf leaf) (hsingle : isSingle leaf = true)
    (huniform : Uniform ctx leaf) : ∃ w, leafValues ctx leaf = [w] := by
  by_cases hne : leafCasts ctx leaf = []
  · obtain ⟨w, hw⟩ := hleaf.simple hsingle
    exact ⟨w, by rw [leafValues, if_pos hne, hw]; rfl⟩
  · obtain ⟨w, hw⟩ := huniform
    exact ⟨w, leafValues_of_uniform hw hne⟩

lemma leafValues_unchanged {u : Json} (hleaf : ShapedLeaf (trail, .simple u))
    (hop : trail.site.matchOp? = some .within ∨ trail.site.matchOp? = some .pattern)
    (hw : leafValues ctx (trail, .simple u) = [w]) : leafValues ctx (trail, .simple u) = [u] := by
  by_cases hne : leafCasts ctx (trail, .simple u) = []
  · rw [leafValues, if_pos hne]
    rfl
  · have hmem : w ∈ leafValues ctx (trail, .simple u) := hw ▸ mem_cons_self
    rw [leafValues, if_neg hne] at hmem
    obtain ⟨casts, hcasts, hmem⟩ := mem_flatten.1 (Json.mem_of_mem_distinctFrom hmem)
    cases casts_unchanged hleaf hop hcasts hmem
    exact hw

/-! ## Leaves -/

/-- The nodes that a leaf and its field may mean are neither localized nor slotted. -/
def Clean (b : Builder) (leaf : LeafAt) : Prop :=
  ∀ id ∈ trailNodes leaf.1 ++ trailNodes leaf.1.named,
    (b.ctx.catalog.node id).localized = false ∧ b.slotKey? (b.ctx.catalog.node id) = none

lemma localized_ok {op : String} {found : Option Json}
    (hnodes : ∀ id ∈ trailNodes trail, (b.ctx.catalog.node id).localized = false)
    (h : b.localized trail values op = ⟨.ok found, journal⟩) :
    found = none ∧ entered journal = [] := by
  simp only [localized, bind_ok_iff] at h
  obtain ⟨c, m, n, hproperty, h, rfl⟩ := h
  obtain ⟨hresult, hm, -⟩ := lift_ok hproperty
  cases c with
  | none =>
    cases h
    exact ⟨rfl, by rw [append_nil, hm]⟩
  | some c =>
    have hnone : (!c.nodes.any fun id => (b.ctx.catalog.node id).localized) = true := by
      rw [Bool.not_eq_true', any_eq_false]
      intro id hid
      rw [hnodes id (trailNodes_eq hresult ▸ hid)]
      exact Bool.false_ne_true
    simp only [hnone, if_true] at h
    cases h
    exact ⟨rfl, by rw [append_nil, hm]⟩

/-- What is entered for a leaf, seen from the object that holds its field. -/
def fieldEntries (b : Builder) (leaf : LeafAt) : List Entry :=
  (leafEntries b.ctx leaf).map fun w => ([], b.indexKey leaf.1.named, w)

/-- What building a leaf does: it compares the leaf with its values and enters its casts. -/
structure BuildsLeaf (b : Builder) (leaf : LeafAt) (compared : Json)
    (journal : List Step) : Prop where
  value : compared = comparison leaf.1.site.matchOp? (leafValues b.ctx leaf)
  one : isSingle leaf = true → ∃ w, leafValues b.ctx leaf = [w]
  journal : Journals b.ctx journal leaf.1.named.steps [leaf] (fieldEntries b leaf)

lemma BuildsLeaf.append_quiet (h : BuildsLeaf b leaf w xs) (hentered : entered ys = []) :
    BuildsLeaf b leaf w (xs ++ ys) :=
  ⟨h.value, h.one, h.journal.append_quiet hentered⟩

/-- A leaf without casts enters nothing and leaves the index query incomplete. -/
lemma BuildsLeaf.uncast (hleaf : ShapedLeaf leaf) (hcast : isCast leaf = false) :
    BuildsLeaf b leaf (comparison leaf.1.site.matchOp? ((rawValues leaf.2).map Prod.fst))
      [.incomplete] := by
  have hnone : leafCasts b.ctx leaf = [] := by
    rw [leafCasts, if_neg (by rw [hcast]; exact Bool.false_ne_true)]
  have hvalues : leafValues b.ctx leaf = (rawValues leaf.2).map Prod.fst := by
    rw [leafValues, if_pos hnone]
  refine ⟨by rw [hvalues], fun hsingle => ?_, ⟨?_, ?_, fun hnot => absurd mem_cons_self hnot⟩⟩
  · obtain ⟨w, hw⟩ := hleaf.simple hsingle
    exact ⟨w, by rw [hvalues, hw]; rfl⟩
  · rw [fieldEntries, leafEntries, hnone]
    rfl
  · intro leaf' hmem hcast'
    rw [mem_singleton.1 hmem, hcast] at hcast'
    cases hcast'

/-- Either a journal notes no gap or the last nodes of single leaves cover the others. -/
def Faithful (ctx : Context) (journal : List Step) (leaves : List LeafAt) : Prop :=
  Step.incomplete ∉ journal ∨ ∀ leaf ∈ leaves, isSingle leaf = true → LastCovers ctx leaf

lemma Faithful.mono (h : Faithful ctx ys ms) (hsteps : xs ⊆ ys) (hleaves : ls ⊆ ms) :
    Faithful ctx xs ls :=
  h.imp (fun hnot hmem => hnot (hsteps hmem)) fun hcovers leaf hleaf => hcovers leaf (hleaves hleaf)

lemma Faithful.left (h : Faithful ctx (xs ++ ys) ls) : Faithful ctx xs ls :=
  h.mono (subset_append_left _ _) (List.Subset.refl _)

lemma comparison_isSimple (h : op.isSimple = true) (vs : List Json) :
    comparison (some op) vs = single op.key (vs.headD .null) := by
  cases op
  case oneOf | noneOf | pattern | within => cases h
  all_goals rfl

lemma buildLeaf_uncast {built : Option Built} (hleaf : ShapedLeaf (trail, v))
    (hop : trail.site.matchOp? = some op) (hne : op = .hasType ∨ op = .size)
    (h : b.buildLeaf trail op v = ⟨.ok built, journal⟩) :
    ∃ w, built = some (.value w) ∧ BuildsLeaf b (trail, v) w journal := by
  have hcast : isCast (trail, v) = false := by
    rcases hne with rfl | rfl <;> rw [isCast, hop]
  have hsingle : isSingle (trail, v) = true := by
    rcases hne with rfl | rfl <;> rw [isSingle, hop] <;> rfl
  obtain ⟨u, rfl⟩ := hleaf.simple hsingle
  have hbuilds := BuildsLeaf.uncast (b := b) hleaf hcast
  rw [hop] at hbuilds
  rcases hne with rfl | rfl <;> cases h <;> exact ⟨_, rfl, hbuilds⟩

section

variable {trail : Trail} {v : Operand} {journal : List Step}
  (hindex : b.ctx.usesIndex = true) (hleaf : ShapedLeaf (trail, v)) (hclean : Clean b (trail, v))

include hindex hleaf hclean

section

variable {caster : Caster} (hcaster : caster = casterOf trail.site)
  (hcast : isCast (trail, v) = true)
  (hformat : ∀ vs, format (pack (isList v) vs) = comparison trail.site.matchOp? vs)
  (h : b.castIntoQuery trail v format caster = ⟨.ok values, journal⟩)

include hcaster hcast hformat h

lemma castIntoQuery_builds
    (hfaithful : isSingle (trail, v) = true → Faithful b.ctx journal [(trail, v)]) :
    values = leafValues b.ctx (trail, v) ∧
      BuildsLeaf b (trail, v) (comparison trail.site.matchOp? values) journal := by
  subst hcaster
  obtain ⟨hvalues, hok, hentered, hlength⟩ := castIntoQuery_ok hindex hleaf.raw hcast
    (fun id hid => (hclean id (mem_append_left _ hid)).2) h
  have hjournal : Journals b.ctx journal trail.named.steps [(trail, v)]
      (fieldEntries b (trail, v)) := by
    refine ⟨?_, fun leaf hmem => mem_singleton.1 hmem ▸ hok, fun hnot leaf hmem => ?_⟩
    · rw [hentered, fieldEntries, leafEntries, map_map, map_map]
      refine map_congr_left fun vs _ => ?_
      simp [hformat]
    · rw [mem_singleton.1 hmem]
      exact ⟨hcast, fun hne => hvalues ▸ hlength hnot hne⟩
  refine ⟨hvalues, by rw [hvalues], fun hsingle => ?_, hjournal⟩
  have huniform : Uniform b.ctx (trail, v) := hjournal.uniform mem_cons_self hleaf hsingle
    ((hfaithful hsingle).imp id fun hcovers => hcovers _ mem_cons_self hsingle)
  exact leafValues_singleton hleaf hsingle huniform

lemma castIntoQuery_single (hsingle : isSingle (trail, v) = true)
    (hfaithful : Faithful b.ctx journal [(trail, v)]) :
    ∃ w, values = [w] ∧ leafValues b.ctx (trail, v) = [w] ∧
      BuildsLeaf b (trail, v) (comparison trail.site.matchOp? [w]) journal := by
  obtain ⟨hvalues, hbuilds⟩ :=
    castIntoQuery_builds hindex hleaf hclean hcaster hcast hformat h fun _ => hfaithful
  obtain ⟨w, hw⟩ := hbuilds.one hsingle
  exact ⟨w, hvalues.trans hw, hw, hvalues.trans hw ▸ hbuilds⟩

end

variable {around : Enclosing} {built : Option Built} {op : MatchOp}

section

variable (hop : trail.site.matchOp? = some op)

include hop

lemma buildSimple_ok (hsimple : op.isSimple = true)
    (hfaithful : Faithful b.ctx journal [(trail, v)])
    (h : b.buildSimple trail op v around = ⟨.ok built, journal⟩) :
    ∃ w, built = some (.value w) ∧ BuildsLeaf b (trail, v) w journal := by
  have hne : op ≠ .oneOf ∧ op ≠ .noneOf ∧ op ≠ .hasType ∧ op ≠ .size := by
    refine ⟨?_, ?_, ?_, ?_⟩ <;> rintro rfl <;> cases hsimple
  have hsingle : isSingle (trail, v) = true := by simp [isSingle, hop, hne]
  obtain ⟨u, rfl⟩ := hleaf.simple hsingle
  have hcast : isCast (trail, .simple u) = true := by simp [isCast, hop, hne, isEmptyLeaf]
  have hformat : ∀ vs, single op.key (pack (isList (.simple u)) vs) =
      comparison trail.site.matchOp? vs := by
    intro vs
    rw [hop, comparison_isSimple hsimple]
    rfl
  rw [buildSimple, bind_ok_iff] at h
  obtain ⟨values, m, n, hrun, h, rfl⟩ := h
  obtain ⟨w, rfl, -, hbuilds⟩ := castIntoQuery_single hindex hleaf hclean
    (by simp [casterOf, hop]) hcast hformat hrun hsingle hfaithful.left
  cases h
  rw [← hformat] at hbuilds
  rw [append_nil]
  exact ⟨single op.key w, rfl, hbuilds⟩

lemma buildLeaf_list (hlist : op = .oneOf ∨ op = .noneOf)
    (hnamed : trail.named = trail.parent) (h : b.buildLeaf trail op v = ⟨.ok built, journal⟩) :
    ∃ w, built = some (.value w) ∧ BuildsLeaf b (trail, v) w journal := by
  obtain ⟨elements, rfl⟩ : ∃ elements, v = .array elements := by
    rw [ShapedLeaf, hop] at hleaf
    cases v with
    | simple w => rcases hlist with rfl | rfl <;> cases hleaf
    | array elements => exact ⟨elements, rfl⟩
    | _ => cases hleaf
  have hmany : isSingle (trail, .array elements) ≠ true := by
    rcases hlist with rfl | rfl <;> simp [isSingle, hop]
  have hlocal := fun id hid => (hclean id (mem_append_right (trailNodes trail) hid)).1
  rw [show trailNodes (trail, Operand.array elements).1.named = trailNodes trail.parent from
    congrArg trailNodes hnamed] at hlocal
  by_cases hempty : elements = []
  · -- an empty list is compared natively only
    subst hempty
    have hcast : isCast (trail, .array []) = false := by
      rcases hlist with rfl | rfl <;> rw [isCast, hop] <;> rfl
    have hbuilds := BuildsLeaf.uncast (b := b) hleaf hcast
    rw [hop] at hbuilds
    rcases hlist with rfl | rfl <;> cases h <;> exact ⟨_, rfl, hbuilds⟩
  · have hcast : isCast (trail, .array elements) = true := by
      obtain ⟨e, rest, rfl⟩ := exists_cons_of_ne_nil hempty
      rcases hlist with rfl | rfl <;> rw [isCast, hop] <;> rfl
    have hcondition : (Operand.array elements).elements.isEmpty = false := by
      simpa [Operand.elements] using hempty
    have hstored : .stored = casterOf trail.site := by
      rcases hlist with rfl | rfl <;> simp [casterOf, hop]
    rcases hlist with rfl | rfl
    · simp only [buildLeaf, hcondition, Bool.false_eq_true, if_false, bind_ok_iff] at h
      obtain ⟨values, m, n, hrun, ⟨found, m', n', hfound, h, rfl⟩, rfl⟩ := h
      obtain ⟨rfl, hquiet⟩ := localized_ok hlocal hfound
      cases h
      have hbuilds := (castIntoQuery_builds hindex hleaf hclean hstored hcast
        (fun vs => by rw [hop]; rfl) hrun fun hone => absurd hone hmany).2
      rw [hop] at hbuilds
      rw [append_nil]
      exact ⟨_, rfl, hbuilds.append_quiet hquiet⟩
    · simp only [buildLeaf, hcondition, Bool.false_eq_true, if_false, bind_ok_iff] at h
      obtain ⟨values, m, n, hrun, h, rfl⟩ := h
      cases h
      have hbuilds := (castIntoQuery_builds hindex hleaf hclean hstored hcast
        (fun vs => by rw [hop]; rfl) hrun fun hone => absurd hone hmany).2
      rw [hop] at hbuilds
      rw [append_nil]
      exact ⟨_, rfl, hbuilds⟩

lemma buildLeaf_unchanged
    (hne : op = .within ∨ op = .pattern) (hfaithful : Faithful b.ctx journal [(trail, v)])
    (h : b.buildLeaf trail op v = ⟨.ok built, journal⟩) :
    ∃ w, built = some (.value w) ∧ BuildsLeaf b (trail, v) w journal := by
  have hsingle : isSingle (trail, v) = true := by
    rcases hne with rfl | rfl <;> rw [isSingle, hop] <;> rfl
  obtain ⟨u, rfl⟩ := hleaf.simple hsingle
  have hcast : isCast (trail, .simple u) = true := by
    rcases hne with rfl | rfl <;> rw [isCast, hop] <;> rfl
  have hstored : .stored = casterOf trail.site := by
    rcases hne with rfl | rfl <;> simp [casterOf, hop]
  rcases hne with rfl | rfl
  all_goals
    simp only [buildLeaf, bind_ok_iff] at h
    obtain ⟨values, m, n, hrun, h, rfl⟩ := h
    obtain ⟨w, rfl, hw, hbuilds⟩ := castIntoQuery_single hindex hleaf hclean hstored
      hcast (fun vs => by rw [hop]; rfl) hrun hsingle hfaithful.left
    cases h
    rw [append_nil]
    rw [hop] at hbuilds
  · cases hw.symm.trans (leafValues_unchanged hleaf (.inl hop) hw)
    exact ⟨_, rfl, hbuilds⟩
  · exact ⟨w, rfl, hbuilds⟩

/-- **Building an operator of a field** compares the leaf and enters its casts. -/
lemma buildOperator_ok (hnamed : trail.named = trail.parent)
    (hfaithful : Faithful b.ctx journal [(trail, v)]) (haround : around.replacement = none)
    (h : b.buildComponent trail around v = ⟨.ok built, journal⟩) :
    ∃ w, built = some (.value w) ∧ BuildsLeaf b (trail, v) w journal := by
  have hcompares : Compares op v := by
    have hshape := hleaf
    rw [ShapedLeaf, hop] at hshape
    exact hshape
  cases v with
  | simple u =>
    simp only [buildComponent, hop, haround, Option.isSome_none, Bool.false_eq_true, if_false] at h
    cases hsimple : op.isSimple with
    | true =>
      rw [hsimple, if_pos rfl] at h
      exact buildSimple_ok hindex hleaf hclean hop hsimple hfaithful h
    | false =>
      cases op
      case hasType => exact buildLeaf_uncast hleaf hop (.inl rfl) h
      case size => exact buildLeaf_uncast hleaf hop (.inr rfl) h
      case within => exact buildLeaf_unchanged hindex hleaf hclean hop (.inl rfl) hfaithful h
      case pattern => exact buildLeaf_unchanged hindex hleaf hclean hop (.inr rfl) hfaithful h
      case oneOf | noneOf | and | or | all | elemMatch => cases hcompares
      all_goals cases hsimple
  | array elements =>
    have hlist := hcompares.1
    have h : b.buildLeaf trail op (.array elements) = ⟨.ok built, journal⟩ := by
      rcases hlist with rfl | rfl <;>
        simpa only [buildComponent, hop, haround, Option.isSome_none, Bool.false_eq_true,
          if_false, Bool.and_eq_true, decide_eq_true_eq, reduceCtorEq, false_and] using h
    exact buildLeaf_list hindex hleaf hclean hop hlist hnamed h
  | _ => cases hcompares

end

/-- **Building a field with a literal** compares it under the key of the field. -/
lemma buildLiteral_ok (hv : v = .simple w) (hop : trail.site.matchOp? = none)
    (hfaithful : Faithful b.ctx journal [(trail, v)])
    (h : b.buildComponent trail around v = ⟨.ok built, journal⟩) :
    ∃ w, built = some (.value (single (b.buildKey trail) w)) ∧
      BuildsLeaf b (trail, v) w journal := by
  subst hv
  have hsingle : isSingle (trail, .simple w) = true := by rw [isSingle, hop]; rfl
  have hcast : isCast (trail, .simple w) = true := by rw [isCast, hop]; rfl
  simp only [buildComponent, hop, bind_ok_iff] at h
  obtain ⟨values, m, n, hrun, ⟨found, m', n', hfound, h, rfl⟩, rfl⟩ := h
  obtain ⟨c, rfl, -, hbuilds⟩ := castIntoQuery_single hindex hleaf hclean
    (by simp [casterOf, hop]) hcast (fun vs => by rw [hop]; rfl) hrun hsingle hfaithful.left
  obtain ⟨rfl, hquiet⟩ := localized_ok (fun id hid => (hclean id (mem_append_left _ hid)).1) hfound
  cases h
  rw [hop] at hbuilds
  rw [append_nil]
  exact ⟨c, rfl, hbuilds.append_quiet hquiet⟩

end

/-- What an operator of a field is built into is an object of its keys. -/
lemma BuildsLeaf.exists_obj (h : BuildsLeaf b leaf w journal) (hleaf : ShapedLeaf leaf)
    (hop : leaf.1.site.matchOp? = some op) :
    ∃ gs, w = .obj gs ∧ Fields.keys gs = comparisonKeys op := by
  rw [h.value, hop]
  refine comparison_obj fun hpattern => ?_
  subst hpattern
  have hsingle : isSingle leaf = true := by simp [isSingle, hop]
  obtain ⟨trail, v⟩ := leaf
  obtain ⟨u, rfl⟩ := hleaf.simple hsingle
  obtain ⟨c, hc⟩ := h.one hsingle
  obtain ⟨p, rfl⟩ : ∃ p : Pattern, u = p.toJson := by
    have hshape := hleaf
    rw [ShapedLeaf, hop] at hshape
    exact hshape
  exact ⟨p, leafValues_unchanged hleaf (.inr hop) hc⟩

/-! ## The operators of a field -/

lemma leaves_of_compares (hop : trail.site.matchOp? = some op) (h : Compares op v) :
    leaves ctx trail v = [(trail, v)] := by
  cases v with
  | simple w => rfl
  | array elements =>
    have hnone : holdsConditions trail.site elements = false := by
      rw [holdsConditions, hop]
      rcases h.1 with rfl | rfl <;> rfl
    have hamong : ∀ (es : List Operand) (i : Nat), (∀ e ∈ es, ∃ w, e = .simple w ∧ w.IsLiteral) →
        leavesAmong ctx trail i es = [] := by
      intro es
      induction es with
      | nil => intros; rfl
      | cons e rest ih =>
        intro i hes
        obtain ⟨w, rfl, -⟩ := hes e mem_cons_self
        exact ih (i + 1) fun x hx => hes x (mem_cons_of_mem _ hx)
    rw [leaves, hnone, hamong elements 0 h.2]
    rfl
  | _ => cases h

lemma merge_fresh {fs gs : Fields} (hfresh : ∀ k ∈ Fields.keys gs, Fields.get? fs k = none) :
    Built.merge fs gs = Fields.extend fs gs := by
  rw [Built.merge, if_neg]
  rw [any_eq_true]
  rintro ⟨f, hf, hcontains⟩
  rw [Fields.contains_eq_false_iff.2 (hfresh f.1 (Fields.mem_keys.2 ⟨f.2, hf⟩))] at hcontains
  cases hcontains

/-- What building the operators of a field does to the object of them. -/
structure BuildsOperators (b : Builder) (field : Trail) (leaves : List LeafAt)
    (start out : Enclosing) (journal : List Step) : Prop where
  whole : out.replacement = none
  nodup : (Fields.keys out.fields).Nodup
  operators : leaves ≠ [] ∨ Document.holdsOperators start.fields = true →
    Document.holdsOperators out.fields = true
  meaning : ∀ (d : Document) (vs : Set Json),
    (∀ k v, Fields.get? out.fields k = some v → d.meetsOperator vs k v) ↔
      (∀ k v, Fields.get? start.fields k = some v → d.meetsOperator vs k v) ∧ ∀ leaf ∈ leaves,
          d.meetsValue vs (comparison leaf.1.site.matchOp? (leafValues b.ctx leaf))
  journal : Journals b.ctx journal field.steps leaves (leaves.flatMap (fieldEntries b))

lemma BuildsLeaf.addBuilt (h : BuildsLeaf b leaf w journal) (hleaf : ShapedLeaf leaf)
    (hop : leaf.1.site.matchOp? = some op) {around : Enclosing}
    (haround : around.replacement = none) (hnodup : (Fields.keys around.fields).Nodup)
    (hfresh : ∀ k ∈ comparisonKeys op, Fields.get? around.fields k = none) :
    BuildsOperators b leaf.1.named [leaf] around (Builder.addBuilt around (some (.value w)))
        journal ∧
      ∀ k ∉ comparisonKeys op, Fields.get? around.fields k = none →
        Fields.get? (Builder.addBuilt around (some (.value w))).fields k = none := by
  obtain ⟨gs, rfl, hgs⟩ := h.exists_obj hleaf hop
  have hgnodup : (Fields.keys gs).Nodup := hgs ▸ comparisonKeys_nodup op
  rw [← hgs] at hfresh
  have hadd : Builder.addBuilt around (some (.value (.obj gs))) =
      { around with fields := Fields.extend around.fields gs } := by
    rw [← merge_fresh hfresh]
    simp only [Builder.addBuilt, haround]
  rw [hadd]
  have hholds : Document.holdsOperators gs = true :=
    @holdsOperators_of_mem gs op fun k hk => hgs ▸ hk
  refine ⟨⟨haround, Fields.nodup_extend hnodup gs, fun _ => ?_, fun d vs => ?_, ?_⟩, ?_⟩
  · refine @holdsOperators_of_mem _ op fun k hk => ?_
    by_contra hnot
    rw [← Fields.get?_eq_none_iff, Fields.get?_extend _ hgnodup, Option.or_eq_none_iff,
      Fields.get?_eq_none_iff, hgs] at hnot
    exact hnot.1 hk
  · rw [Fields.forall_get?_extend hgnodup hfresh, forall_mem_singleton, ← h.value,
      meetsValue_operators hgnodup hholds]
  · rw [flatMap_singleton]
    exact h.journal
  · intro k hk hnone
    rw [Fields.get?_extend _ hgnodup, hnone, Option.or_none, Fields.get?_eq_none_iff, hgs]
    exact hk

/-- **Building the operators of a field**, one after the other. -/
lemma buildOperators_ok (hindex : b.ctx.usesIndex = true) {field : Trail} (hfield : field ≠ [])
    (hself : field.named = field) {cs : Children} {i : Nat} {around out : Enclosing}
    (hcs : ∀ c ∈ cs, ∃ op, MatchOp.ofKey? c.1 = some op ∧ Compares op c.2)
    (hkeys : (cs.map Prod.fst).Nodup)
    (hclean : ∀ leaf ∈ leavesBelow b.ctx field 0 i cs, Clean b leaf)
    (hfaithful : Faithful b.ctx journal (leavesBelow b.ctx field 0 i cs))
    (haround : around.replacement = none) (hnodup : (Fields.keys around.fields).Nodup)
    (hfresh : ∀ c ∈ cs, ∀ op, MatchOp.ofKey? c.1 = some op → ∀ k ∈ comparisonKeys op,
      Fields.get? around.fields k = none)
    (h : b.buildChildren field 0 i around cs = ⟨.ok out, journal⟩) :
    BuildsOperators b field (leavesBelow b.ctx field 0 i cs) around out journal := by
  induction cs generalizing i around journal with
  | nil =>
    cases h
    exact ⟨haround, hnodup, fun hop => hop.elim (absurd rfl) id, by simp [leavesBelow],
      .nil b.ctx field.steps⟩
  | cons c rest ih =>
    obtain ⟨key, v⟩ := c
    obtain ⟨op, hkey, hcompares⟩ := hcs (key, v) mem_cons_self
    obtain ⟨hnew, hkeys⟩ := nodup_cons.1 hkeys
    let trail := field.child b.ctx 0 i key v
    have hop : trail.site.matchOp? = some op := by
      rw [site_child hfield]
      exact hkey
    have hopkey : op.key = key := MatchOp.key_of_ofKey? hkey
    have hoperator : Path.isOperator key = true := hopkey ▸ MatchOp.isOperator_key op
    have hnamed : trail.named = field := (named_operator hfield hoperator 0 i v).trans hself
    have hparent : trail.parent = field := parent_child hfield 0 i key v
    have hleaf : ShapedLeaf (trail, v) := by
      rw [ShapedLeaf, hop]
      exact hcompares
    have hleaves : leavesBelow b.ctx field 0 i ((key, v) :: rest) =
        [(trail, v)] ++ leavesBelow b.ctx field 0 (i + 1) rest := by
      rw [leavesBelow, leaves_of_compares hop hcompares]
    rw [hleaves] at hclean hfaithful ⊢
    rw [buildChildren, bind_ok_iff] at h
    obtain ⟨built, m, n, hfirst, hrest, rfl⟩ := h
    obtain ⟨w, rfl, hbuilds⟩ := buildOperator_ok hindex hleaf
      (hclean _ (mem_append_left _ mem_cons_self)) hop (hnamed.trans hparent.symm)
      (hfaithful.mono (subset_append_left m n) (subset_append_left _ _)) haround hfirst
    obtain ⟨hstep, hkept⟩ := hbuilds.addBuilt hleaf hop haround hnodup
      (hfresh (key, v) mem_cons_self op hkey)
    have hrun := ih (fun x hx => hcs x (mem_cons_of_mem _ hx)) hkeys
      (fun leaf hmem => hclean leaf (mem_append_right _ hmem))
      (hfaithful.mono (subset_append_right m n) (subset_append_right _ _))
      hstep.whole hstep.nodup ?_ hrest
    · refine ⟨hrun.whole, hrun.nodup, fun _ => ?_, fun d vs => ?_, ?_⟩
      · exact hrun.operators (.inr (hstep.operators (.inl (cons_ne_nil _ _))))
      · rw [hrun.meaning, hstep.meaning, forall_mem_append, and_assoc]
      · have hjournal := hstep.journal
        rw [show (trail, v).1.named = field from hnamed] at hjournal
        rw [flatMap_append]
        exact hjournal.append hrun.journal
    · -- operators under other keys leave the keys of the remaining ones free
      intro x hx op' hop' k hk
      refine hkept k (fun hmem => ?_) (hfresh x (mem_cons_of_mem _ hx) op' hop' k hk)
      have heq := comparisonKeys_disjoint hmem hk
      refine hnew (mem_map.2 ⟨x, hx, ?_⟩)
      rw [← MatchOp.key_of_ofKey? hop', ← heq, hopkey]

end

end Conduit.Match
