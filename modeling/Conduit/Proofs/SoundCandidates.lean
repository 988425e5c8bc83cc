import Conduit.Proofs.Handover
import Conduit.Proofs.NarrowingFixpoint

/-!
# Sound candidates

Stages narrow candidates, merge them and look up new ones.  What holds of a list of candidates all
along is that it has one candidate for each path and each node once, that a stage never makes up a
node, and that a strict pipeline leaves no candidate without nodes (`Handover.sound`).

`M` says which nodes a path may mean.  It has to hold of the nodes that the path addresses in the
models which the stage leaves; mostly these are the nodes of some known models (`FoundIn`).
A match keeps such lists for each of its parts (`TrailSound`), so that all that it reads is sound.
-/

namespace Conduit

open List Candidate

/-! ## Lists of candidates -/

/-- A path addresses a node in one of the models. -/
def Catalog.FoundIn (c : Catalog) (known : List ModelId) (path : String) (n : NodeId) : Prop :=
  ∃ m ∈ known, n ∈ c.findNodes m path

/-- A path without a candidate may mean all that it addresses in the models. -/
def Catalog.Meets (c : Catalog) (models : List ModelId) (ps : List Candidate)
    (M : String → NodeId → Prop) : Prop :=
  ∀ path n, find? ps path = none → c.FoundIn models path n → M path n

variable {known models : List ModelId} {c : Catalog} {path : String}

lemma Catalog.meets_foundIn {ps : List Candidate} (h : models ⊆ known) :
    c.Meets models ps (c.FoundIn known) :=
  fun _ _ _ ⟨m, hm, hn⟩ => ⟨m, h hm, hn⟩

lemma Catalog.Meets.subset {ps : List Candidate} {M : String → NodeId → Prop}
    (h : c.Meets known [] M) (hsub : models ⊆ known) : c.Meets models ps M :=
  fun path n _ ⟨m, hm, hn⟩ => h path n rfl ⟨m, hsub hm, hn⟩

namespace Candidate

open Match (paths mem_paths)

/-- One candidate for each path, with nodes that the path may mean.  In a strict pipeline each has
a node. -/
structure Sound (M : String → NodeId → Prop) (strict : Bool) (ps : List Candidate) : Prop
    extends Distinct ps where
  meaning : ∀ p ∈ ps, ∀ n ∈ p.nodes, M p.path n
  inhabited : strict = true → ∀ p ∈ ps, p.nodes ≠ []

variable {M N : String → NodeId → Prop} {strict : Bool} {ps : List Candidate} {c : Candidate}
  {path : String}

lemma sound_nil : Sound M strict [] where
  paths := nodup_nil
  nodes _ h := by cases h
  meaning _ h := by cases h
  inhabited _ _ h := by cases h

lemma Sound.mono (h : Sound M strict ps)
    (hmono : ∀ p ∈ ps, ∀ n ∈ p.nodes, M p.path n → N p.path n) : Sound N strict ps :=
  { h with meaning := fun p hp n hn => hmono p hp n hn (h.meaning p hp n hn) }

lemma Sound.of_find? (h : Sound M strict ps) (hc : find? ps path = some c) {n : NodeId}
    (hn : n ∈ c.nodes) : M path n := by
  obtain ⟨hmem, rfl⟩ := mem_of_find? hc
  exact h.meaning c hmem n hn

lemma Distinct.status_of_mem (h : Distinct ps) (hc : c ∈ ps) (n : NodeId) :
    status ps c.path n = some (c.nodes.contains n) := by
  rw [status, h.find?_of_mem hc]
  rfl

/-- A list is sound if its nodes mean something, and where a strict pipeline leaves one for each
path. -/
lemma Distinct.sound (h : Distinct ps)
    (hmeaning : ∀ path n, status ps path n = some true → M path n)
    (hleft : strict = true → ∀ path ∈ Match.paths ps, ∃ n, status ps path n = some true) :
    Sound M strict ps :=
  { h with
    meaning := fun p hp n hn => hmeaning _ _ (by rw [h.status_of_mem hp, contains_iff_mem.2 hn])
    inhabited := fun hstrict p hp hnil => by
      obtain ⟨n, hn⟩ := hleft hstrict p.path (mem_paths hp)
      rw [h.status_of_mem hp, hnil] at hn
      cases hn }

end Candidate

open Candidate (sound_nil status)

abbrev Context.Sound (ctx : Context) (M : String → NodeId → Prop) : Prop :=
  Candidate.Sound M ctx.strict ctx.properties

/-! ## Narrowing models -/

lemma mem_intersectModels {groups : List (List ModelId)} {m : ModelId}
    (h : m ∈ intersectModels groups) : ∃ g ∈ groups, m ∈ g := by
  cases groups with
  | nil => cases h
  | cons first rest =>
    refine ⟨first, mem_cons_self, ?_⟩
    induction rest generalizing first with
    | nil => exact h
    | cons g rest ih => exact (mem_filter.1 (ih _ h)).1

namespace Match

variable {ctx : Context} {models : List ModelId} {groups : List (List ModelId)}

/-- Groups of models that only leave some of those that were there. -/
def Leaves (models : List ModelId) (groups : List (List ModelId)) : Prop := ∀ g ∈ groups, g ⊆ models

lemma Leaves.inter (h : Leaves models groups) : intersectModels groups ⊆ models := by
  intro m hm
  obtain ⟨g, hg, hm⟩ := mem_intersectModels hm
  exact h g hg hm

lemma Leaves.union (h : Leaves models groups) : unionModels groups ⊆ models := by
  intro m hm
  obtain ⟨g, hg, hm⟩ := mem_unionModels.1 hm
  exact h g hg hm

lemma leaves_nil : Leaves models [] := fun _ h => by cases h

lemma Leaves.cons {first : List ModelId} {rest : List (List ModelId)} (h : first ⊆ models)
    (hrest : Leaves models rest) : Leaves models (first :: rest) :=
  forall_mem_cons.2 ⟨h, hrest⟩

lemma spares_same : Spares (· ⊆ models) (.ok models) := .ok (Subset.refl _)

section

variable (site : Site) (field : Selector)

lemma nameTest_spares (v : Json) (op : CompareOp) :
    Spares (fun _ => True) (nameTest site field v op) := by
  unfold nameTest
  dsimp only
  split
  · exact .ok trivial
  · exact .error rfl

lemma modelsMatching_spares (filter : NameFilter) :
    Spares (· ⊆ models) (modelsMatching ctx site field filter models) := by
  cases field with
  | object => exact .guard rfl (.ok filter_sublist.subset)
  | type =>
    have hfound : (models.filter fun m => (ctx.catalog.model m).isTyped).filter
        (fun m => filter.accepts (ctx.catalog.model m).type) ⊆ models :=
      (filter_sublist.trans filter_sublist).subset
    unfold modelsMatching
    dsimp only
    split
    · exact .guard rfl (.guard rfl (.ok hfound))
    · exact .ok hfound

lemma modelsOneOf_spares (elements : List Operand) :
    Spares (Leaves models) (modelsOneOf ctx site field models elements) := by
  induction elements with
  | nil => exact .ok leaves_nil
  | cons v rest ih =>
    cases v with
    | simple w =>
      exact (nameTest_spares ..).bind fun t _ _ => (modelsMatching_spares ..).bind
        fun found _ hfound => ih.bind fun more _ hmore => .ok (hmore.cons hfound)
    | _ => exact ih.bind fun more _ hmore => .ok (hmore.cons (Subset.refl _))

lemma exclusions_spares (elements : List Operand) :
    Spares (fun _ => True) (exclusions site field elements) := by
  induction elements with
  | nil => exact .ok trivial
  | cons v rest ih =>
    cases v with
    | simple w => exact (nameTest_spares ..).bind fun t _ _ => ih.bind fun _ _ _ => .ok trivial
    | _ => exact .ok trivial

lemma leafModels_spares (op : MatchOp) (v : Operand) :
    Spares (· ⊆ models) (leafModels ctx site field op v models) := by
  unfold leafModels
  split
  · exact (modelsOneOf_spares ..).map fun _ h => h.union
  · refine (exclusions_spares ..).bind fun ts _ _ => ?_
    cases ts with
    | none => exact spares_same
    | some ts => exact modelsMatching_spares ..
  · exact (nameTest_spares ..).bind fun _ _ _ => modelsMatching_spares ..
  · exact .error rfl

end

mutual

/-- **Conditions leave some of the models.** -/
lemma childModels_spares : ∀ (v : Operand) (site : Site) (models : List ModelId),
    Spares (· ⊆ models) (childModels ctx site models v)
  | .variable _, site, models => spares_same
  | .expression cs, site, models => by
    rw [childModels]
    split
    · exact spares_same
    · split
      · exact (childrenModels_spares cs site models).map fun _ h => h.inter
      · exact spares_same
  | .array elements, site, models => by
    have helements := elementsModels_spares elements site models
    rw [childModels]
    split
    · split
      · exact helements.map fun _ h => h.inter
      · exact helements.map fun _ h => h.inter
      · exact helements.map fun _ h => h.union
      iterate 2
        · split
          · exact leafModels_spares ..
          · exact spares_same
      · exact spares_same
    · split
      · exact .error rfl
      · exact spares_same
  | .simple v, site, models | .property v, site, models | .raw v, site, models => by
    simp only [childModels]
    split
    · exact spares_same
    · split
      · split
        case h_6 => exact leafModels_spares ..
        all_goals exact spares_same
      · exact leafModels_spares ..

lemma childrenModels_spares : ∀ (cs : Children) (site : Site)
    (models : List ModelId), Spares (Leaves models) (childrenModels ctx site models cs)
  | [], site, models => .ok leaves_nil
  | (key, v) :: rest, site, models => by
    exact (childModels_spares v _ models).bind fun _ _ hfirst =>
      (childrenModels_spares rest site models).bind fun _ _ hmore => .ok (hmore.cons hfirst)

lemma elementsModels_spares : ∀ (elements : List Operand) (site : Site)
    (models : List ModelId), Spares (Leaves models) (elementsModels ctx site models elements)
  | [], site, models => .ok leaves_nil
  | v :: rest, site, models => by
    cases v with
    | expression cs =>
      exact (childrenModels_spares cs site models).bind fun _ _ hfirst =>
        (elementsModels_spares rest site models).bind fun _ _ hmore => .ok (hmore.cons hfirst.inter)
    | _ =>
      exact (elementsModels_spares rest site models).bind fun _ _ hmore =>
        .ok (hmore.cons (Subset.refl _))

end

lemma expressionModels_spares (site : Site) (cs : Children) :
    Spares (· ⊆ models) (expressionModels ctx site cs models) :=
  (childrenModels_spares cs site models).map fun _ h => h.inter

lemma componentModels_spares (site : Site) (v : Operand) :
    Spares (· ⊆ models) (componentModels ctx site v models) := by
  unfold componentModels
  split
  · exact .ok (nil_subset _)
  · split
    · exact expressionModels_spares ..
    · exact (elementsModels_spares _ site models).map fun _ h => h.union
    · exact spares_same

/-! ## Narrowing properties -/

/-- Where nothing is demanded of a path, a formula says what was said before, or nothing. -/
lemma Narrowing.verdict_of_not_demanded {t : Narrowing} {leaf : Demand → Bool}
    {silent : Option Bool} {path : String} (h : ∀ demand, (path, demand) ∉ t.demands) :
    t.verdict leaf silent path = none ∨ t.verdict leaf silent path = silent := by
  induction t with
  | refuse | nothing => exact .inl rfl
  | keep => exact .inr rfl
  | resolve p demand =>
    refine .inr (if_neg fun hp => h demand ?_)
    exact hp ▸ mem_singleton_self _
  | join j t u iht ihu =>
    have ht := iht fun demand hd => h demand (mem_append_left _ hd)
    have hu := ihu fun demand hd => h demand (mem_append_right _ hd)
    rw [verdict]
    rcases ht with ht | ht <;> rcases hu with hu | hu <;> rw [ht, hu]
    · exact .inl rfl
    · exact .inr (j.none_join _)
    · exact .inr (j.join_none _)
    · exact .inr (j.join_self _)

section

variable {M : String → NodeId → Prop} {ps once twice : List Candidate} {t : Narrowing}

lemma meaning_of_mem_candidatesAt {strict : Bool} (hps : Candidate.Sound M strict ps)
    (hmeets : ctx.catalog.Meets models ps M) {path : String} {n : NodeId}
    (h : n ∈ candidatesAt ctx models ps path) : M path n := by
  unfold candidatesAt at h
  split at h
  · next c hc => exact hps.of_find? hc h
  · next hnone => exact hmeets path n hnone (Catalog.mem_gatherNodes h)

/-- **Two rounds of narrowing keep a list sound.**  A path that the match demands something of has a
node, because the second round finds one for it and leaves it; another path keeps its nodes. -/
lemma twice_sound (hps : Candidate.Sound M ctx.strict ps) (hmeets : ctx.catalog.Meets models ps M)
    (hfirst : Realizes ctx models ps t (.ok once))
    (hsecond : Realizes ctx models once t (.ok twice)) : Candidate.Sound M ctx.strict twice := by
  refine (hsecond.clean rfl).toDistinct.sound (fun path n hn => ?_) fun hstrict path hpath => ?_
  · refine meaning_of_mem_candidatesAt hps hmeets ?_
    exact contains_iff_mem.1 (contains_of_left hfirst (left_before hfirst hsecond hn))
  · have honce : path ∈ paths once := by
      rw [← isSome_status 0] at hpath ⊢
      exact (isSome_status_twice hfirst hsecond).1 hpath
    by_cases hdemand : ∃ demand, (path, demand) ∈ t.demands
    · obtain ⟨demand, hdemand⟩ := hdemand
      obtain ⟨n, hn, hadmits⟩ := ((hsecond.runs.1 ⟨twice, rfl⟩).2 _ hdemand).left hstrict
      exact ⟨n, admitted_stays hfirst hsecond hdemand ((mem_candidatesAt_iff honce).1 hn) hadmits⟩
    · have hnone : ∀ demand, (path, demand) ∉ t.demands := fun demand hd => hdemand ⟨demand, hd⟩
      have hkept : ∀ n, status twice path n = status ps path n := by
        intro n
        have hn := (isSome_status n).2 hpath
        have hn' := (isSome_status n).2 honce
        rw [hsecond.status rfl] at hn ⊢
        rw [hfirst.status rfl] at hn'
        rcases @Narrowing.verdict_of_not_demanded t (leafVerdict ctx models once path n)
          (status once path n) path hnone with hthen | hthen
        · rw [hthen] at hn
          cases hn
        · rcases @Narrowing.verdict_of_not_demanded t (leafVerdict ctx models ps path n)
            (status ps path n) path hnone with hbefore | hbefore
          · rw [hbefore] at hn'
            cases hn'
          · rw [hthen, hfirst.status rfl, hbefore]
      rw [← isSome_status 0, hkept, isSome_status] at hpath
      obtain ⟨c, hc, rfl⟩ := mem_map.1 hpath
      obtain ⟨n, hn⟩ := exists_mem_of_ne_nil _ (hps.inhabited hstrict c hc)
      exact ⟨n, by rw [hkept, hps.status_of_mem hc, contains_iff_mem.2 hn]⟩

/-! ## Trails -/

variable {base : List ModelId} {trail : Trail}

/-- What is left inside every component on the way: some of the models, and sound candidates. -/
def TrailSound (ctx : Context) (M : String → NodeId → Prop) (base : List ModelId) (trail : Trail) :
    Prop :=
  ∀ f ∈ trail, Spares (· ⊆ base) f.models.get ∧ Spares (Candidate.Sound M ctx.strict) f.properties.get.result

lemma narrowTwice_sound {address : List Nat} {site : Site} {v : Operand}
    {models : Except CompileError (List ModelId)} {above : Compile (List Candidate)}
    (hmeets : ctx.catalog.Meets base [] M) (hmodels : Spares (· ⊆ base) models)
    (habove : Spares (Candidate.Sound M ctx.strict) above.result) :
    Spares (Candidate.Sound M ctx.strict) (Trail.narrowTwice ctx address site v models above).result := by
  refine .bindResult (x := Journaled.of models) hmodels fun ms _ hms => .bindResult habove
    fun ps _ hps => ?_
  have hfirst := @componentProperties_realizes ctx ms ps hps.toDistinct site v
  refine .bindResult hfirst.spares fun once honce _ => ?_
  rw [honce] at hfirst
  have hsecond := @componentProperties_realizes ctx ms once (hfirst.clean rfl).toDistinct site v
  refine hsecond.spares.imp fun twice htwice _ => ?_
  rw [htwice] at hsecond
  exact twice_sound hps (hmeets.subset hms) hfirst hsecond

lemma root_sound (v : Operand) (hps : ctx.Sound M) (hbase : Spares (· ⊆ base)
      (expressionModels ctx (Site.root ctx.kind.key) v.children ctx.models))
    (hmeets : ctx.catalog.Meets base [] M) : TrailSound ctx M base (Trail.root ctx v) := by
  intro f hf
  cases mem_singleton.1 hf
  exact ⟨hbase, narrowTwice_sound hmeets hbase (.ok hps)⟩

lemma child_sound (hmeets : ctx.catalog.Meets base [] M) (h : TrailSound ctx M base trail)
    (element index : Nat) (key : String) (v : Operand) :
    TrailSound ctx M base (trail.child ctx element index key v) := by
  cases trail with
  | nil => exact h
  | cons f rest =>
    obtain ⟨hmodels, hproperties⟩ := h f mem_cons_self
    have hchild : Spares (· ⊆ base)
        (do componentModels ctx (f.site.child key) v (← f.models.get)) :=
      hmodels.bind fun above _ habove =>
        (componentModels_spares ..).imp fun _ _ hms _ hm => habove (hms hm)
    exact forall_mem_cons.2 ⟨⟨hchild, narrowTwice_sound hmeets hchild hproperties⟩, h⟩

/-- The candidate of a component's own path belongs to a sound list. -/
lemma property_sound (h : TrailSound ctx M base trail) :
    Spares (fun c => ∀ p ∈ c, p.path = trail.site.propertyPath ∧
      (∀ n ∈ p.nodes, M p.path n) ∧ (ctx.strict = true → p.nodes ≠ [])) trail.property.result := by
  cases trail with
  | nil => exact .ok fun p hp => by cases hp
  | cons f rest =>
    refine .bindResult (h f mem_cons_self).2 fun ps _ hps => .ok fun p hp => ?_
    obtain ⟨hmem, hpath⟩ := mem_of_find? hp
    exact ⟨hpath, hps.meaning p hmem, fun hstrict => hps.inhabited hstrict p hmem⟩

lemma reads_mean {value : Json} (hps : ctx.Sound M) (hmeets : ctx.catalog.Meets ctx.models [] M) :
    ∀ read ∈ Match.reads ctx value, ∀ n ∈ read.nodes, M read.path n := by
  intro read hread n hn
  unfold Match.reads at hread
  split at hread
  · next v _ =>
    obtain ⟨leaf, hleaf, rfl⟩ := mem_map.1 hread
    have hroot := root_sound v hps (expressionModels_spares ..) hmeets
    have hsound := property_sound
      (forall_leavesBelow (v := .expression v.children) (P := fun t _ => TrailSound ctx M _ t)
        (Q := fun leaf => TrailSound ctx M _ leaf.1)
        ⟨fun ht _ => child_sound hmeets ht _ _ _ _, fun ht _ _ => ht⟩ 0 0 v.children hroot rfl
        leaf (mem_filter.1 hleaf).1)
    unfold trailNodes at hn
    split at hn
    · next c hc =>
      rw [hc] at hsound
      obtain ⟨hpath, hmeans, -⟩ := hsound.of_ok c rfl
      exact hpath ▸ hmeans n hn
    · cases hn
  · cases hread

end

end Match

/-! ## Looking up paths -/

variable {ctx : Context} {M : String → NodeId → Prop}

/-- The nodes that a path may mean before it is sorted or unwound. -/
def Context.nodesBefore (ctx : Context) (path : String) : List NodeId :=
  match find? ctx.properties path with
  | some c => c.nodes
  | none => ctx.filterByDiscriminators (ctx.catalog.gatherNodes ctx.models path)

lemma meaning_of_mem_nodesBefore (hps : ctx.Sound M)
    (hmeets : ctx.catalog.Meets ctx.models ctx.properties M) {n : NodeId}
    (h : n ∈ ctx.nodesBefore path) : M path n := by
  unfold Context.nodesBefore at h
  split at h
  · next c hc => exact hps.of_find? hc h
  · next hnone => exact hmeets path n hnone (Catalog.mem_gatherNodes (mem_filter.1 h).1)

/-- A path without a candidate is looked up in the models. -/
lemma nodesBefore_new (h : find? ctx.properties path = none) : ctx.nodesBefore path =
      ctx.filterByDiscriminators (ctx.catalog.gatherNodes ctx.models path) := by
  rw [Context.nodesBefore, h]

lemma distinct_lookup (hps : Candidate.Distinct ctx.properties)
    (hnone : find? ctx.properties path = none) (array : Option Bool) :
    let looked := ctx.properties ++
      [⟨path, ctx.filterByDiscriminators (ctx.catalog.gatherNodes ctx.models path), array⟩]
    Candidate.Distinct looked ∧ ∀ p n, status looked p n =
      if path = p then some ((ctx.nodesBefore path).contains n)
      else status ctx.properties p n := by
  have hfresh : ctx.properties.filter (fun p => p.path != path) = ctx.properties :=
    filter_eq_self.2 fun c hc => by
      simpa using fun heq : c.path = path =>
        find?_eq_none_iff.1 hnone (heq ▸ Match.mem_paths hc)
  rw [← nodesBefore_new hnone]
  have hdistinct := Match.distinct_replace hps ⟨path, ctx.nodesBefore path, array⟩
    (by rw [nodesBefore_new hnone]; exact (Catalog.nodup_gatherNodes ..).filter _)
  have hstatus := fun p n =>
    @Match.status_replace ctx.properties path ⟨path, ctx.nodesBefore path, array⟩ rfl p n
  rw [hfresh] at hdistinct
  simp only [hfresh] at hstatus
  exact ⟨hdistinct, hstatus⟩

/-- Lists that agree on a path, or do not have it, are merged into the same. -/
lemma Junction.foldr_join_same (j : Junction) {b : Bool} {as : List (Option Bool)}
    (h : ∀ a ∈ as, a = none ∨ a = some b) : (as.foldr j.join none = none ∧ ∀ a ∈ as, a = none) ∨
      (as.foldr j.join none = some b ∧ some b ∈ as) := by
  induction as with
  | nil => exact .inl ⟨rfl, fun _ h => by cases h⟩
  | cons a rest ih =>
    obtain ⟨ha, hrest⟩ := forall_mem_cons.1 h
    rw [foldr_cons]
    rcases ih hrest with ⟨hfold, hnone⟩ | ⟨hfold, hmem⟩ <;> rcases ha with rfl | rfl <;> rw [hfold]
    · exact .inl ⟨rfl, forall_mem_cons.2 ⟨rfl, hnone⟩⟩
    · exact .inr ⟨rfl, mem_cons_self⟩
    · exact .inr ⟨rfl, mem_cons_of_mem _ hmem⟩
    · exact .inr ⟨by cases j <;> cases b <;> rfl, mem_cons_self⟩

open Match (paths mem_paths)

lemma Sort.candidatesWith_spares (hps : ctx.Sound M) (path : String) :
    Spares (fun g => path ∈ paths g ∧ Candidate.Clean (flag ctx.properties) g ∧
      ∀ p ∈ paths g, (∀ n, status g p n = some ((ctx.nodesBefore p).contains n)) ∧
        (ctx.strict = true → ctx.nodesBefore p ≠ [])) (Sort.candidatesWith ctx path) := by
  have hknown : ∀ p ∈ paths ctx.properties,
      (∀ n, status ctx.properties p n = some ((ctx.nodesBefore p).contains n)) ∧
        (ctx.strict = true → ctx.nodesBefore p ≠ []) := by
    intro p hp
    obtain ⟨c, hc, rfl⟩ := mem_map.1 hp
    rw [Context.nodesBefore, hps.find?_of_mem hc]
    exact ⟨hps.status_of_mem hc, fun hstrict => hps.inhabited hstrict c hc⟩
  unfold Sort.candidatesWith
  split
  · next hsome => exact .ok ⟨by rwa [← isSome_status 0, status,
      Option.isSome_map], hps.clean, hknown⟩
  · next hnone =>
    have hnone : find? ctx.properties path = none := by simpa using hnone
    obtain ⟨hdistinct, hstatus⟩ := distinct_lookup hps.toDistinct hnone none
    dsimp only
    split
    · exact .error rfl
    · next hleft =>
      refine .ok ⟨by simp [paths], ⟨hdistinct, ?_⟩, fun p hp => ?_⟩
      · exact forall_mem_append.2 ⟨hps.clean.flags,
          forall_mem_singleton.2 (by rw [flag, hnone]; rfl)⟩
      · by_cases hpath : path = p
        · subst hpath
          refine ⟨fun n => (hstatus path n).trans (if_pos rfl), fun hstrict hnil => hleft ?_⟩
          rw [← nodesBefore_new hnone, hnil]
          exact ⟨rfl, hstrict⟩
        · have hp : p ∈ paths ctx.properties := by simpa [paths, Ne.symm hpath] using hp
          refine ⟨fun n => ?_, (hknown p hp).2⟩
          exact ((hstatus p n).trans (if_neg hpath)).trans ((hknown p hp).1 n)

/-- **A sort looks up its paths** and otherwise keeps the candidates. -/
lemma Sort.candidates_spares (hps : ctx.Sound M)
    (hmeets : ctx.catalog.Meets ctx.models ctx.properties M) (names : List String) :
    Spares (fun out => Candidate.Sound M ctx.strict out ∧ names ⊆ paths out ∧
      Candidate.Clean (flag ctx.properties) out) (Sort.candidates ctx names) := by
  refine (Spares.mapM fun path _ => (candidatesWith_spares hps path).imp
    fun g _ h => h.2).bind fun groups hgroups hall => ?_
  obtain ⟨out, hout, hclean, hstatus⟩ := merge_clean .conj fun g hg => (hall g hg).1
  -- all lists that have a path agree on it
  have hsame : ∀ p n, (p ∉ paths out ∧ ∀ g ∈ groups, p ∉ paths g) ∨
      (status out p n = some ((ctx.nodesBefore p).contains n) ∧
        (ctx.strict = true → ctx.nodesBefore p ≠ [])) := by
    intro p n
    have hagree : ∀ a ∈ groups.map fun g => status g p n,
        a = none ∨ a = some ((ctx.nodesBefore p).contains n) := by
      intro a ha
      obtain ⟨g, hg, rfl⟩ := mem_map.1 ha
      by_cases hpg : p ∈ paths g
      · exact .inr (((hall g hg).2 p hpg).1 n)
      · exact .inl (status_eq_none_iff.2 hpg)
    rcases Junction.conj.foldr_join_same hagree with ⟨hnone, hall'⟩ | ⟨hsome, hmem⟩
    · rw [← hstatus, status_eq_none_iff] at hnone
      exact .inl ⟨hnone, fun g hg => status_eq_none_iff.1 (hall' _ (mem_map_of_mem hg))⟩
    · obtain ⟨g, hg, hstat⟩ := mem_map.1 hmem
      have hpg : p ∈ paths g := (isSome_status n).1 (by rw [hstat]; rfl)
      exact .inr ⟨by rw [hstatus, hsome], ((hall g hg).2 p hpg).2⟩
  change Spares _ (merge Junction.conj.combine groups)
  rw [hout]
  refine .ok ⟨hclean.toDistinct.sound (fun p n hn => ?_) fun hstrict p hp => ?_,
    fun name hname => ?_, hclean⟩
  · rcases hsame p n with ⟨hnone, -⟩ | ⟨hsome, -⟩
    · rw [status_eq_none_iff.2 hnone] at hn
      cases hn
    · rw [hsome] at hn
      exact meaning_of_mem_nodesBefore hps hmeets (contains_iff_mem.1 (Option.some.inj hn))
  · obtain ⟨n, hn⟩ := exists_mem_of_ne_nil _ (((hsame p 0).resolve_left fun h => h.1 hp).2 hstrict)
    exact ⟨n, by rw [((hsame p n).resolve_left fun h => h.1 hp).1, contains_iff_mem.2 hn]⟩
  · obtain ⟨g, hg, hwith⟩ := exists_of_mapM hgroups hname
    have hspares := candidatesWith_spares hps name
    rw [hwith] at hspares
    by_contra hnot
    rcases hsame name 0 with ⟨-, hnone⟩ | ⟨hsome, -⟩
    · exact hnone g hg hspares.of_ok.1
    · exact hnot ((isSome_status 0).1 (by rw [hsome]; rfl))

lemma Unwind.setSingle_nodes {ps : List Candidate} :
    paths (Unwind.candidates.setSingle path ps) = paths ps ∧
      ∀ c ∈ Unwind.candidates.setSingle path ps, ∃ d ∈ ps, d.path = c.path ∧ d.nodes = c.nodes := by
  induction ps with
  | nil => exact ⟨rfl, fun _ h => by cases h⟩
  | cons d rest ih =>
    have hrest : ∀ c ∈ rest, ∃ e ∈ d :: rest, e.path = c.path ∧ e.nodes = c.nodes :=
      fun c hc => ⟨c, mem_cons_of_mem _ hc, rfl, rfl⟩
    unfold Unwind.candidates.setSingle
    split
    · exact ⟨rfl, forall_mem_cons.2 ⟨⟨d, mem_cons_self, rfl, rfl⟩, hrest⟩⟩
    · refine ⟨congrArg (d.path :: ·) ih.1, forall_mem_cons.2 ⟨⟨d, mem_cons_self, rfl, rfl⟩, ?_⟩⟩
      intro c hc
      obtain ⟨e, he, hsame⟩ := ih.2 c hc
      exact ⟨e, mem_cons_of_mem _ he, hsame⟩

/-- **An unwind looks up its path** and otherwise keeps the nodes of the candidates. -/
lemma Unwind.candidates_sound (hps : ctx.Sound M)
    (hmeets : ctx.catalog.Meets ctx.models ctx.properties M) {out : List Candidate}
    (h : Unwind.candidates ctx path = .ok out) : Candidate.Sound M ctx.strict out ∧ path ∈ paths out := by
  unfold Unwind.candidates at h
  split at h
  · next hsome =>
    cases h
    obtain ⟨hpaths, hnodes⟩ := @Unwind.setSingle_nodes path ctx.properties
    refine ⟨⟨⟨hpaths ▸ hps.paths, fun c hc => ?_⟩, fun c hc n hn => ?_, fun hstrict c hc => ?_⟩, ?_⟩
    · obtain ⟨d, hd, -, hsame⟩ := hnodes c hc
      exact hsame ▸ hps.nodes d hd
    · obtain ⟨d, hd, hpath, hsame⟩ := hnodes c hc
      exact hpath ▸ hps.meaning d hd n (hsame ▸ hn)
    · obtain ⟨d, hd, -, hsame⟩ := hnodes c hc
      exact hsame ▸ hps.inhabited hstrict d hd
    · rw [hpaths, ← isSome_status 0, status, Option.isSome_map]
      exact hsome
  · next hnone =>
    have hnone : find? ctx.properties path = none := by simpa using hnone
    have hdistinct := (distinct_lookup hps.toDistinct hnone (some false)).1
    dsimp only at h
    split at h
    · cases h
    · next hleft =>
      cases h
      refine ⟨⟨hdistinct, ?_, fun hstrict => ?_⟩, by simp [paths]⟩
      · refine forall_mem_append.2 ⟨hps.meaning, forall_mem_singleton.2 fun n hn => ?_⟩
        rw [← nodesBefore_new hnone] at hn
        exact meaning_of_mem_nodesBefore hps hmeets hn
      · exact forall_mem_append.2 ⟨hps.inhabited hstrict, forall_mem_singleton.2 fun hnil =>
          hleft ⟨isEmpty_iff.2 hnil, hstrict⟩⟩

/-! ## Stages -/

variable {value : Json}

lemma Handover.subset {ps : List Candidate} (h : Handover ctx value models ps) :
    models ⊆ ctx.models := by
  cases h with
  | @narrowed v _ _ _ _ _ hmodels =>
    have hspares := @Match.expressionModels_spares ctx ctx.models (Site.root ctx.kind.key) v.children
    rw [hmodels] at hspares
    exact hspares.of_ok
  | _ => exact Subset.refl _

/-- **A stage hands sound candidates on.** -/
lemma Handover.sound {ps : List Candidate} (h : Handover ctx value models ps) (hps : ctx.Sound M)
    (hmeets : ctx.catalog.Meets models ctx.properties M) : Candidate.Sound M ctx.strict ps := by
  cases h with
  | @narrowed v _ once _ _ _ _ honce htwice =>
    have hfirst := @Match.componentProperties_realizes ctx models _ hps.toDistinct
      (Site.root ctx.kind.key) v
    rw [honce] at hfirst
    have hsecond := @Match.componentProperties_realizes ctx models _ (hfirst.clean rfl).toDistinct
      (Site.root ctx.kind.key) v
    rw [htwice] at hsecond
    exact Match.twice_sound hps hmeets hfirst hsecond
  | @sorted fields _ _ _ hfound =>
    have hspares := Sort.candidates_spares hps hmeets (fields.map Prod.fst)
    rw [hfound] at hspares
    exact hspares.of_ok.1
  | unwound _ _ hfound => exact (Unwind.candidates_sound hps hmeets hfound).1
  | kept => exact hps

lemma nodesOf_mean {strict : Bool} {ps : List Candidate} (h : Candidate.Sound M strict ps)
    (path : String) : ∀ n ∈ nodesOf ps path, M path n := by
  intro n hn
  unfold nodesOf at hn
  split at hn
  · next c hc => exact h.of_find? hc hn
  · cases hn

lemma candidateNodes_mean (hps : ctx.Sound M)
    (hmeets : ctx.catalog.Meets ctx.models [] M) (path : String) :
    ∀ n ∈ (ctx.candidateNodes path).1, M path n := by
  intro n hn
  unfold Context.candidateNodes at hn
  split at hn
  · next c hc => exact hps.of_find? hc hn
  · exact hmeets path n rfl (Catalog.mem_gatherNodes hn)

lemma outputReads_mean {v : Except CompileError Operand} (hps : ctx.Sound M)
    (hmeets : ctx.catalog.Meets ctx.models [] M) :
    ∀ read ∈ outputReads ctx v, ∀ n ∈ read.nodes, M read.path n := by
  intro read hread n hn
  cases v with
  | error e => cases hread
  | ok v =>
    obtain ⟨path, -, rfl⟩ := mem_map.1 hread
    exact candidateNodes_mean hps hmeets path n (mem_filter.1 hn).1

/-- **What a stage reads is sound** if its candidates are. -/
lemma stageReads_mean (hps : ctx.Sound M) (hmeets : ctx.catalog.Meets ctx.models [] M) :
    ∀ read ∈ stageReads ctx value, ∀ n ∈ read.nodes, M read.path n := by
  intro read hread
  unfold stageReads at hread
  split at hread
  case h_1 => exact Match.reads_mean hps hmeets read hread
  case h_2 =>
    unfold Sort.reads at hread
    split at hread
    · next fields _ =>
      have hspares := Sort.candidates_spares hps (hmeets.subset (Subset.refl _)) (fields.map Prod.fst)
      split at hread
      · next properties hfound =>
        rw [hfound] at hspares
        obtain ⟨f, -, rfl⟩ := mem_map.1 hread
        exact nodesOf_mean hspares.of_ok.1 f.1
      · cases hread
    · cases hread
  case h_3 | h_4 | h_5 => exact outputReads_mean hps hmeets read hread
  case h_6 =>
    unfold Unwind.reads at hread
    split at hread
    · next path _ =>
      split at hread
      · next properties hfound =>
        cases mem_singleton.1 hread
        exact nodesOf_mean (Unwind.candidates_sound hps (hmeets.subset (Subset.refl _)) hfound).1 path
      · cases hread
    · cases hread
  case h_7 | h_8 => cases hread

/-! ## Runs -/

namespace Pipeline

variable {s : Setting} {p q : Progress} {done : List (Context × Json)} {r : Context × Json}
  {v : Json} {back : List (Context × Json)}

/-- **Stages that keep the shape of documents keep what is known**: paths mean nodes of the models
that were left before them. -/
lemma Runs.sound (h : Runs s p done q)
    (hdone : ∀ r ∈ done, r.1.kind.isProjection = false) (hmodels : p.models ⊆ known)
    (hps : Candidate.Sound (p.catalog.FoundIn known) s.options.strict p.properties) :
    q.catalog = p.catalog ∧ q.models ⊆ known ∧
      Candidate.Sound (p.catalog.FoundIn known) s.options.strict q.properties := by
  induction h with
  | done p => exact ⟨rfl, hmodels, hps⟩
  | step hstep _ ih =>
    obtain ⟨hkind, hdone⟩ := forall_mem_cons.1 hdone
    obtain ⟨hcatalog, hcontext, hproperties, hoptions⟩ := hstep.1.context
    rcases hstep.cases with ⟨-, hsame, hover⟩ | ⟨hprojects, -⟩
    · have hsub := hover.subset
      rw [hcontext] at hsub
      rw [← hproperties, ← hoptions, ← hcatalog] at hps
      have hnext := hover.sound hps (Catalog.meets_foundIn fun _ hm => hmodels (hsub hm))
      rw [Context.strict, hoptions, hcatalog, ← hsame] at hnext
      obtain ⟨hthen, hrest⟩ := ih hdone (fun _ hm => hmodels (hsub hm)) hnext
      rw [← hsame]
      exact ⟨hthen, hrest⟩
    · rw [hkind] at hprojects
      cases hprojects

lemma start_properties (h : start s = .ok p) : p.properties = [] := by
  obtain ⟨_, -, h⟩ := except_bind_ok_iff.1 h
  cases h
  rfl

lemma Step.sound {next : Progress} (h : Step s p r next)
    (hps : Candidate.Sound (fun _ _ => True) s.options.strict p.properties) :
    Candidate.Sound (fun _ _ => True) s.options.strict next.properties := by
  obtain ⟨-, -, hproperties, hoptions⟩ := h.1.context
  rcases h.cases with ⟨-, -, hover⟩ | ⟨-, -, -, -, -, hnil, -⟩
  · rw [← hproperties, ← hoptions] at hps
    rw [← hoptions]
    exact hover.sound hps fun _ _ _ _ => trivial
  · rw [hnil]
    exact sound_nil

/-- **What holds at the start and after a projection, and is kept by every other stage, holds of
every reached stage.**  It may depend on the stages before. -/
lemma reached_keeps {P : List (Context × Json) → Catalog → List ModelId → List Candidate → Prop}
    (hstart : ∀ {p}, start s = .ok p → P [] p.catalog p.models [])
    (hproject : ∀ {done c model}, P done c [model] [])
    (hover : ∀ {done ctx value output}, (compileStage ctx value).result = .ok output →
      Handover ctx value output.models output.properties → ctx.options = s.options →
      ctx.Sound (fun _ _ => True) → P done ctx.catalog ctx.models ctx.properties →
      P (done ++ [(ctx, value)]) ctx.catalog output.models output.properties)
    (h : reached s v = done ++ r :: back) :
    Candidate.Sound (fun _ _ => True) s.options.strict r.1.properties ∧
      P done r.1.catalog r.1.models r.1.properties := by
  obtain ⟨p, q, hp, hruns, hr⟩ := reached_runs h
  obtain ⟨hcatalog, hmodels, hproperties, -⟩ := hr.context
  rw [hcatalog, hmodels, hproperties]
  refine hruns.keeps (P := fun done p =>
    Candidate.Sound (fun _ _ => True) s.options.strict p.properties ∧
      P done p.catalog p.models p.properties) (fun {done p r next} hkept hstep => ?_) [] ?_
  · refine ⟨hstep.sound hkept.1, ?_⟩
    obtain ⟨hr, output, houtput, hnext⟩ := hstep
    obtain ⟨hcatalog, hmodels, hproperties, hoptions⟩ := hr.context
    rw [← hcatalog, ← hmodels, ← hproperties, ← hoptions] at hkept
    rcases compileStage_cases houtput with ⟨-, hnone, hnew⟩ | ⟨-, projection, hsome, -⟩
    · simp only [advance, hnone] at hnext
      cases hnext
      rw [← hcatalog]
      exact hover houtput hnew hoptions hkept.1 hkept.2
    · simp only [advance, hsome] at hnext
      cases hnext
      exact hproject
  · rw [start_properties hp]
    exact ⟨sound_nil, hstart hp⟩

/-- **The candidates of every reached stage are sound.** -/
lemma reached_sound (h : r ∈ reached s v) :
    Candidate.Sound (fun _ _ => True) s.options.strict r.1.properties := by
  obtain ⟨front, back, hreached⟩ := append_of_mem h
  exact (reached_keeps (P := fun _ _ _ _ => True) (fun _ => trivial) trivial
    (fun _ _ _ _ _ => trivial) hreached).1

/-- **After a projection only its own model is left**, up to the next one: paths mean nodes of that
model, and candidates are sound with regard to it. -/
lemma reached_after_projection {front middle : List (Context × Json)} {r₁ r₂ : Context × Json}
    (h : reached s v = front ++ r₁ :: (middle ++ r₂ :: back))
    (hproject : r₁.1.kind.isProjection = true)
    (hmiddle : ∀ r ∈ middle, r.1.kind.isProjection = false) :
    ∃ output projection type base, (compileStage r₁.1 r₁.2).result = .ok output ∧
      output.projection = some projection ∧
      let added := r₁.1.catalog.addProjected s.options.object type projection.nodes base
      r₂.1.catalog = added.2 ∧ r₂.1.models ⊆ [added.1] ∧
        Candidate.Sound (added.2.FoundIn [added.1]) r₂.1.strict r₂.1.properties := by
  rw [← cons_append, ← append_assoc] at h
  obtain ⟨_, later, -, hruns, hlater⟩ := reached_runs h
  obtain ⟨before, next, -, hstep, hrest⟩ := hruns.split
  obtain ⟨hcatalog, hmodels, hproperties, hoptions⟩ := hlater.context
  rcases hstep.cases with ⟨hkind, -⟩ |
    ⟨-, output, projection, houtput, hsome, hnil, hnext, hone⟩
  · rw [hproject] at hkind
    cases hkind
  · refine ⟨output, projection, before.catalog.agreedType r₁.1.models,
      if r₁.1.kind = .addFields then r₁.1.models else [], houtput, hsome, ?_⟩
    dsimp only at hnext hone ⊢
    rw [hstep.1.context.1, hcatalog, hmodels, hproperties, Context.strict, hoptions, ← hnext, ← hone]
    exact hrest.sound hmiddle (Subset.refl _) (by rw [hnil]; exact sound_nil)

end Pipeline

end Conduit
