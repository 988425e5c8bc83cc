import Conduit.Proofs.CandidateModels
import Conduit.Proofs.KeyOrder

/-!
# Narrowing and the order of keys

Conditions that differ only in the order of keys leave the same models and the same properties.

Models have an order of their own, and it decides which nodes a path gets first.  Groups of models
are intersected in the order of the first group.  So that this does not matter, `object` and `type`
are compared one by one and not inside `$or` (`isSteady`): then every condition leaves models in the
order they came in.  Where no node lives in a set, a condition adds the path it names to the
properties and takes none away (`sameModels`, `narrowTwice_alike`).
-/

namespace Conduit

open List Candidate Journaled

/-- No node lives in a set. -/
abbrev Catalog.SetFree (c : Catalog) : Prop := ∀ id, c.discriminatorKey id = none

namespace Match

section

/-! ## Models -/

/-- Whether a place does not select models, or does so where all conditions must hold and not by a
list. -/
def selectsPlainly (site : Site) (inOr : Bool) : Bool :=
  (Selector.ofPath? site.propertyPath).isNone || !inOr && site.matchOp? != some .oneOf

mutual

/-- Whether `object` and `type` are compared with no list of names, and not inside `$or`. -/
def isSteady (site : Site) (inOr : Bool) : Operand → Bool
  | .expression cs => selectsPlainly site inOr && isSteadyBelow site inOr cs
  | .array es => selectsPlainly site inOr && isSteadyAmong site (inOr || site.matchOp? == some .or) es
  | _ => selectsPlainly site inOr

def isSteadyBelow (site : Site) (inOr : Bool) : Children → Bool
  | [] => true
  | (key, v) :: rest => isSteady (site.child key) inOr v && isSteadyBelow site inOr rest

def isSteadyAmong (site : Site) (inOr : Bool) : List Operand → Bool
  | [] => true
  | .expression cs :: rest => isSteadyBelow site inOr cs && isSteadyAmong site inOr rest
  | _ :: rest => isSteadyAmong site inOr rest

end

variable {site : Site} {v : Operand} {vs : List Operand} {groups : List (List ModelId)}
  {field : Selector} {found : List ModelId}

lemma isSteadyBelow_iff {inOr : Bool} {cs : Children} :
    isSteadyBelow site inOr cs = true ↔ ∀ c ∈ cs, isSteady (site.child c.1) inOr c.2 = true := by
  induction cs with
  | nil => simp [isSteadyBelow]
  | cons c rest ih => rw [isSteadyBelow, Bool.and_eq_true, ih, forall_mem_cons]

lemma isSteadyAmong_children {inOr : Bool} (h : isSteadyAmong site inOr vs = true) (hv : v ∈ vs) :
    isSteadyBelow site inOr v.children = true := by
  induction vs with
  | nil => cases hv
  | cons u rest ih =>
    cases u with
    | expression cs =>
      rw [isSteadyAmong, Bool.and_eq_true] at h
      rcases mem_cons.1 hv with rfl | hv
      · exact h.1
      · exact ih h.2 hv
    | _ =>
      rcases mem_cons.1 hv with rfl | hv
      · rfl
      · exact ih h hv

/-- Some of the models in their order; inside `$or` all or none of them. -/
def InOrder (models : List ModelId) (inOr : Bool) (found : List ModelId) : Prop :=
  (∃ p : ModelId → Bool, found = models.filter p) ∧ (inOr = true → found = models ∨ found = [])

variable {models : List ModelId} {inOr : Bool}

lemma inOrder_all : InOrder models inOr models := ⟨⟨fun _ => true, by simp⟩, fun _ => .inl rfl⟩

lemma inOrder_nil : InOrder models inOr [] := ⟨⟨fun _ => false, by simp⟩, fun _ => .inr rfl⟩

/-- Groups that have the models in order are intersected in that order. -/
lemma intersectModels_eq_filter (hne : groups ≠ [])
    (h : ∀ g ∈ groups, ∃ p : ModelId → Bool, g = models.filter p) :
    intersectModels groups = models.filter fun m => groups.all (·.contains m) := by
  have hfold : ∀ (rest : List (List ModelId)) (p : ModelId → Bool),
      rest.foldl (fun acc group => acc.filter group.contains) (models.filter p) =
        models.filter fun m => p m && rest.all (·.contains m) := by
    intro rest
    induction rest with
    | nil => simp
    | cons g rest ih =>
      intro p
      rw [foldl_cons, filter_filter, ih]
      simp [Bool.and_assoc, Bool.and_comm]
  cases groups with
  | nil => exact absurd rfl hne
  | cons g rest =>
    obtain ⟨p, rfl⟩ := h g mem_cons_self
    rw [intersectModels, hfold]
    refine filter_congr fun m hm => ?_
    simp [hm]

lemma inOrder_intersectModels (h : ∀ g ∈ groups, InOrder models inOr g) :
    InOrder models inOr (intersectModels groups) := by
  by_cases hne : groups = []
  · rw [hne]
    exact inOrder_nil
  rw [intersectModels_eq_filter hne fun g hg => (h g hg).1]
  refine ⟨⟨_, rfl⟩, fun hor => ?_⟩
  by_cases hall : ∀ g ∈ groups, g = models
  · refine .inl (filter_eq_self.2 fun m hm => all_eq_true.2 fun g hg => ?_)
    rw [hall g hg]
    exact contains_iff_mem.2 hm
  · obtain ⟨g, hg, hempty⟩ : ∃ g ∈ groups, g = [] := by
      by_contra hnone
      exact hall fun g hg => ((h g hg).2 hor).resolve_right fun hempty => hnone ⟨g, hg, hempty⟩
    refine .inr (filter_eq_nil_iff.2 fun m _ hin => ?_)
    have := all_eq_true.1 hin g hg
    simp [hempty] at this

/-- **The order in which groups are intersected does not matter.** -/
lemma intersectModels_perm {groups' : List (List ModelId)}
    (h : ∀ g ∈ groups, InOrder models inOr g) (hperm : groups ~ groups') :
    intersectModels groups = intersectModels groups' := by
  by_cases hne : groups = []
  · rw [hne] at hperm ⊢
    rw [hperm.nil_eq]
  · have hne' : groups' ≠ [] := fun hnil => hne (hnil ▸ hperm).eq_nil
    rw [intersectModels_eq_filter hne fun g hg => (h g hg).1,
      intersectModels_eq_filter hne' fun g hg => (h g (hperm.mem_iff.2 hg)).1]
    simp only [hperm.all_eq]

lemma unionModels_copies (hnodup : models.Nodup) (h : ∀ g ∈ groups, g = models ∨ g = []) :
    unionModels groups = models ∨ unionModels groups = [] := by
  have hnew : ∀ (ms acc : List ModelId), (acc ++ ms).Nodup →
      ms.foldl (fun acc m => if acc.contains m then acc else acc ++ [m]) acc = acc ++ ms := by
    intro ms
    induction ms with
    | nil => simp
    | cons m rest ih =>
      intro acc hms
      have hm : m ∉ acc := fun hm => (nodup_append.1 hms).2.2 m hm m mem_cons_self rfl
      rw [foldl_cons, if_neg (by simpa using hm), ih _ (by simpa using hms), append_assoc]
      rfl
  have hold : ∀ (ms : List ModelId), (∀ m ∈ ms, m ∈ models) →
      ms.foldl (fun acc m => if acc.contains m then acc else acc ++ [m]) models = models := by
    intro ms hms
    induction ms with
    | nil => rfl
    | cons m rest ih =>
      rw [forall_mem_cons] at hms
      rw [foldl_cons, if_pos (contains_iff_mem.2 hms.1), ih hms.2]
  have hfold : ∀ acc, acc = models ∨ acc = [] →
      let out := groups.flatten.foldl (fun acc m => if acc.contains m then acc else acc ++ [m]) acc
      out = models ∨ out = [] := by
    induction groups with
    | nil => exact fun acc hacc => hacc
    | cons g rest ih =>
      rw [forall_mem_cons] at h
      intro acc hacc
      rw [flatten_cons, foldl_append]
      refine ih h.2 _ ?_
      rcases h.1 with rfl | rfl
      · rcases hacc with rfl | rfl
        · exact .inl (hold _ fun m hm => hm)
        · exact .inl (hnew g [] hnodup)
      · exact hacc
  exact hfold [] (.inr rfl)

variable (ctx : Context) {op : MatchOp} {w : Operand} {ws : List Operand}

lemma modelsMatching_inOrder {filter : NameFilter}
    (h : modelsMatching ctx site field filter models = .ok found) :
    ∃ p : ModelId → Bool, found = models.filter p := by
  cases field with
  | object =>
    simp only [modelsMatching, except_guard_ok_iff] at h
    cases h.2
    exact ⟨_, rfl⟩
  | type =>
    simp only [modelsMatching, filter_filter] at h
    split at h
    · simp only [except_guard_ok_iff] at h
      cases h.2.2
      exact ⟨_, rfl⟩
    · cases h
      exact ⟨_, rfl⟩

lemma leafModels_inOrder (hop : op ≠ .oneOf)
    (h : leafModels ctx site field op v models = .ok found) :
    ∃ p : ModelId → Bool, found = models.filter p := by
  unfold leafModels at h
  split at h
  · exact absurd rfl hop
  · obtain ⟨ts, -, h⟩ := except_bind_ok_iff.1 h
    split at h
    · exact modelsMatching_inOrder ctx h
    · cases h
      exact ⟨fun _ => true, by simp⟩
  · obtain ⟨t, -, h⟩ := except_bind_ok_iff.1 h
    exact modelsMatching_inOrder ctx h
  · cases h

/-- Conditions that differ in the order of keys leave the same models, in order. -/
def SameModels (v w : Operand) : Prop :=
  ∀ (site : Site) (models : List ModelId) (inOr : Bool), models.Nodup →
    (isSteady site inOr v = true → Lifts (fun g g' => g = g' ∧ InOrder models inOr g)
      (childModels ctx site models v) (childModels ctx site models w)) ∧
    (isSteadyBelow site inOr v.children = true → Lifts (fun g g' => g = g' ∧ InOrder models inOr g)
      (expressionModels ctx site v.children models) (expressionModels ctx site w.children models))

lemma childrenModels_eq_mapM (site : Site) (models : List ModelId) (cs : Children) :
    childrenModels ctx site models cs =
      cs.mapM fun c => childModels ctx (site.child c.1) models c.2 := by
  induction cs with
  | nil => rfl
  | cons c rest ih => rw [childrenModels, mapM_cons, ih]

/-- The models that one element of a list leaves. -/
def elementModels (site : Site) (models : List ModelId) (v : Operand) :
    Except CompileError (List ModelId) :=
  if v.isExpression then expressionModels ctx site v.children models else .ok models

lemma elementsModels_eq_mapM (site : Site) (models : List ModelId) (vs : List Operand) :
    elementsModels ctx site models vs = vs.mapM (elementModels ctx site models) := by
  induction vs with
  | nil => rfl
  | cons v rest ih =>
    cases v with
    | expression cs =>
      rw [elementsModels, mapM_cons, ih]
      cases h : childrenModels ctx site models cs <;>
        simp [elementModels, Operand.isExpression, Operand.children, expressionModels, h] <;> rfl
    | _ =>
      unfold elementsModels
      rw [mapM_cons, ih]
      rfl

lemma isExpression_reordered (h : Operand.Reordered v w) : v.isExpression = w.isExpression := by
  cases v with
  | expression cs =>
    obtain ⟨ds, rfl, -⟩ := Operand.reordered_expression.1 h
    rfl
  | array vs =>
    obtain ⟨ws, rfl, -⟩ := Operand.reordered_array.1 h
    rfl
  | _ => rw [show w = _ from h]

lemma elementsModels_reordered (hnodup : models.Nodup)
    (h : Forall₂ (fun v w => Operand.Reordered v w ∧ SameModels ctx v w) vs ws)
    (hsteady : isSteadyAmong site inOr vs = true) :
    Lifts (Forall₂ fun g g' => g = g' ∧ InOrder models inOr g)
      (elementsModels ctx site models vs) (elementsModels ctx site models ws) := by
  rw [elementsModels_eq_mapM, elementsModels_eq_mapM]
  refine .mapM_forall₂ (forall₂_mem_mono h fun v hv w _ hvw => ?_)
  rw [elementModels, elementModels, ← isExpression_reordered hvw.1]
  split
  · exact (hvw.2 site models inOr hnodup).2 (isSteadyAmong_children hsteady hv)
  · exact .ok ⟨rfl, inOrder_all⟩

lemma exclusions_reordered (h : Forall₂ Operand.Reordered vs ws) :
    exclusions site field vs = exclusions site field ws := by
  induction h with
  | nil => rfl
  | @cons v w _ _ hv _ ih =>
    cases v with
    | simple x =>
      rw [show w = .simple x from hv, exclusions, exclusions, ih]
    | expression cs =>
      obtain ⟨ds, rfl, -⟩ := Operand.reordered_expression.1 hv
      rfl
    | array vs =>
      obtain ⟨ws, rfl, -⟩ := Operand.reordered_array.1 hv
      rfl
    | _ => rw [show w = _ from hv]; rfl

lemma selectsPlainly_of_isSteady (h : isSteady site inOr v = true) :
    selectsPlainly site inOr = true := by
  cases v <;> simp_all [isSteady]

lemma inOrder_of_leaf (hplain : selectsPlainly site inOr = true)
    (hfield : Selector.ofPath? site.propertyPath = some field)
    (hop : site.matchOp? ≠ some .oneOf → op ≠ .oneOf)
    (h : leafModels ctx site field op v models = .ok found) : InOrder models inOr found := by
  simp only [selectsPlainly, hfield, Option.isNone_some, Bool.false_or, Bool.and_eq_true, Bool.not_eq_true',
    bne_iff_ne] at hplain
  refine ⟨leafModels_inOrder ctx (hop hplain.2) h, fun hor => ?_⟩
  rw [hplain.1] at hor
  cases hor

lemma childModels_atom (hatom : v.isAtom = true) (hplain : selectsPlainly site inOr = true)
    (h : childModels ctx site models v = .ok found) : InOrder models inOr found := by
  cases v with
  | expression _ | array _ => cases hatom
  | «variable» _ =>
    cases h
    exact inOrder_all
  | _ =>
    unfold childModels at h
    split at h
    · cases h
      exact inOrder_all
    · next field hfield =>
      split at h
      · next op hop =>
        split at h
        all_goals first
          | (cases h; exact inOrder_all)
          | exact inOrder_of_leaf ctx hplain hfield (fun hne heq => hne (heq ▸ hop)) h
      · exact inOrder_of_leaf ctx hplain hfield (fun _ heq => by cases heq) h

lemma lifts_intersect {x y : Except CompileError (List (List ModelId))}
    (h : Lifts (Paired fun g g' => g = g' ∧ InOrder models inOr g) x y) :
    Lifts (fun g g' => g = g' ∧ InOrder models inOr g) (intersectModels <$> x)
      (intersectModels <$> y) := by
  intro g hg
  obtain ⟨groups, hx, rfl⟩ := except_functor_map_ok_iff.1 hg
  obtain ⟨groups', hy, mid, hmid, hperm⟩ := h groups hx
  have hall : ∀ g ∈ groups, InOrder models inOr g := fun g hg =>
    (Paired.exists_right ⟨mid, hmid, .refl _⟩ hg).elim fun _ h => h.2.2
  have hsame : groups = mid := forall₂_eq_eq_eq ▸ hmid.imp fun _ _ h => h.1
  exact ⟨_, except_functor_map_ok_iff.2 ⟨groups', hy, rfl⟩,
    intersectModels_perm hall (hsame ▸ hperm), inOrder_intersectModels hall⟩

/-- **Conditions leave the same models, whatever the order of their keys.** -/
lemma sameModels (h : Operand.Reordered v w) : SameModels ctx v w := by
  refine Operand.Reordered.induction (P := SameModels ctx) ?_ ?_ ?_ v w h
  · intro v hatom site models inOr hnodup
    refine ⟨fun hsteady g hg =>
      ⟨g, hg, rfl, childModels_atom ctx hatom (selectsPlainly_of_isSteady hsteady) hg⟩, fun _ => ?_⟩
    rw [Operand.children_of_isAtom hatom]
    exact .ok ⟨rfl, inOrder_nil⟩
  · intro vs ws hvs site models inOr hnodup
    refine ⟨fun hsteady => ?_, fun _ => .ok ⟨rfl, inOrder_nil⟩⟩
    have hplain := selectsPlainly_of_isSteady hsteady
    rw [isSteady, Bool.and_eq_true] at hsteady
    have hamong := elementsModels_reordered ctx hnodup hvs hsteady.2
    rw [childModels, childModels]
    cases hop : site.matchOp? with
    | none =>
      cases Selector.ofPath? site.propertyPath with
      | none => exact .ok ⟨rfl, inOrder_all⟩
      | some field => exact .error _ _
    | some op =>
      rw [hop] at hamong
      cases op with
      | and | all =>
        refine lifts_intersect fun groups hgroups => ?_
        obtain ⟨groups', hgroups', hsame⟩ := hamong groups hgroups
        refine ⟨groups', hgroups', groups', hsame.imp fun _ _ h => ⟨h.1, h.2.1, fun hor => ?_⟩, .refl _⟩
        exact h.2.2 (by rw [hor]; rfl)
      | or =>
        intro g hg
        obtain ⟨groups, hgroups, rfl⟩ := except_functor_map_ok_iff.1 hg
        obtain ⟨groups', hgroups', hsame⟩ := hamong groups hgroups
        have hcopies : ∀ g ∈ groups, g = models ∨ g = [] := fun g hg =>
          (Paired.exists_right ⟨groups', hsame, .refl _⟩ hg).elim fun _ h => h.2.2.2 (by simp)
        have heq : groups = groups' := forall₂_eq_eq_eq ▸ hsame.imp fun _ _ h => h.1
        refine ⟨_, except_functor_map_ok_iff.2 ⟨groups', hgroups', rfl⟩, by rw [heq], ?_⟩
        rcases unionModels_copies hnodup hcopies with h | h
        · rw [h]
          exact inOrder_all
        · rw [h]
          exact inOrder_nil
      | noneOf =>
        dsimp only
        cases hfield : Selector.ofPath? site.propertyPath with
        | none => exact .ok ⟨rfl, inOrder_all⟩
        | some field =>
          intro g hg
          refine ⟨g, ?_, rfl, inOrder_of_leaf ctx hplain hfield (fun _ h => by cases h) hg⟩
          rw [← hg]
          simp only [leafModels, exclusions_reordered (hvs.imp fun _ _ h => h.1)]
      | oneOf =>
        dsimp only
        cases hfield : Selector.ofPath? site.propertyPath with
        | none => exact .ok ⟨rfl, inOrder_all⟩
        | some field => simp [selectsPlainly, hfield, hop] at hplain
      | _ => exact .ok ⟨rfl, inOrder_all⟩
  · intro cs ds _ hcs site models inOr hnodup
    have hbelow : isSteadyBelow site inOr cs = true →
        Lifts (fun g g' => g = g' ∧ InOrder models inOr g) (expressionModels ctx site cs models)
          (expressionModels ctx site ds models) := by
      intro hsteady
      rw [isSteadyBelow_iff] at hsteady
      refine lifts_intersect ?_
      rw [childrenModels_eq_mapM, childrenModels_eq_mapM]
      refine .mapM_paired hcs fun c hc d _ hsame => ?_
      rw [← hsame.1.1]
      exact (hsame.2 (site.child c.1) models inOr hnodup).1 (hsteady c hc)
    refine ⟨fun hsteady => ?_, hbelow⟩
    rw [isSteady, Bool.and_eq_true] at hsteady
    rw [childModels, childModels]
    cases site.matchOp? with
    | some op => exact .ok ⟨rfl, inOrder_all⟩
    | none =>
      cases Selector.ofPath? site.propertyPath with
      | none => exact .ok ⟨rfl, inOrder_all⟩
      | some field => exact hbelow hsteady.2

end

/-! ## Properties -/

/-- The candidate of each path is given by a function. -/
def Conforms (F : String → Candidate) (ps : List Candidate) : Prop := ∀ c ∈ ps, F c.path = c

/-- The paths of candidates. -/
def paths (ps : List Candidate) : List String := ps.map path

variable {c : Candidate}

lemma mem_paths {ps : List Candidate} (h : c ∈ ps) : c.path ∈ paths ps := mem_map_of_mem h

/-- The same candidates, in any order. -/
structure Twins (F : String → Candidate) (ps qs : List Candidate) : Prop where
  left : Conforms F ps
  right : Conforms F qs
  paths : ∀ p, p ∈ paths ps ↔ p ∈ paths qs

lemma twins_nil {F : String → Candidate} : Twins F [] [] where
  left _ h := by cases h
  right _ h := by cases h
  paths _ := Iff.rfl

/-- A candidate added unless its path is there. -/
def addOnce (ps : List Candidate) (c : Candidate) : List Candidate :=
  if c.path ∈ paths ps then ps else ps ++ [c]

variable {F : String → Candidate} {ps qs : List Candidate}

lemma Conforms.find? (h : Conforms F ps) (path : String) :
    find? ps path = if path ∈ paths ps then some (F path) else none := by
  unfold Candidate.find?
  split
  · next hmem =>
    obtain ⟨c, hc, rfl⟩ := mem_map.1 hmem
    cases hfound : ps.find? fun d => d.path == c.path with
    | none => exact absurd (beq_self_eq_true c.path) (by simpa using find?_eq_none.1 hfound c hc)
    | some d =>
      have hd : d.path = c.path := by simpa using find?_some hfound
      rw [← hd, h d (mem_of_find?_eq_some hfound)]
  · next hmem =>
    exact find?_eq_none.2 fun c hc heq => hmem (mem_map.2 ⟨c, hc, by simpa using heq⟩)

lemma Conforms.addOnce (h : Conforms F ps) (hc : F c.path = c) : Conforms F (addOnce ps c) := by
  unfold Match.addOnce
  split
  · exact h
  · exact forall_mem_append.2 ⟨h, forall_mem_singleton.2 hc⟩

lemma mem_paths_addOnce {p : String} : p ∈ paths (addOnce ps c) ↔ p ∈ paths ps ∨ p = c.path := by
  unfold addOnce
  split
  · next hc => exact ⟨.inl, fun h => h.elim id fun heq => heq ▸ hc⟩
  · simp [paths]

/-- A way to combine candidates that leaves two equal ones as they are. -/
def Idempotent (combine : Candidate → Candidate → Except CompileError Candidate) : Prop :=
  ∀ c, combine c c = .ok c

lemma sameNodes_self (c : Candidate) : c.sameNodes c.nodes = true := by
  simp [sameNodes]

lemma inter_idempotent : Idempotent inter := fun c => by
  simp [inter, checkCompatible, sameNodes_self]; rfl

lemma union_idempotent : Idempotent union := fun c => by
  simp [union, checkCompatible, sameNodes_self]; rfl

variable {combine : Candidate → Candidate → Except CompileError Candidate}

lemma mergeOne_conforms (hidem : Idempotent combine) (h : Conforms F ps) (hc : F c.path = c) :
    mergeOne combine c ps = .ok (addOnce ps c) := by
  induction ps with
  | nil => rfl
  | cons d rest ih =>
    have hrest : Conforms F rest := fun c hc => h c (mem_cons_of_mem _ hc)
    rw [mergeOne]
    split
    · next hpath =>
      have hd : d = c := by rw [← h d mem_cons_self, hpath, hc]
      rw [hd, hidem, addOnce, if_pos (by simp [paths])]
      rfl
    · next hpath =>
      have hadd : addOnce (d :: rest) c = d :: addOnce rest c := by
        by_cases hc : c.path ∈ rest.map path <;> simp [addOnce, paths, Ne.symm hpath, hc]
      rw [ih hrest, hadd]
      rfl

/-- **Merging candidates that agree keeps one for each path.** -/
lemma merge_conforms (hidem : Idempotent combine) {groups : List (List Candidate)}
    (h : ∀ g ∈ groups, Conforms F g) : ∃ out, merge combine groups = .ok out ∧ Conforms F out ∧
      ∀ p, p ∈ paths out ↔ ∃ g ∈ groups, p ∈ paths g := by
  have hfold : ∀ (cs acc : List Candidate), Conforms F acc → Conforms F cs →
      ∃ out, cs.foldlM (fun acc c => mergeOne combine c acc) acc = .ok out ∧
        Conforms F out ∧ ∀ p, p ∈ paths out ↔ p ∈ paths acc ∨ p ∈ paths cs := by
    intro cs
    induction cs with
    | nil => exact fun acc hacc _ => ⟨acc, rfl, hacc, by simp [paths]⟩
    | cons c rest ih =>
      intro acc hacc hcs
      obtain ⟨hc, hrest⟩ := forall_mem_cons.1 hcs
      obtain ⟨out, hout, hconforms, hpaths⟩ := ih (addOnce acc c) (hacc.addOnce hc) hrest
      refine ⟨out, ?_, hconforms, fun p => ?_⟩
      · rw [foldlM_cons, mergeOne_conforms hidem hacc hc]
        exact hout
      · rw [hpaths, mem_paths_addOnce, or_assoc]
        simp [paths]
  obtain ⟨out, hout, hconforms, hpaths⟩ := hfold groups.flatten [] (fun _ h => by cases h)
    fun c hc => by
      obtain ⟨g, hg, hc⟩ := mem_flatten.1 hc
      exact h g hg c hc
  refine ⟨out, hout, hconforms, fun p => ?_⟩
  rw [hpaths]
  simp only [paths, mem_map, mem_flatten, map_nil, not_mem_nil, false_or]
  constructor
  · rintro ⟨c, ⟨g, hg, hc⟩, hp⟩
    exact ⟨g, hg, c, hc, hp⟩
  · rintro ⟨g, hg, c, hc, hp⟩
    exact ⟨c, ⟨g, hg, hc⟩, hp⟩

lemma merge_twins (hidem : Idempotent combine) {groups groups' : List (List Candidate)}
    (h : Paired (Twins F) groups groups') :
    Lifts (Twins F) (merge combine groups) (merge combine groups') := by
  intro out hout
  have hleft : ∀ g ∈ groups, Conforms F g := fun g hg =>
    (h.exists_right hg).elim fun _ h => h.2.left
  have hright : ∀ g ∈ groups', Conforms F g := fun g hg =>
    (h.symm.exists_right hg).elim fun _ h => h.2.right
  obtain ⟨_, hout', hconforms, hpaths⟩ := merge_conforms hidem hleft
  obtain ⟨out', hmerge, hconforms', hpaths'⟩ := merge_conforms hidem hright
  rw [hout] at hout'
  cases hout'
  refine ⟨out', hmerge, hconforms, hconforms', fun p => ?_⟩
  rw [hpaths, hpaths']
  constructor
  · rintro ⟨g, hg, hp⟩
    obtain ⟨g', hg', htwins⟩ := h.exists_right hg
    exact ⟨g', hg', (htwins.paths p).1 hp⟩
  · rintro ⟨g', hg', hp⟩
    obtain ⟨g, hg, htwins⟩ := h.symm.exists_right hg'
    exact ⟨g, hg, (htwins.paths p).2 hp⟩

/-! ### Resolving -/

variable {ctx : Context} {models : List ModelId}

/-- Paths that are not there yet have the nodes of the models. -/
def Fresh (ctx : Context) (F : String → Candidate) (models : List ModelId) (ps : List Candidate) :
    Prop :=
  ∀ p ∉ paths ps, F p = ⟨p, ctx.catalog.gatherNodes models p, none⟩

lemma filterM_ok {α : Type} {f : α → Except CompileError Bool} {p : α → Bool} {xs : List α}
    (hf : ∀ x ∈ xs, f x = .ok (p x)) : xs.filterM f = .ok (xs.filter p) := by
  have hall : ∀ acc, xs.filterAuxM f acc = .ok ((xs.filter p).reverse ++ acc) := by
    induction xs with
    | nil => exact fun acc => rfl
    | cons x rest ih =>
      obtain ⟨hx, hrest⟩ := forall_mem_cons.1 hf
      intro acc
      rw [filterAuxM, hx]
      refine (ih hrest _).trans ?_
      cases hp : p x <;> simp [hp]
  rw [filterM, hall]
  exact congrArg Except.ok (by simp)

/-- Where no node lives in a set, a path is resolved once, whatever is demanded of it. -/
lemma resolveProperty_result (hsets : ctx.catalog.SetFree)
    (hconforms : Conforms F ps) (hfresh : Fresh ctx F models ps) (site : Site) (demand : Demand) :
    ∃ e, (resolveProperty ctx site models ps demand).result =
      if (F site.propertyPath).nodes.isEmpty && ctx.strict then .error e
      else .ok (addOnce ps (F site.propertyPath)) := by
  have hfilter : ∀ ids : List NodeId, ids.filterM (demandAllows ctx site ps demand) = .ok ids := by
    intro ids
    refine (filterM_ok (p := fun _ => true) fun id _ => ?_).trans (by simp)
    rw [demandAllows, hsets]
  refine ⟨(Fault.noMatchCandidates (demand.shown site.propertyPath) ctx.position).at site.fullpath, ?_⟩
  by_cases hmem : site.propertyPath ∈ paths ps
  · have hpath : (F site.propertyPath).path = site.propertyPath := by
      obtain ⟨c, hc, hcpath⟩ := mem_map.1 hmem
      rw [← hcpath, hconforms c hc]
    simp only [resolveProperty, hconforms.find?, hfilter, hsets, of_eq,
      if_pos hmem, ok_bind, addOnce, hpath, beq_self_eq_true, Bool.or_true, if_true]
    split <;> rfl
  · have hnew := hfresh _ hmem
    simp only [resolveProperty, hconforms.find?, hfilter, hsets, of_eq,
      if_neg hmem, ok_bind, addOnce, hnew, beq_self_eq_true, Bool.or_true, if_true]
    have hkeep : ps.filter (fun p => p.path != site.propertyPath) = ps :=
      filter_eq_self.2 fun c hc => by
        simpa using fun heq => hmem (mem_map.2 ⟨c, hc, heq⟩)
    rw [hkeep]
    split <;> rfl

section

variable (hsets : ctx.catalog.SetFree) (hfresh : Fresh ctx F models ps) (htwins : Twins F ps qs)

include hfresh htwins in
lemma Twins.fresh : Fresh ctx F models qs := fun p hp =>
  hfresh p fun h => hp ((htwins.paths p).1 h)

include hsets hfresh htwins

lemma resolveProperty_twins (site : Site) (demand demand' : Demand) :
    Lifts (Twins F) (resolveProperty ctx site models ps demand).result
      (resolveProperty ctx site models qs demand').result := by
  obtain ⟨e, he⟩ := resolveProperty_result hsets htwins.left hfresh site demand
  obtain ⟨e', he'⟩ := resolveProperty_result hsets htwins.right (htwins.fresh hfresh) site demand'
  rw [he, he']
  have hpath : F (F site.propertyPath).path = F site.propertyPath := by
    by_cases hmem : site.propertyPath ∈ paths ps
    · obtain ⟨c, hc, hcpath⟩ := mem_map.1 hmem
      rw [← hcpath, htwins.left c hc, htwins.left c hc]
    · rw [hfresh _ hmem, hfresh _ hmem]
  refine .guard id (.ok ⟨htwins.left.addOnce hpath, htwins.right.addOnce hpath, fun p => ?_⟩)
  rw [mem_paths_addOnce, mem_paths_addOnce, htwins.paths]

lemma resolveEach_twins (site : Site) {vs ws : List Operand} (h : vs.length = ws.length) :
    Lifts (Forall₂ (Twins F)) (resolveEach ctx site models ps vs).result
      (resolveEach ctx site models qs ws).result := by
  induction vs generalizing ws with
  | nil =>
    cases ws with
    | nil => exact .ok .nil
    | cons _ _ => cases h
  | cons v rest ih =>
    cases ws with
    | nil => cases h
    | cons w rest' =>
      unfold resolveEach
      exact .resultBind (resolveProperty_twins hsets hfresh htwins site _ _) fun _ _ hfirst =>
        .resultBind (ih (Nat.succ.inj h)) fun _ _ hmore => .ok (.cons hfirst hmore)

lemma leafProperties_twins (site : Site) (op : MatchOp) {v w : Operand}
    (h : Operand.Reordered v w) : Lifts (Twins F) (leafProperties ctx site models ps op v).result
      (leafProperties ctx site models qs op w).result := by
  have hresolve := resolveProperty_twins hsets hfresh htwins site
  cases v with
  | simple x =>
    rw [show w = .simple x from h]
    cases op <;> exact hresolve _ _
  | array vs =>
    obtain ⟨ws, rfl, hvs⟩ := Operand.reordered_array.1 h
    cases hvs with
    | nil => cases op <;> first | exact .ok htwins | exact .error _ _
    | cons hv hrest =>
      cases op with
      | oneOf =>
        exact .resultBind (resolveEach_twins hsets hfresh htwins site (hrest.cons hv).length_eq)
          fun groups groups' hgroups => merge_twins union_idempotent ⟨groups', hgroups, .refl _⟩
      | noneOf => exact hresolve _ _
      | _ => exact .error _ _
  | expression cs =>
    cases op <;> exact .error _ _
  | _ => cases op <;> exact .error _ _

end

/-! ### Conditions -/

/-- The properties that an object of conditions leaves. -/
def expressionProperties (ctx : Context) (models : List ModelId) (label : String) (site : Site)
    (properties : List Candidate) (cs : Children) : Compile (List Candidate) := do
  of (mergeInter (← childrenProperties ctx models label site properties cs))

/-- The properties that one element of a list leaves. -/
def elementProperties (ctx : Context) (models : List ModelId) (literals : Bool) (site : Site)
    (properties : List Candidate) : Operand → Compile (List Candidate)
  | .expression cs => expressionProperties ctx models matchLabel site properties cs
  | .simple v =>
    if literals then resolveProperty ctx site models properties (.compare .eq v) else pure properties
  | _ => pure properties

lemma childrenProperties_result (label : String) (site : Site) (cs : Children) :
    (childrenProperties ctx models label site ps cs).result =
      cs.mapM fun c => (childProperties ctx models label (site.child c.1) ps c.2).result := by
  induction cs with
  | nil => rfl
  | cons c rest ih =>
    rw [childrenProperties, mapM_cons, result_bind]
    simp only [result_bind, ih]
    rfl

lemma elementsProperties_result (literals : Bool) (site : Site) (vs : List Operand) :
    (elementsProperties ctx models literals site ps vs).result =
      vs.mapM fun v => (elementProperties ctx models literals site ps v).result := by
  induction vs with
  | nil => rfl
  | cons v rest ih =>
    have hcons : ∀ (x : Compile (List Candidate)),
        (do return (← x) :: (← elementsProperties ctx models literals site ps rest)).result = do
          return (← x.result) :: (← rest.mapM fun v =>
            (elementProperties ctx models literals site ps v).result) := by
      intro x
      simp only [result_bind, ih]
      rfl
    rw [mapM_cons]
    cases v with
    | expression cs =>
      rw [elementsProperties, ← hcons, elementProperties, expressionProperties, bind_assoc]
    | simple v =>
      rw [elementsProperties, ← hcons, elementProperties]
      cases literals <;> rfl
    | _ =>
      exact hcons (pure ps)

/-- Conditions that differ in the order of keys leave the same properties. -/
def SameProperties (ctx : Context) (v w : Operand) : Prop :=
  ∀ {F : String → Candidate} {models : List ModelId} {ps qs : List Candidate},
    Fresh ctx F models ps → Twins F ps qs → ∀ (label : String) (site : Site),
    Lifts (Twins F) (childProperties ctx models label site ps v).result
      (childProperties ctx models label site qs w).result ∧
    Lifts (Twins F) (expressionProperties ctx models label site ps v.children).result
      (expressionProperties ctx models label site qs w.children).result

section

variable (hsets : ctx.catalog.SetFree) {v w : Operand}

include hsets

lemma elementsProperties_twins (hfresh : Fresh ctx F models ps) (htwins : Twins F ps qs)
    (literals : Bool) (site : Site) {vs ws : List Operand}
    (h : Forall₂ (fun v w => Operand.Reordered v w ∧ SameProperties ctx v w) vs ws) :
    Lifts (Forall₂ (Twins F)) (elementsProperties ctx models literals site ps vs).result
      (elementsProperties ctx models literals site qs ws).result := by
  rw [elementsProperties_result, elementsProperties_result]
  refine .mapM_forall₂ (h.imp fun v w hvw => ?_)
  cases v with
  | expression cs =>
    obtain ⟨ds, rfl, -⟩ := Operand.reordered_expression.1 hvw.1
    exact (hvw.2 hfresh htwins matchLabel site).2
  | simple x =>
    rw [show w = .simple x from hvw.1]
    cases literals with
    | true => exact resolveProperty_twins hsets hfresh htwins site _ _
    | false => exact .ok htwins
  | array _ =>
    obtain ⟨ws, rfl, -⟩ := Operand.reordered_array.1 hvw.1
    exact .ok htwins
  | _ =>
    rw [show w = _ from hvw.1]
    exact .ok htwins

/-- **Conditions leave the same properties, whatever the order of their keys.** -/
lemma sameProperties (h : Operand.Reordered v w) : SameProperties ctx v w := by
  refine Operand.Reordered.induction (P := SameProperties ctx) ?_ ?_ ?_ v w h
  · intro v hatom F models ps qs hfresh htwins label site
    have hresolve := resolveProperty_twins hsets hfresh htwins site
    refine ⟨?_, ?_⟩
    · cases v with
      | expression _ | array _ => cases hatom
      | «variable» _ => exact hresolve _ _
      | simple x =>
        rw [childProperties, childProperties]
        cases site.matchOp? with
        | none => exact hresolve _ _
        | some op =>
          cases op with
          | and | or | all | oneOf | noneOf => exact .error _ _
          | elemMatch => exact .ok htwins
          | _ => exact leafProperties_twins hsets hfresh htwins site _ rfl
      | _ =>
        exact .error _ _
    · rw [Operand.children_of_isAtom hatom]
      exact .ok twins_nil
  · intro vs ws hvs F models ps qs hfresh htwins label site
    have hall := fun literals => elementsProperties_twins hsets hfresh htwins literals site hvs
    have hsame : Operand.Reordered (.array vs) (.array ws) :=
      Operand.reordered_array.2 ⟨ws, rfl, hvs.imp fun _ _ h => h.1⟩
    have hmerge : ∀ {combine literals}, Idempotent combine → Lifts (Twins F) (do
            of (merge combine (← elementsProperties ctx models literals site ps vs))).result
          (do
            of (merge combine
              (← elementsProperties ctx models literals site qs ws))).result := fun hidem =>
      .resultBind (hall _) fun _ groups' hgroups => merge_twins hidem ⟨groups', hgroups, .refl _⟩
    refine ⟨?_, .ok twins_nil⟩
    rw [childProperties, childProperties]
    cases site.matchOp? with
    | none => exact .error _ _
    | some op =>
      cases op with
      | and | all => exact hmerge inter_idempotent
      | or => exact hmerge union_idempotent
      | elemMatch => exact .ok htwins
      | _ => exact leafProperties_twins hsets hfresh htwins site _ hsame
  · intro cs ds hnodup hcs F models ps qs hfresh htwins label site
    have hsame : Operand.Reordered (.expression cs) (.expression ds) :=
      Operand.reordered_expression.2 ⟨ds, rfl, hnodup, hcs.mono fun _ _ _ _ h => h.1⟩
    have hbelow : ∀ label, Lifts (Twins F) (expressionProperties ctx models label site ps cs).result
        (expressionProperties ctx models label site qs ds).result := by
      intro label
      refine .resultBind ?_ fun _ _ hgroups => merge_twins inter_idempotent hgroups
      rw [childrenProperties_result, childrenProperties_result]
      refine .mapM_paired hcs fun c _ d _ hcd => ?_
      rw [← hcd.1.1]
      exact (hcd.2 hfresh htwins label (site.child c.1)).1
    refine ⟨?_, hbelow label⟩
    rw [childProperties, childProperties]
    cases site.matchOp? with
    | none => exact hbelow _
    | some op =>
      cases op with
      | elemMatch => exact hbelow _
      | _ => exact leafProperties_twins hsets hfresh htwins site _ hsame

lemma componentProperties_twins (hfresh : Fresh ctx F models ps) (htwins : Twins F ps qs)
    (site : Site) (h : Operand.Reordered v w) :
    Lifts (Twins F) (componentProperties ctx site models v ps).result
      (componentProperties ctx site models w qs).result := by
  cases v with
  | expression cs =>
    obtain ⟨ds, rfl, -⟩ := Operand.reordered_expression.1 h
    exact (sameProperties hsets h hfresh htwins matchLabel site).2
  | array vs =>
    obtain ⟨ws, rfl, hvs⟩ := Operand.reordered_array.1 h
    exact .resultBind (elementsProperties_twins hsets hfresh htwins false site
        (hvs.imp fun _ _ h => ⟨h, sameProperties hsets h⟩))
      fun _ groups' hgroups => merge_twins union_idempotent ⟨groups', hgroups, .refl _⟩
  | _ =>
    rw [show w = _ from h]
    exact .ok htwins

end

/-- The same candidates, in any order. -/
def Alike (ps qs : List Candidate) : Prop := ∃ F, Twins F ps qs

lemma Alike.find? (h : Alike ps qs) (path : String) : find? ps path = find? qs path := by
  obtain ⟨F, htwins⟩ := h
  simp only [htwins.left.find?, htwins.right.find?, htwins.paths]

/-- Paths that are new can be given the nodes of any models. -/
lemma Alike.fresh (h : Alike ps qs) (ctx : Context) (models : List ModelId) :
    ∃ F, Fresh ctx F models ps ∧ Twins F ps qs := by
  obtain ⟨F, htwins⟩ := h
  refine ⟨fun p => if p ∈ paths ps then F p else ⟨p, ctx.catalog.gatherNodes models p, none⟩,
    fun p hp => if_neg hp, fun c hc => ?_, fun c hc => ?_, htwins.paths⟩
  · rw [if_pos (mem_paths hc), htwins.left c hc]
  · rw [if_pos ((htwins.paths _).2 (mem_paths hc)), htwins.right c hc]

/-- **The properties left inside a component do not depend on the order of keys.** -/
lemma narrowTwice_alike (hsets : ctx.catalog.SetFree) (site : Site)
    (address address' : List Nat) {v w : Operand} (h : Operand.Reordered v w)
    {ms ns : Except CompileError (List ModelId)} (hmodels : Lifts Eq ms ns)
    {above above' : Compile (List Candidate)} (habove : Lifts Alike above.result above'.result) :
    Lifts Alike (Trail.narrowTwice ctx address site v ms above).result
      (Trail.narrowTwice ctx address' site w ns above').result := by
  have hround : ∀ {models ps qs}, Alike ps qs →
      Lifts Alike (componentProperties ctx site models v ps).result
        (componentProperties ctx site models w qs).result := by
    intro models ps qs halike out hout
    obtain ⟨F, hfresh, htwins⟩ := halike.fresh ctx models
    obtain ⟨out', hout', htwins'⟩ := componentProperties_twins hsets hfresh htwins site h out hout
    exact ⟨out', hout', F, htwins'⟩
  refine .resultBind (x := of ms) (y := of ns) hmodels fun models _ heq => ?_
  cases heq
  exact .resultBind habove fun _ _ h => .resultBind (hround h) fun _ _ h => hround h

end Match

end Conduit
