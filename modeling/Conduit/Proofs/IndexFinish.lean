import Conduit.Proofs.IndexTree
import Conduit.Proofs.QueryMeaning

/-!
# Finishing the index query

Pruning drops what a gap would make too narrow: an `$or` that lacks a branch, and the gaps of an
`$and`.  What is left of an object can be read off it (`meets_prune`).

Values that hold no key of the tree stay as they are, and so does a tree without markers when
markers are expanded.
-/

namespace Conduit

open List

namespace Json

mutual

/-- Whether an object inside the value has one of these keys. -/
def mentions (ks : List String) : Json → Bool
  | .obj fs => mentionsFields ks fs
  | .arr items => mentionsItems ks items
  | _ => false

def mentionsItems (ks : List String) : List Json → Bool
  | [] => false
  | v :: rest => mentions ks v || mentionsItems ks rest

def mentionsFields (ks : List String) : Fields → Bool
  | [] => false
  | (k, v) :: rest => ks.contains k || mentions ks v || mentionsFields ks rest

end

variable {ks ls : List String} {items : List Json} {fs : Fields}

lemma mentionsItems_eq_false :
    mentionsItems ks items = false ↔ ∀ v ∈ items, mentions ks v = false := by
  induction items with
  | nil => simp [mentionsItems]
  | cons v rest ih => simp [mentionsItems, ih]

lemma mentionsFields_eq_false :
    mentionsFields ks fs = false ↔ ∀ f ∈ fs, f.1 ∉ ks ∧ mentions ks f.2 = false := by
  induction fs with
  | nil => simp [mentionsFields]
  | cons f rest ih => simp [mentionsFields, ih, and_assoc]

lemma mentions_obj :
    mentions ks (.obj fs) = false ↔ ∀ f ∈ fs, f.1 ∉ ks ∧ mentions ks f.2 = false := by
  rw [mentions, mentionsFields_eq_false]

lemma mentions_arr : mentions ks (.arr items) = false ↔ ∀ v ∈ items, mentions ks v = false := by
  rw [mentions, mentionsItems_eq_false]

mutual

lemma mentions_mono (h : ls ⊆ ks) : ∀ v, mentions ks v = false → mentions ls v = false
  | .obj fs, hv => mentionsFields_mono h fs hv
  | .arr items, hv => mentionsItems_mono h items hv
  | .null, _ | .bool _, _ | .int _, _ | .double _, _ | .str _, _ => rfl

lemma mentionsItems_mono (h : ls ⊆ ks) :
    ∀ items, mentionsItems ks items = false → mentionsItems ls items = false
  | [], _ => rfl
  | v :: rest, hv => by
    rw [mentionsItems, Bool.or_eq_false_iff] at hv ⊢
    exact ⟨mentions_mono h v hv.1, mentionsItems_mono h rest hv.2⟩

lemma mentionsFields_mono (h : ls ⊆ ks) :
    ∀ fs, mentionsFields ks fs = false → mentionsFields ls fs = false
  | [], _ => rfl
  | (k, v) :: rest, hv => by
    rw [mentionsFields, Bool.or_eq_false_iff, Bool.or_eq_false_iff] at hv ⊢
    refine ⟨⟨?_, mentions_mono h v hv.1.2⟩, mentionsFields_mono h rest hv.2⟩
    have hk := hv.1.1
    simp only [contains_eq_mem, decide_eq_false_iff_not] at hk ⊢
    exact fun hmem => hk (h hmem)

end

end Json

namespace IndexEntries

open Fields Json

/-! ## Pruning -/

mutual

lemma prune_eq_self : ∀ v : Json, mentions ["$and", "$or"] v = false → prune v = (v, false)
  | .obj fs, h => by
    have hfields := pruneFields_eq_self fs h
    have hkeys := mentions_obj.1 h
    have hnone : ∀ k ∈ ["$and", "$or"], get? fs k = none := by
      intro k hk
      rw [get?_eq_none_iff, Fields.mem_keys]
      rintro ⟨v, hv⟩
      exact (hkeys (k, v) hv).1 hk
    simp [prune, hfields, pruneObject, hnone]
  | .arr items, h => by
    rw [prune, pruneItems_eq_self items h]
  | .null, _ | .bool _, _ | .int _, _ | .double _, _ | .str _, _ => rfl

lemma pruneItems_eq_self : ∀ items : List Json, mentionsItems ["$and", "$or"] items = false →
    pruneItems items = (items, false)
  | [], _ => rfl
  | v :: rest, h => by
    rw [mentionsItems, Bool.or_eq_false_iff] at h
    rw [pruneItems, prune_eq_self v h.1, pruneItems_eq_self rest h.2]
    rfl

lemma pruneFields_eq_self : ∀ fs : Fields, mentionsFields ["$and", "$or"] fs = false →
    pruneFields fs = (fs, false)
  | [], _ => rfl
  | (k, v) :: rest, h => by
    rw [mentionsFields, Bool.or_eq_false_iff, Bool.or_eq_false_iff] at h
    rw [pruneFields, prune_eq_self v h.1.2, pruneFields_eq_self rest h.2]
    rfl

end

lemma pruneItems_eq (items : List Json) : pruneItems items =
    (items.map fun v => (prune v).1, items.any fun v => (prune v).2) := by
  induction items with
  | nil => rfl
  | cons v rest ih => simp [pruneItems, ih]

lemma pruneFields_eq (fs : Fields) : pruneFields fs =
    (fs.map fun f => (f.1, (prune f.2).1), fs.any fun f => (prune f.2).2) := by
  induction fs with
  | nil => rfl
  | cons f rest ih => simp [pruneFields, ih]

lemma isNull_prune (v : Json) : (prune v).1.isNull = v.isNull := by
  cases v <;> rfl

/-- The fields with their values pruned. -/
def pruneValues (fs : Fields) : Fields := fs.map fun f => (f.1, (prune f.2).1)

lemma get?_pruneValues (fs : Fields) (k : String) :
    get? (pruneValues fs) k = (get? fs k).map fun v => (prune v).1 := by
  induction fs with
  | nil => rfl
  | cons f rest ih =>
    obtain ⟨l, w⟩ := f
    have hstep : pruneValues ((l, w) :: rest) = (l, (prune w).1) :: pruneValues rest := rfl
    rw [hstep, get?_cons, get?_cons, ih]
    split <;> rfl

/-- What pruning leaves of `$or`. -/
def prunedOr : Option Json → Option Json
  | some (.arr items) => if items.any isNull then none else some (.arr items)
  | v => v

/-- What pruning leaves of `$and`. -/
def prunedAnd : Option Json → Option Json
  | some (.arr items) =>
    let kept := items.filter fun v => !v.isNull
    if kept.isEmpty then none else some (.arr kept)
  | v => v

/-- Whether an `$or` is dropped. -/
def lacksBranch : Option Json → Bool
  | some (.arr items) => items.any isNull
  | _ => false

/-- The object without an `$or` that lacks a branch. -/
def dropOr (fs : Fields) : Fields :=
  if lacksBranch (get? fs "$or") then Fields.erase fs "$or" else fs

/-- The object without the gaps of its `$and`. -/
def closeGaps (fs : Fields) : Fields := match get? fs "$and" with
  | some (.arr items) =>
    let kept := items.filter fun v => !v.isNull
    if kept.isEmpty then Fields.erase fs "$and" else Fields.insert fs "$and" (.arr kept)
  | _ => fs

lemma pruneObject_eq (fs : Fields) :
    pruneObject fs = (closeGaps (dropOr fs), lacksBranch (get? fs "$or")) := by
  have hclose : ∀ (gs : Fields) (b : Bool), (match get? gs "$and" with
      | some (.arr items) =>
        let kept := items.filter fun v => !v.isNull
        (if kept.isEmpty then Fields.erase gs "$and" else Fields.insert gs "$and" (.arr kept), b)
      | _ => (gs, b)) = (closeGaps gs, b) := by
    intro gs b
    unfold closeGaps
    split <;> rfl
  unfold pruneObject dropOr
  cases get? fs "$or" with
  | none => exact hclose fs false
  | some v =>
    cases v with
    | arr items =>
      by_cases hnull : items.any isNull = true
      · simp only [lacksBranch, hnull, if_true]
        exact hclose _ _
      · simp only [lacksBranch, hnull, Bool.false_eq_true, if_false]
        exact hclose _ _
    | _ => exact hclose fs false

variable {fs base : Fields} {v : Json} {key : String}

section

variable (hfs : (keys fs).Nodup)

include hfs

lemma nodup_dropOr : (keys (dropOr fs)).Nodup := by
  unfold dropOr
  split
  · exact nodup_erase hfs _
  · exact hfs

lemma get?_dropOr (k : String) :
    get? (dropOr fs) k = if k = "$or" then prunedOr (get? fs "$or") else get? fs k := by
  unfold dropOr
  by_cases hk : k = "$or"
  · subst hk
    cases hor : get? fs "$or" with
    | none => simp [lacksBranch, prunedOr, hor]
    | some v =>
      cases v with
      | arr items => cases hnull : items.any isNull <;> simp [lacksBranch, prunedOr, hnull, hor, get?_erase hfs]
      | _ => simp [lacksBranch, prunedOr, hor]
  · rw [if_neg hk]
    split
    · rw [get?_erase hfs, if_neg (Ne.symm hk)]
    · rfl

lemma nodup_closeGaps : (keys (closeGaps fs)).Nodup := by
  unfold closeGaps
  split
  · dsimp only
    split
    · exact nodup_erase hfs _
    · exact nodup_insert hfs _ _
  · exact hfs

lemma get?_closeGaps (k : String) :
    get? (closeGaps fs) k = if k = "$and" then prunedAnd (get? fs "$and") else get? fs k := by
  unfold closeGaps
  by_cases hk : k = "$and"
  · subst hk
    cases hand : get? fs "$and" with
    | none => simp [prunedAnd, hand]
    | some v =>
      cases v with
      | arr items =>
        cases hkept : (items.filter fun v => !v.isNull).isEmpty <;>
          simp [prunedAnd, hkept, get?_erase hfs]
      | _ => simp [prunedAnd, hand]
  · rw [if_neg hk]
    split
    · dsimp only
      split
      · rw [get?_erase hfs, if_neg (Ne.symm hk)]
      · rw [get?_insert_of_ne (Ne.symm hk)]
    · rfl

lemma nodup_pruneValues : (keys (pruneValues fs)).Nodup := by
  rw [Fields.keys, pruneValues, map_map]
  exact hfs

end

lemma prune_obj (fs : Fields) : prune (.obj fs) = (.obj (closeGaps (dropOr (pruneValues fs))),
    (fs.any fun f => (prune f.2).2) || lacksBranch (get? (pruneValues fs) "$or")) := by
  simp only [prune, pruneFields_eq, pruneObject_eq]
  rfl

lemma prune_arr (items : List Json) : prune (.arr items) =
    (.arr (items.map fun v => (prune v).1), items.any fun v => (prune v).2) := by
  simp only [prune, pruneItems_eq]

lemma nodup_pruned (hfs : (keys fs).Nodup) : (keys (closeGaps (dropOr (pruneValues fs)))).Nodup :=
  nodup_closeGaps (nodup_dropOr (nodup_pruneValues hfs))

lemma get?_pruned (hfs : (keys fs).Nodup) (k : String) :
    get? (closeGaps (dropOr (pruneValues fs))) k =
      if k = "$and" then prunedAnd ((get? fs k).map fun v => (prune v).1)
      else if k = "$or" then prunedOr ((get? fs k).map fun v => (prune v).1)
      else (get? fs k).map fun v => (prune v).1 := by
  have hvalues := nodup_pruneValues hfs
  have hand : ("$and" : String) ≠ "$or" := by decide
  rw [get?_closeGaps (nodup_dropOr hvalues)]
  simp only [get?_dropOr hvalues, if_neg hand, get?_pruneValues]
  split
  · next hk => rw [hk]
  · split
    · next hk => rw [hk]
    · rfl

lemma any_isNull_prune (items : List Json) :
    (items.map fun v => (prune v).1).any isNull = items.any isNull := by
  rw [any_map]
  congr 1
  funext v
  exact isNull_prune v

variable {d : Document}

/-- **What a pruned object demands**: its keys, the branches of `$and` that are there, and a
branch of `$or` if all of them are. -/
lemma meets_prune (hfs : (keys fs).Nodup)
    (hlists : ∀ k ∈ ["$and", "$or"], ∀ v, get? fs k = some v → ∃ items, v = .arr items) :
    d.meets (prune (.obj fs)).1 ↔
      (∀ k v, k ≠ "$and" → k ≠ "$or" → get? fs k = some v → d.meetsKey k (prune v).1) ∧
      (∀ items, get? fs "$and" = some (.arr items) →
        ∀ v ∈ items, v.isNull = false → d.meets (prune v).1) ∧
      (∀ items, get? fs "$or" = some (.arr items) → items.any isNull = false →
        ∃ v ∈ items, d.meets (prune v).1) := by
  rw [prune_obj, Document.meets, Document.meetsFields_iff (nodup_pruned hfs)]
  simp only [get?_pruned hfs]
  constructor
  · intro h
    refine ⟨fun k v hand hor hv => h k _ ?_, fun items hitems v hv hnull => ?_,
      fun items hitems hnull => ?_⟩
    · rw [if_neg hand, if_neg hor, hv]
      rfl
    · have hkept : (items.map fun v => (prune v).1).filter (fun v => !v.isNull) ≠ [] := by
        refine ne_nil_of_mem (mem_filter.2 ⟨mem_map_of_mem hv, ?_⟩)
        rw [isNull_prune, hnull]
        rfl
      have hmeets := h "$and" _ (by
        rw [if_pos rfl, hitems, Option.map_some, prune_arr, prunedAnd]
        exact if_neg (by simpa using hkept))
      rw [Document.meetsKey_and] at hmeets
      refine hmeets _ (mem_filter.2 ⟨mem_map_of_mem hv, ?_⟩)
      rw [isNull_prune, hnull]
      rfl
    · have hmeets := h "$or" _ (by
        rw [if_neg (by decide), if_pos rfl, hitems, Option.map_some, prune_arr, prunedOr,
          any_isNull_prune, hnull]
        rfl)
      rw [Document.meetsKey_or] at hmeets
      obtain ⟨w, hw, hmeets⟩ := hmeets
      obtain ⟨v, hv, rfl⟩ := mem_map.1 hw
      exact ⟨v, hv, hmeets⟩
  · rintro ⟨hkeys, hand, hor⟩ k w hw
    split at hw
    · next hk =>
      subst hk
      obtain ⟨v, hv, hpruned⟩ : ∃ v, get? fs "$and" = some v ∧ prunedAnd (some (prune v).1) = some w := by
        cases hget : get? fs "$and" with
        | none => simp [hget, prunedAnd] at hw
        | some v => exact ⟨v, rfl, by simpa [hget] using hw⟩
      obtain ⟨items, rfl⟩ := hlists "$and" (by simp) v hv
      rw [prune_arr, prunedAnd] at hpruned
      split at hpruned
      · cases hpruned
      · cases hpruned
        rw [Document.meetsKey_and]
        intro u hu
        obtain ⟨hu, hnull⟩ := mem_filter.1 hu
        obtain ⟨x, hx, rfl⟩ := mem_map.1 hu
        refine hand items hv x hx ?_
        rw [isNull_prune] at hnull
        simpa using hnull
    · split at hw
      · next hk =>
        subst hk
        obtain ⟨v, hv, hpruned⟩ :
            ∃ v, get? fs "$or" = some v ∧ prunedOr (some (prune v).1) = some w := by
          cases hget : get? fs "$or" with
          | none => simp [hget, prunedOr] at hw
          | some v => exact ⟨v, rfl, by simpa [hget] using hw⟩
        obtain ⟨items, rfl⟩ := hlists "$or" (by simp) v hv
        rw [prune_arr, prunedOr, any_isNull_prune] at hpruned
        split at hpruned
        · cases hpruned
        · next hnull =>
          cases hpruned
          obtain ⟨x, hx, hmeets⟩ := hor items hv (by simpa using hnull)
          exact Document.meetsKey_or.2 ⟨_, mem_map_of_mem hx, hmeets⟩
      · next hkand hkor =>
        obtain ⟨v, hv, rfl⟩ := Option.map_eq_some_iff.1 hw
        exact hkeys k v hkand hkor hv

/-- An object from which nothing was dropped has all branches of its `$or`. -/
lemma prune_unpruned (hflag : (prune (.obj fs)).2 = false) :
    (∀ items, get? fs "$or" = some (.arr items) → items.any isNull = false) ∧
      ∀ k v, get? fs k = some v → (prune v).2 = false := by
  rw [prune_obj] at hflag
  obtain ⟨hbelow, hhere⟩ := Bool.or_eq_false_iff.1 hflag
  constructor
  · intro items hitems
    rw [get?_pruneValues, hitems, Option.map_some, prune_arr, lacksBranch,
      any_isNull_prune] at hhere
    exact hhere
  · intro k v hv
    rw [any_eq_false] at hbelow
    simpa using hbelow (k, v) (mem_of_get? hv)

/-! ## Markers -/

mutual

lemma expand_eq_self (base : Fields) :
    ∀ v : Json, mentions [marker] v = false → expand base v = (v, false)
  | .obj fs, h => by
    have hfields := expandFields_eq_self base fs h
    have hkeys := mentions_obj.1 h
    have hnone : get? fs marker = none := by
      rw [get?_eq_none_iff, Fields.mem_keys]
      rintro ⟨v, hv⟩
      exact (hkeys (marker, v) hv).1 (by simp)
    simp [expand, hfields, expandObject, hnone]
  | .arr items, h => by
    rw [expand, expandItems_eq_self base items h]
  | .null, _ | .bool _, _ | .int _, _ | .double _, _ | .str _, _ => rfl

lemma expandItems_eq_self (base : Fields) : ∀ items : List Json,
    mentionsItems [marker] items = false → expandItems base items = (items, false)
  | [], _ => rfl
  | v :: rest, h => by
    rw [mentionsItems, Bool.or_eq_false_iff] at h
    rw [expandItems, expand_eq_self base v h.1, expandItems_eq_self base rest h.2]
    rfl

lemma expandFields_eq_self (base : Fields) : ∀ fs : Fields,
    mentionsFields [marker] fs = false → expandFields base fs = (fs, false)
  | [], _ => rfl
  | (k, v) :: rest, h => by
    rw [mentionsFields, Bool.or_eq_false_iff, Bool.or_eq_false_iff] at h
    rw [expandFields, expand_eq_self base v h.1.2, expandFields_eq_self base rest h.2]
    rfl

end

lemma mentions_closeGaps (h : mentions [marker] (.obj fs) = false) :
    mentions [marker] (.obj (closeGaps fs)) = false := by
  rw [mentions_obj] at h ⊢
  unfold closeGaps
  intro f hf
  split at hf
  · next items hitems =>
    dsimp only at hf
    split at hf
    · exact h f (mem_of_mem_erase hf)
    · rcases mem_of_mem_insert hf with rfl | hf
      · have hall := mentions_arr.1 (h ("$and", .arr items) (mem_of_get? hitems)).2
        exact ⟨by simp [marker], mentions_arr.2 fun v hv => hall v (mem_filter.1 hv).1⟩
      · exact h f hf
  · exact h f hf

lemma mentions_dropOr (h : mentions [marker] (.obj fs) = false) :
    mentions [marker] (.obj (dropOr fs)) = false := by
  rw [mentions_obj] at h ⊢
  unfold dropOr
  split
  · exact fun f hf => h f (mem_of_mem_erase hf)
  · exact h

mutual

lemma mentions_prune : ∀ v : Json, mentions [marker] v = false →
    mentions [marker] (prune v).1 = false
  | .obj fs, h => by
    rw [prune_obj]
    refine mentions_closeGaps (mentions_dropOr ?_)
    have hfields := mentions_pruneFields fs h
    rw [pruneFields_eq] at hfields
    exact hfields
  | .arr items, h => by
    exact mentions_pruneItems items h
  | .null, _ | .bool _, _ | .int _, _ | .double _, _ | .str _, _ => rfl

lemma mentions_pruneItems : ∀ items : List Json, mentionsItems [marker] items = false →
    mentionsItems [marker] (pruneItems items).1 = false
  | [], _ => rfl
  | v :: rest, h => by
    rw [mentionsItems, Bool.or_eq_false_iff] at h
    rw [pruneItems]
    rw [mentionsItems, mentions_prune v h.1, mentions_pruneItems rest h.2]
    rfl

lemma mentions_pruneFields : ∀ fs : Fields, mentionsFields [marker] fs = false →
    mentionsFields [marker] (pruneFields fs).1 = false
  | [], _ => rfl
  | (k, v) :: rest, h => by
    rw [mentionsFields, Bool.or_eq_false_iff, Bool.or_eq_false_iff] at h
    rw [pruneFields]
    rw [mentionsFields, h.1.1, mentions_prune v h.1.2, mentions_pruneFields rest h.2]
    rfl

end

/-- Keys and values that hold no marker enter none. -/
def Markless (entries : List Entry) : Prop :=
  ∀ e ∈ entries, e.2.1 ≠ marker ∧ mentions [marker] e.2.2 = false

lemma mentions_insert (hkey : key ≠ marker) (hfs : mentions [marker] (.obj fs) = false)
    (hv : mentions [marker] v = false) :
    mentions [marker] (.obj (Fields.insert fs key v)) = false := by
  rw [mentions_obj] at hfs ⊢
  intro f hf
  rcases mem_of_mem_insert hf with rfl | hf
  · exact ⟨by simpa using hkey, hv⟩
  · exact hfs f hf

lemma mentions_addPair (hslot : compoundSlot? key = none) (hkey : key ≠ marker)
    (hfs : mentions [marker] (.obj fs) = false) (hv : mentions [marker] v = false) :
    mentions [marker] (.obj (addPair base true fs key v).1) = false := by
  have hfresh : mentions [marker] (.obj (addCompound (Fields.insert fs key v) key)) = false := by
    rw [addCompound, hslot]
    exact mentions_insert hkey hfs hv
  simp only [addPair, if_true]
  split
  · exact hfresh
  · split
    · exact hfresh
    · next current new hcur =>
      refine mentions_insert hkey hfs (mentions_obj.2 fun f hf => ?_)
      rcases mem_of_mem_extend hf with hf | hf
      · exact mentions_obj.1 hv f hf
      · exact mentions_obj.1 (mentions_obj.1 hfs _ (mem_of_get? hcur)).2 f hf
    all_goals exact hfs

lemma mentions_get? {w : Json} (hfs : mentions [marker] (.obj fs) = false)
    (hw : mentions [marker] w = false) (h : (get? fs key).getD w = v) :
    mentions [marker] v = false := by
  cases hget : get? fs key with
  | none =>
    rw [hget] at h
    exact h ▸ hw
  | some u =>
    rw [hget] at h
    exact h ▸ (mentions_obj.1 hfs _ (mem_of_get? hget)).2

lemma mentions_insertAt (hslot : compoundSlot? key = none) (hkey : key ≠ marker)
    (hv : mentions [marker] v = false) (hbase : mentions [marker] (.obj base) = false)
    (steps : List IndexStep) {t u : Json} (ht : mentions [marker] t = false)
    (h : insertAt base (addLeaf base [(key, v)]) steps t = (u, none)) :
    mentions [marker] u = false := by
  induction steps generalizing t u with
  | nil =>
    cases t with
    | obj fs =>
      simp only [insertAt, addLeaf_singleton, Prod.mk.injEq] at h
      exact h.1 ▸ mentions_addPair hslot hkey ht hv
    | _ => cases h
  | cons s rest ih =>
    cases t with
    | obj fs =>
      cases s with
      | and =>
        simp only [insertAt, Prod.mk.injEq] at h
        rw [← h.1]
        exact mentions_insert (by decide) ht (ih (mentions_get? ht rfl rfl) (Prod.ext rfl h.2))
      | or width =>
        simp only [insertAt, Prod.mk.injEq] at h
        rw [← h.1]
        refine mentions_insert (by decide) ht (ih (mentions_get? ht ?_ rfl) (Prod.ext rfl h.2))
        exact mentions_arr.2 fun x hx => by rw [eq_of_mem_replicate hx]; rfl
      | position p => cases h
    | arr items =>
      obtain ⟨p, rest', w, hsteps, hw, rfl⟩ := insertAt_arr h
      cases hsteps
      have hpad : ∀ x ∈ padTo p items, mentions [marker] x = false := by
        intro x hx
        rcases mem_append.1 hx with hx | hx
        · exact mentions_arr.1 ht x hx
        · rw [eq_of_mem_replicate hx]
          rfl
      have hbranch : mentions [marker] (branchAt base p items) = false := by
        unfold branchAt
        split
        · exact hbase
        · exact hbase
        · next y _ hy => exact hpad y (mem_of_getElem? hy)
      refine mentions_arr.2 fun x hx => ?_
      rcases mem_or_eq_of_mem_set hx with hx | rfl
      · exact hpad x hx
      · exact ih hbranch hw
    | _ =>
      cases s with
      | _ => cases h

lemma mentions_enterAll {gs : Fields} {entries : List Entry} (hslot : Slotless entries)
    (hmark : Markless entries) (hbase : mentions [marker] (.obj base) = false)
    (hfs : mentions [marker] (.obj fs) = false) (h : enterAll base fs entries = some gs) :
    mentions [marker] (.obj gs) = false := by
  refine enterAll_induction (P := fun fs => mentions [marker] (.obj fs) = false)
    (fun e he mid next hmid hone => ?_) hfs h
  obtain ⟨steps, key, v⟩ := e
  obtain ⟨hkey, hv⟩ := hmark _ he
  have hstart : mentions [marker] (.obj (if steps.isEmpty then seed base mid else mid)) = false := by
    split
    · refine mentions_obj.2 fun f hf => ?_
      rcases mem_of_mem_seed hf with hf | hf
      · exact mentions_obj.1 hbase f hf
      · exact mentions_obj.1 hmid f hf
    · exact hmid
  unfold enterOne at hone
  split at hone
  · next heq =>
    cases hone
    have hkeyslot : compoundSlot? key = none := hslot _ he (key, v) (by simp [Leaf.pairs])
    have hleaf : (steps.isEmpty && decide ((Leaf.pairs (key, v)).length ≤ 1)) = steps.isEmpty := by
      simp [Leaf.pairs]
    rw [hleaf] at heq
    exact mentions_insertAt hkeyslot hkey hv hbase steps hstart heq
  · cases hone

/-- **Without markers, the finished query is the pruned one.** -/
lemma finish_eq {e : IndexEntries} (h : mentions [marker] (.obj e.root) = false) :
    ∃ query, (prune (.obj e.root)).1 = .obj query ∧ e.finish = if query = [] then none
      else some ⟨query, false, hasSlotKeys (.obj query), (prune (.obj e.root)).2⟩ := by
  have hfree := mentions_prune _ h
  refine ⟨closeGaps (dropOr (pruneValues e.root)), by rw [prune_obj], ?_⟩
  unfold finish
  rw [prune_obj] at hfree ⊢
  dsimp only at hfree ⊢
  generalize closeGaps (dropOr (pruneValues e.root)) = query at hfree ⊢
  rw [expand_eq_self _ _ hfree]
  cases query with
  | nil => rfl
  | cons f rest => simp

end IndexEntries

end Conduit
