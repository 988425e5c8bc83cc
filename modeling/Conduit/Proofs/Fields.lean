import Conduit.Json
import Mathlib.Data.List.Forall2
import Mathlib.Data.List.Nodup
import Mathlib.Data.List.TakeDrop
import Mathlib.Data.List.TakeWhile

/-!
# Fields as a map

What the operations on the fields of an object do to the value of each key (`get?_insert`,
`get?_extend`, `get?_erase`, `get?_seed`).

`extend` and `erase` look at all fields, so that their laws ask for keys that occur once.
-/

namespace Conduit

open List

variable {α β : Type} {R S : α → β → Prop} {xs : List α} {ys : List β}

lemma forall₂_mem_mono (h : Forall₂ R xs ys) (hRS : ∀ x ∈ xs, ∀ y ∈ ys, R x y → S x y) :
    Forall₂ S xs ys := by
  induction h with
  | nil => exact .nil
  | cons hxy _ ih =>
    exact .cons (hRS _ mem_cons_self _ mem_cons_self hxy)
      (ih fun x hx y hy => hRS x (mem_cons_of_mem _ hx) y (mem_cons_of_mem _ hy))

lemma map_eq_of_forall₂ {γ : Type} {f : α → γ} {g : β → γ}
    (h : Forall₂ (fun x y => f x = g y) xs ys) : xs.map f = ys.map g := by
  rwa [← forall₂_eq_eq_eq, forall₂_map_left_iff, forall₂_map_right_iff]

lemma forall_mem_right {P : β → Prop} (h : Forall₂ R xs ys)
    (hP : ∀ x ∈ xs, ∀ y, R x y → P y) : ∀ y ∈ ys, P y := by
  induction h with
  | nil => exact forall_mem_nil _
  | cons hxy _ ih =>
    rw [forall_mem_cons] at hP
    exact forall_mem_cons.2 ⟨hP.1 _ hxy, ih hP.2⟩

lemma exists_mem_left (h : Forall₂ R xs ys) {y : β} (hy : y ∈ ys) : ∃ x ∈ xs, R x y :=
  forall_mem_right (P := fun y => ∃ x ∈ xs, R x y) h (fun x hx _ hxy => ⟨x, hx, hxy⟩) y hy

end Conduit

namespace Conduit.Fields

open List

/-- The fields with those of `base` added that they lack. -/
def seed (base fs : Fields) : Fields := base.foldl (fun fs f => insertNew fs f.1 f.2) fs

/-! ## Looking up -/

lemma get?_cons (k : String) (v : Json) (rest : Fields) (key : String) :
    get? ((k, v) :: rest) key = if k = key then some v else get? rest key := rfl

variable {k key : String} {v : Json} {f : String × Json} {fs new : Fields} {base : Fields}
  {P : String → Json → Prop}

@[simp] lemma mem_keys : key ∈ keys fs ↔ ∃ v, (key, v) ∈ fs := by
  simp [keys]

lemma mem_of_get? (h : get? fs key = some v) : (key, v) ∈ fs := by
  induction fs with
  | nil => cases h
  | cons f rest ih =>
    obtain ⟨k, w⟩ := f
    rw [get?_cons] at h
    split at h
    · next hk =>
      cases h
      rw [hk]
      exact mem_cons_self
    · exact mem_cons_of_mem _ (ih h)

lemma get?_eq_none_iff : get? fs key = none ↔ key ∉ keys fs := by
  induction fs with
  | nil => simp [get?, keys]
  | cons f rest ih =>
    obtain ⟨k, w⟩ := f
    rw [get?_cons]
    by_cases hk : k = key
    · simp [hk, keys]
    · rw [if_neg hk, ih]
      simp [keys, Ne.symm hk]

lemma exists_get? (h : key ∈ keys fs) : ∃ v, get? fs key = some v :=
  Option.ne_none_iff_exists'.1 fun hnone => get?_eq_none_iff.1 hnone h

/-- Where keys occur once, a field is what its key is looked up to. -/
lemma get?_eq_some_iff (hfs : (keys fs).Nodup) : get? fs key = some v ↔ (key, v) ∈ fs := by
  refine ⟨mem_of_get?, fun h => ?_⟩
  induction fs with
  | nil => cases h
  | cons f rest ih =>
    obtain ⟨k, w⟩ := f
    have hk : k ∉ keys rest := (nodup_cons.1 hfs).1
    rw [get?_cons]
    rcases mem_cons.1 h with h | h
    · cases h
      exact if_pos rfl
    · have hne : k ≠ key := fun hkey => hk (mem_keys.2 ⟨v, hkey ▸ h⟩)
      rw [if_neg hne]
      exact ih (nodup_cons.1 hfs).2 h

/-- What holds of all fields holds of what each key is looked up to. -/
lemma forall_mem_iff (hfs : (keys fs).Nodup) :
    (∀ f ∈ fs, P f.1 f.2) ↔ ∀ k v, get? fs k = some v → P k v :=
  ⟨fun h k v hv => h (k, v) (mem_of_get? hv), fun h f hf => h f.1 f.2 ((get?_eq_some_iff hfs).2 hf)⟩

lemma contains_iff : contains fs key = true ↔ key ∈ keys fs := by
  simp [contains, keys]

lemma contains_eq_false_iff : contains fs key = false ↔ get? fs key = none := by
  rw [get?_eq_none_iff, ← contains_iff, Bool.not_eq_true]

/-! ## Inserting -/

lemma get?_insert (fs : Fields) (key : String) (v : Json) (k : String) :
    get? (insert fs key v) k = if key = k then some v else get? fs k := by
  induction fs with
  | nil => rfl
  | cons f rest ih =>
    obtain ⟨l, w⟩ := f
    by_cases hl : l = key
    · subst hl
      rw [insert, if_pos rfl, get?_cons, get?_cons]
      by_cases hk : l = k <;> simp [hk]
    · rw [insert, if_neg hl, get?_cons, get?_cons, ih]
      by_cases hk : l = k
      · subst hk
        rw [if_pos rfl, if_neg (Ne.symm hl), if_pos rfl]
      · rw [if_neg hk, if_neg hk]

@[simp] lemma get?_insert_self (fs : Fields) (key : String) (v : Json) :
    get? (insert fs key v) key = some v := by
  rw [get?_insert, if_pos rfl]

lemma get?_insert_of_ne (h : key ≠ k) (fs : Fields) (v : Json) :
    get? (insert fs key v) k = get? fs k := by
  rw [get?_insert, if_neg h]

lemma mem_of_mem_insert (h : f ∈ insert fs key v) : f = (key, v) ∨ f ∈ fs := by
  induction fs with
  | nil => exact .inl (mem_singleton.1 h)
  | cons g rest ih =>
    rw [insert] at h
    split at h
    · next hl =>
      rcases mem_cons.1 h with rfl | h
      · exact .inl (by rw [hl])
      · exact .inr (mem_cons_of_mem _ h)
    · rcases mem_cons.1 h with rfl | h
      · exact .inr mem_cons_self
      · exact (ih h).imp_right (mem_cons_of_mem _)

lemma insert_fresh (h : key ∉ keys fs) (v : Json) : insert fs key v = fs ++ [(key, v)] := by
  induction fs with
  | nil => rfl
  | cons f rest ih =>
    rw [keys, map_cons, mem_cons, not_or] at h
    rw [insert, if_neg (Ne.symm h.1), ih h.2]
    rfl

lemma mem_keys_insert : k ∈ keys (insert fs key v) ↔ k = key ∨ k ∈ keys fs := by
  rw [← not_iff_not, ← get?_eq_none_iff, get?_insert, not_or, ← get?_eq_none_iff]
  by_cases hk : key = k
  · simp [hk]
  · simp [hk, Ne.symm hk]

lemma nodup_insert (hfs : (keys fs).Nodup) (key : String) (v : Json) :
    (keys (insert fs key v)).Nodup := by
  induction fs with
  | nil => exact nodup_singleton key
  | cons f rest ih =>
    obtain ⟨hl, hrest⟩ := nodup_cons.1 hfs
    rw [insert]
    split
    · exact nodup_cons.2 ⟨hl, hrest⟩
    · next hne =>
      refine nodup_cons.2 ⟨fun hmem => ?_, ih hrest⟩
      rcases mem_keys_insert.1 hmem with h | h
      · exact hne h
      · exact hl h

/-- What is inserted over fields with other keys only adds to them. -/
lemma get?_extend (fs : Fields) (hnew : (keys new).Nodup) (k : String) :
    get? (extend fs new) k = (get? new k).or (get? fs k) := by
  induction new generalizing fs with
  | nil => rfl
  | cons f rest ih =>
    obtain ⟨l, w⟩ := f
    obtain ⟨hl, hrest⟩ := nodup_cons.1 hnew
    have hstep : extend fs ((l, w) :: rest) = extend (insert fs l w) rest := rfl
    rw [hstep, ih (insert fs l w) hrest, get?_insert, get?_cons]
    by_cases hk : l = k
    · have hnone : get? rest k = none := get?_eq_none_iff.2 (hk ▸ hl)
      simp [hk, hnone]
    · simp [hk]

lemma forall_get?_insert : (∀ k w, get? (insert fs key v) k = some w → P k w) ↔
      P key v ∧ ∀ k w, k ≠ key → get? fs k = some w → P k w := by
  constructor
  · intro h
    refine ⟨h key v (get?_insert_self fs key v), fun k w hk hw => h k w ?_⟩
    rw [get?_insert_of_ne (Ne.symm hk), hw]
  · rintro ⟨hv, h⟩ k w hw
    rw [get?_insert] at hw
    split at hw
    · next hk =>
      cases hw
      exact hk ▸ hv
    · next hk => exact h k w (Ne.symm hk) hw

/-- Fields that are added under new keys are looked up beside those that were there. -/
lemma forall_get?_extend (hnew : (keys new).Nodup) (hfresh : ∀ k ∈ keys new, get? fs k = none) :
    (∀ k v, get? (extend fs new) k = some v → P k v) ↔
      (∀ k v, get? fs k = some v → P k v) ∧ ∀ k v, get? new k = some v → P k v := by
  simp only [get?_extend fs hnew]
  constructor
  · intro h
    refine ⟨fun k v hv => h k v ?_, fun k v hv => h k v (by rw [hv]; rfl)⟩
    cases hn : get? new k with
    | none => rwa [Option.none_or]
    | some w =>
      rw [hfresh k (mem_keys.2 ⟨w, mem_of_get? hn⟩)] at hv
      cases hv
  · rintro ⟨hf, hn⟩ k v hv
    cases hk : get? new k with
    | none => exact hf k v (by rwa [hk, Option.none_or] at hv)
    | some w =>
      rw [hk] at hv
      cases hv
      exact hn k _ hk

lemma mem_of_mem_extend (h : f ∈ extend fs new) : f ∈ new ∨ f ∈ fs := by
  induction new generalizing fs with
  | nil => exact .inr h
  | cons g rest ih =>
    rcases @ih (insert fs g.1 g.2) h with h | h
    · exact .inl (mem_cons_of_mem _ h)
    · rcases mem_of_mem_insert h with rfl | h
      · exact .inl mem_cons_self
      · exact .inr h

lemma mem_keys_extend : k ∈ keys (extend fs new) ↔ k ∈ keys fs ∨ k ∈ keys new := by
  induction new generalizing fs with
  | nil => simp [extend, keys]
  | cons f rest ih =>
    have hstep : extend fs (f :: rest) = extend (insert fs f.1 f.2) rest := rfl
    have hkeys : keys (f :: rest) = f.1 :: keys rest := rfl
    rw [hstep, ih, mem_keys_insert, hkeys, mem_cons, or_comm (a := k = f.1), or_assoc]

lemma nodup_extend (hfs : (keys fs).Nodup) (new : Fields) : (keys (extend fs new)).Nodup := by
  induction new generalizing fs with
  | nil => exact hfs
  | cons f rest ih => exact ih (nodup_insert hfs f.1 f.2)

lemma extend_eq_append (hnodup : (keys (fs ++ new)).Nodup) : extend fs new = fs ++ new := by
  induction new generalizing fs with
  | nil => simp [extend]
  | cons g rest ih =>
    have hstep : extend fs (g :: rest) = extend (insert fs g.1 g.2) rest := rfl
    have hfresh : g.1 ∉ keys fs := by
      rw [keys, map_append, nodup_append] at hnodup
      exact fun hmem => hnodup.2.2 _ hmem _ mem_cons_self rfl
    rw [hstep, insert_fresh hfresh, ih (by rwa [append_assoc]), append_assoc]
    rfl

/-! ## Adding what is missing -/

lemma get?_insertNew (fs : Fields) (key : String) (v : Json) (k : String) :
    get? (insertNew fs key v) k = (get? fs k).or (if key = k then some v else none) := by
  unfold insertNew
  cases hc : contains fs key with
  | true =>
    obtain ⟨w, hw⟩ := exists_get? (contains_iff.1 hc)
    rw [if_pos rfl]
    by_cases hk : key = k
    · subst hk
      rw [hw]
      rfl
    · simp [hk]
  | false =>
    have hnone := contains_eq_false_iff.1 hc
    rw [if_neg Bool.false_ne_true, get?_insert]
    by_cases hk : key = k
    · subst hk
      simp [hnone]
    · simp [hk]

lemma get?_seed (base fs : Fields) (k : String) :
    get? (seed base fs) k = (get? fs k).or (get? base k) := by
  induction base generalizing fs with
  | nil => simp [seed, get?]
  | cons f rest ih =>
    obtain ⟨l, w⟩ := f
    have hstep : seed ((l, w) :: rest) fs = seed rest (insertNew fs l w) := rfl
    rw [hstep, ih, get?_insertNew, get?_cons]
    by_cases hk : l = k
    · simp [hk]
    · simp [hk]

lemma mem_of_mem_seed (h : f ∈ seed base fs) : f ∈ base ∨ f ∈ fs := by
  induction base generalizing fs with
  | nil => exact .inr h
  | cons g rest ih =>
    rcases @ih (insertNew fs g.1 g.2) h with h | h
    · exact .inl (mem_cons_of_mem _ h)
    · unfold insertNew at h
      split at h
      · exact .inr h
      · rcases mem_of_mem_insert h with rfl | h
        · exact .inl mem_cons_self
        · exact .inr h

lemma nodup_seed (hfs : (keys fs).Nodup) (base : Fields) : (keys (seed base fs)).Nodup := by
  induction base generalizing fs with
  | nil => exact hfs
  | cons f rest ih =>
    refine ih ?_
    show (keys (if contains fs f.1 then fs else insert fs f.1 f.2)).Nodup
    split
    · exact hfs
    · exact nodup_insert hfs f.1 f.2

lemma seed_eq_self (h : ∀ key ∈ keys base, key ∈ keys fs) : seed base fs = fs := by
  induction base with
  | nil => rfl
  | cons f rest ih =>
    have hf : contains fs f.1 = true := contains_iff.2 (h f.1 mem_cons_self)
    have hstep : seed (f :: rest) fs = seed rest (insertNew fs f.1 f.2) := rfl
    rw [hstep, insertNew, if_pos hf]
    exact ih fun key hkey => h key (mem_cons_of_mem _ hkey)

/-! ## Erasing -/

lemma erase_cons (f : String × Json) (rest : Fields) (key : String) :
    erase (f :: rest) key = if f.1 = key then rest.getLast?.toList ++ rest.dropLast
      else f :: erase rest key := by
  simp only [erase, span_eq_takeWhile_dropWhile]
  by_cases hf : f.1 = key
  · cases hlast : rest.getLast? <;> simp_all
  · rw [takeWhile_cons_of_pos (by simpa using hf), dropWhile_cons_of_pos (by simpa using hf),
      if_neg hf]
    split <;> rename_i heq <;> simp only [Prod.mk.injEq] at heq
    · simp [heq.2]
    · obtain ⟨rfl, hrest⟩ := heq
      rw [hrest]
      dsimp only
      split <;> rfl

/-- Up to order, erasing leaves out the first field with the key. -/
lemma erase_perm (fs : Fields) (key : String) :
    (erase fs key).Perm (fs.eraseP fun f => f.1 == key) := by
  induction fs with
  | nil => rfl
  | cons f rest ih =>
    rw [erase_cons]
    split
    · next hf =>
      rw [eraseP_cons_of_pos (by simpa using hf)]
      rcases eq_nil_or_concat rest with rfl | ⟨init, last, rfl⟩
      · rfl
      · simpa using (perm_append_singleton last init).symm
    · next hf =>
      rw [eraseP_cons_of_neg (by simpa using hf)]
      exact ih.cons f

lemma mem_of_mem_erase (h : f ∈ erase fs key) : f ∈ fs :=
  mem_of_mem_eraseP ((erase_perm fs key).mem_iff.1 h)

variable (hfs : (keys fs).Nodup)

include hfs

lemma nodup_erase (key : String) : (keys (erase fs key)).Nodup := by
  have hperm : (keys (erase fs key)).Perm _ := (erase_perm fs key).map Prod.fst
  exact hperm.nodup_iff.2 (hfs.sublist (eraseP_sublist.map Prod.fst))

/-- Where keys occur once, erasing leaves the fields with other keys. -/
lemma mem_erase (key : String) : f ∈ erase fs key ↔ f ∈ fs ∧ f.1 ≠ key := by
  rw [(erase_perm fs key).mem_iff]
  induction fs with
  | nil => simp
  | cons g rest ih =>
    obtain ⟨hg, hrest⟩ := nodup_cons.1 hfs
    by_cases hkey : g.1 = key
    · rw [eraseP_cons_of_pos (by simpa using hkey), mem_cons]
      refine ⟨fun h => ⟨.inr h, fun hf => hg ?_⟩, fun ⟨h, hne⟩ => h.resolve_left ?_⟩
      · rw [hkey, ← hf]
        exact mem_map_of_mem h
      · rintro rfl
        exact hne hkey
    · rw [eraseP_cons_of_neg (by simpa using hkey), mem_cons, mem_cons, ih hrest]
      by_cases hf : f = g <;> simp [hf, hkey]

lemma get?_erase (key k : String) :
    get? (erase fs key) k = if key = k then none else get? fs k := by
  apply Option.ext
  intro v
  rw [get?_eq_some_iff (nodup_erase hfs key), mem_erase hfs]
  by_cases hk : key = k
  · simp [hk]
  · simp [hk, Ne.symm hk, get?_eq_some_iff hfs]

end Conduit.Fields

/-! ## Documents -/

namespace Conduit.Json

/-- A value that stands somewhere in another. -/
inductive Inside (v : Json) : Json → Prop where
  | self : Inside v v
  | field {fs : Fields} {f : String × Json} (hf : f ∈ fs) (h : Inside v f.2) : Inside v (.obj fs)
  | item {items : List Json} {w : Json} (hw : w ∈ items) (h : Inside v w) : Inside v (.arr items)

mutual

lemma beq_iff : ∀ v w : Json, beq v w = true ↔ v = w
  | .null, w => by cases w <;> simp [beq]
  | .bool a, w => by cases w <;> simp [beq]
  | .int n, w => by cases w <;> simp [beq]
  | .double x, w => by cases w <;> simp [beq]
  | .str s, w => by cases w <;> simp [beq]
  | .arr items, w => by cases w <;> simp [beq, beqItems_iff items]
  | .obj fs, w => by cases w <;> simp [beq, beqFields_iff fs]

lemma beqItems_iff : ∀ vs ws : List Json, beqItems vs ws = true ↔ vs = ws
  | [], ws => by cases ws <;> simp [beqItems]
  | v :: rest, ws => by cases ws <;> simp [beqItems, beq_iff v, beqItems_iff rest]

lemma beqFields_iff : ∀ fs gs : Fields, beqFields fs gs = true ↔ fs = gs
  | [], gs => by cases gs <;> simp [beqFields]
  | (k, v) :: rest, gs => by
    cases gs with
    | nil => simp [beqFields]
    | cons g gs => simp [beqFields, beq_iff v, beqFields_iff rest, Prod.ext_iff]

end

instance : DecidableEq Json := fun v w => decidable_of_iff _ (beq_iff v w)

end Conduit.Json
