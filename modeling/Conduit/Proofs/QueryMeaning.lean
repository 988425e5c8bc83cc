import Conduit.Match.Build
import Conduit.Proofs.MatchShape
import Mathlib.Data.Set.Defs

/-!
# What queries mean

A document gives each key a set of values.  A key with a literal, and `$eq`, demand that the
value is in the set, `$in` that one of its values is, `$nin` that none is; any other operator with
its argument is some predicate of the set.  The keys of an object and the operators of a field
hold together, `$and` and `$or` as usual.

Adding conditions to an object, in place or under `$and`, demands both (`meetsFields_merge`,
`meetsFields_seed`).
-/

namespace Conduit

open Fields List

/-- A document as queries see it. -/
structure Document where
  /-- The values at each key. -/
  values : String → Set Json
  /-- What operators say of values, apart from `$eq`, `$in` and `$nin`. -/
  test : String → Json → Set Json → Prop

namespace Document

variable (d : Document)

/-- Whether an operator with its argument holds of values. -/
def meetsOperator (vs : Set Json) (op : String) (arg : Json) : Prop := match op, arg with
  | "$eq", v => v ∈ vs
  | "$in", .arr ws => ∃ w ∈ ws, w ∈ vs
  | "$nin", .arr ws => ∀ w ∈ ws, w ∉ vs
  | op, v => d.test op v vs

/-- Whether a key of an object is that of an operator in a native query. -/
def isQueryOperator (key : String) : Bool := (MatchOp.ofKey? key).isSome || key == "$geoWithin"

/-- Whether an object holds operators.  The stored forms of dates and identifiers do not. -/
def holdsOperators (fs : Fields) : Bool := fs.any fun f => isQueryOperator f.1

/-- Whether values meet the condition of a field: a literal, or an object of operators. -/
def meetsValue (vs : Set Json) : Json → Prop
  | .obj fs =>
    if holdsOperators fs then ∀ f ∈ fs, d.meetsOperator vs f.1 f.2 else .obj fs ∈ vs
  | v => v ∈ vs

mutual

/-- Whether the document meets a query. -/
def meets : Json → Prop
  | .obj fs => meetsFields fs
  | _ => False

def meetsFields : Fields → Prop
  | [] => True
  | (key, v) :: rest => meetsKey key v ∧ meetsFields rest

/-- Whether the document meets one condition of a query. -/
def meetsKey (key : String) : Json → Prop
  | .arr items =>
    if key = "$and" then meetsAll items
    else if key = "$or" then meetsAny items
    else d.meetsValue (d.values key) (.arr items)
  | v => d.meetsValue (d.values key) v

def meetsAll : List Json → Prop
  | [] => True
  | v :: rest => meets v ∧ meetsAll rest

def meetsAny : List Json → Prop
  | [] => False
  | v :: rest => meets v ∨ meetsAny rest

end

/-! ## Objects and lists -/

variable {d : Document}

variable {items : List Json} {key : String} {fs gs : Fields} {v : Json}

lemma meetsAll_iff : d.meetsAll items ↔ ∀ v ∈ items, d.meets v := by
  induction items with
  | nil => simp [meetsAll]
  | cons v rest ih => simp [meetsAll, ih]

lemma meetsAny_iff : d.meetsAny items ↔ ∃ v ∈ items, d.meets v := by
  induction items with
  | nil => simp [meetsAny]
  | cons v rest ih => simp [meetsAny, ih]

lemma meetsKey_and : d.meetsKey "$and" (.arr items) ↔ ∀ v ∈ items, d.meets v := by
  rw [meetsKey, if_pos rfl, meetsAll_iff]

lemma meetsKey_or : d.meetsKey "$or" (.arr items) ↔ ∃ v ∈ items, d.meets v := by
  rw [meetsKey, if_neg (by decide), if_pos rfl, meetsAny_iff]

lemma meetsKey_field (hand : key ≠ "$and") (hor : key ≠ "$or") (v : Json) :
    d.meetsKey key v ↔ d.meetsValue (d.values key) v := by
  cases v with
  | arr items => rw [meetsKey, if_neg hand, if_neg hor]
  | _ => rw [meetsKey]; simp

lemma meetsFields_iff_forall : d.meetsFields fs ↔ ∀ f ∈ fs, d.meetsKey f.1 f.2 := by
  induction fs with
  | nil => simp [meetsFields]
  | cons f rest ih => simp [meetsFields, ih]

/-- An object demands what each of its keys is looked up to. -/
lemma meetsFields_iff (hfs : (keys fs).Nodup) :
    d.meetsFields fs ↔ ∀ k v, get? fs k = some v → d.meetsKey k v := by
  rw [meetsFields_iff_forall, forall_mem_iff hfs]

lemma meetsFields_singleton : d.meetsFields [(key, v)] ↔ d.meetsKey key v := by
  simp [meetsFields]

/-! ## Adding conditions -/

/-- What `$and` holds, if anything, is a list. -/
def AndHoldsList (fs : Fields) : Prop := ∀ v, get? fs "$and" = some v → ∃ items, v = .arr items

lemma andHoldsList_nil : AndHoldsList [] := by
  intro v hv
  cases hv

lemma nodup_merge (hfs : (keys fs).Nodup) (gs : Fields) : (keys (Built.merge fs gs)).Nodup := by
  unfold Built.merge
  split
  · split
    · exact nodup_insert hfs _ _
    · exact nodup_insert hfs _ _
    · exact hfs
  · exact nodup_extend hfs gs

/-- **Merging loses no condition**, whether the keys are new or the object goes into `$and`, as long
as `$and` is read as the conjunction of what it lists. -/
lemma forall_mem_merge {P : String → Json → Prop} (hfs : (keys fs).Nodup) (hgs : (keys gs).Nodup)
    (hand : AndHoldsList fs) (hempty : P "$and" (.arr []))
    (hpush : ∀ items, P "$and" (.arr (items ++ [.obj gs])) ↔
      P "$and" (.arr items) ∧ ∀ f ∈ gs, P f.1 f.2) :
    (∀ f ∈ Built.merge fs gs, P f.1 f.2) ↔ (∀ f ∈ fs, P f.1 f.2) ∧ ∀ f ∈ gs, P f.1 f.2 := by
  rw [forall_mem_iff (nodup_merge hfs gs), forall_mem_iff hfs]
  unfold Built.merge
  split
  · split
    · next hnone =>
      rw [forall_get?_insert, ← nil_append [_], hpush, and_comm]
      refine and_congr ⟨fun h k w hw => h k w ?_ hw, fun h k w _ hw => h k w hw⟩
        (and_iff_right hempty)
      rintro rfl
      rw [hnone] at hw
      cases hw
    · next items hitems =>
      rw [forall_get?_insert, hpush, and_right_comm]
      refine and_congr_left fun _ => ⟨fun ⟨hold, h⟩ k w hw => ?_,
        fun h => ⟨h "$and" _ hitems, fun k w _ hw => h k w hw⟩⟩
      by_cases hk : k = "$and"
      · subst hk
        rw [hitems] at hw
        cases hw
        exact hold
      · exact h k w hk hw
    · next v hv hsome =>
      obtain ⟨items, rfl⟩ := hand v hsome
      exact absurd rfl (hv items)
  · next hnew =>
    have hfresh : ∀ k ∈ keys gs, get? fs k = none := by
      intro k hk
      obtain ⟨w, hw⟩ := mem_keys.1 hk
      rw [← contains_eq_false_iff, ← Bool.not_eq_true]
      exact fun hc => hnew (any_eq_true.2 ⟨(k, w), hw, hc⟩)
    rw [forall_mem_iff hgs]
    exact forall_get?_extend hgs hfresh

lemma meetsFields_merge (hfs : (keys fs).Nodup) (hgs : (keys gs).Nodup) (hand : AndHoldsList fs) :
    d.meetsFields (Built.merge fs gs) ↔ d.meetsFields fs ∧ d.meetsFields gs := by
  simp only [meetsFields_iff_forall]
  refine forall_mem_merge hfs hgs hand (meetsKey_and.2 (by simp)) fun items => ?_
  simp only [meetsKey_and, mem_append, mem_singleton, or_imp, forall_and, forall_eq, meets,
    meetsFields_iff_forall]

/-- Merging brings in no keys but those of the object, and `$and`. -/
lemma mem_keys_merge {k : String} (h : k ∈ keys (Built.merge fs gs)) :
    k ∈ keys fs ∨ k = "$and" ∨ k ∈ keys gs := by
  unfold Built.merge at h
  split at h
  · split at h
    iterate 2
      · exact (mem_keys_insert.1 h).elim (fun hk => .inr (.inl hk)) .inl
    · exact .inl h
  · exact (mem_keys_extend.1 h).imp id .inr

lemma keys_subset_merge (fs gs : Fields) : keys fs ⊆ keys (Built.merge fs gs) := by
  intro k hk
  unfold Built.merge
  split
  · split
    · exact mem_keys_insert.2 (.inr hk)
    · exact mem_keys_insert.2 (.inr hk)
    · exact hk
  · exact mem_keys_extend.2 (.inl hk)

/-- An object with one key is merged under that key, unless it is taken. -/
lemma mem_keys_merge_single (hgs : keys gs = [key]) : key ∈ keys (Built.merge fs gs) := by
  have hmem : key ∈ keys gs := hgs ▸ mem_cons_self
  by_cases htaken : (gs.any fun f => contains fs f.1) = true
  · obtain ⟨f, hf, hc⟩ := any_eq_true.1 htaken
    have hkey : f.1 = key := by
      have hf := mem_map_of_mem (f := Prod.fst) hf
      rw [← Fields.keys, hgs] at hf
      exact mem_singleton.1 hf
    exact keys_subset_merge fs gs (Fields.contains_iff.1 (hkey ▸ hc))
  · rw [Built.merge, if_neg htaken]
    exact mem_keys_extend.2 (.inr hmem)

lemma andHoldsList_merge (hgs : (keys gs).Nodup) (hf : AndHoldsList fs) (hg : AndHoldsList gs) :
    AndHoldsList (Built.merge fs gs) := by
  intro v hv
  unfold Built.merge at hv
  split at hv
  · split at hv
    iterate 2
      · rw [get?_insert_self] at hv
        cases hv
        exact ⟨_, rfl⟩
    · exact hf v hv
  · rw [get?_extend fs hgs] at hv
    cases hk : get? gs "$and" with
    | none => exact hf v (by rwa [hk, Option.none_or] at hv)
    | some w =>
      rw [hk] at hv
      cases hv
      exact hg _ hk

/-- The base conditions hold beside those that do not give them way. -/
lemma meetsFields_seed {base : Fields} (hfs : (keys fs).Nodup) :
    d.meetsFields (seed base fs) ↔ d.meetsFields fs ∧
      ∀ k v, get? fs k = none → get? base k = some v → d.meetsKey k v := by
  rw [meetsFields_iff (nodup_seed hfs base), meetsFields_iff hfs]
  simp only [get?_seed]
  constructor
  · intro h
    exact ⟨fun k v hv => h k v (by rw [hv]; rfl), fun k v hnone hv => h k v (by rw [hnone]; exact hv)⟩
  · rintro ⟨hf, hb⟩ k v hv
    cases hk : get? fs k with
    | none => exact hb k v hk (by rwa [hk, Option.none_or] at hv)
    | some w =>
      rw [hk] at hv
      cases hv
      exact hf k _ hk

end Document

namespace Built

/-! ## What merged objects mean -/

section

variable (atom : String → Json → Prop) (other : Json → Prop)

mutual

/-- What a built object means if each pair of a key and a value means something of its own, apart
from the lists under `$and`. -/
def Means : Json → Prop
  | .obj fs => MeansFields fs
  | v => other v

def MeansFields : Fields → Prop
  | [] => True
  | (key, v) :: rest => MeansKey key v ∧ MeansFields rest

def MeansKey (key : String) : Json → Prop
  | .arr items => if key = "$and" then MeansAll items else atom key (.arr items)
  | v => atom key v

def MeansAll : List Json → Prop
  | [] => True
  | v :: rest => Means v ∧ MeansAll rest

end

end

variable {atom : String → Json → Prop} {other : Json → Prop}

lemma meansFields_iff {fs : Fields} :
    MeansFields atom other fs ↔ ∀ f ∈ fs, MeansKey atom other f.1 f.2 := by
  induction fs with
  | nil => simp [MeansFields]
  | cons f rest ih => simp [MeansFields, ih]

lemma meansKey_and {items : List Json} :
    MeansKey atom other "$and" (.arr items) ↔ ∀ v ∈ items, Means atom other v := by
  rw [MeansKey, if_pos rfl]
  induction items with
  | nil => simp [MeansAll]
  | cons v rest ih => simp [MeansAll, ih]

lemma means_merge {fs gs : Fields} (hfs : (keys fs).Nodup) (hgs : (keys gs).Nodup)
    (hand : Document.AndHoldsList fs) :
    Means atom other (.obj (merge fs gs)) ↔ Means atom other (.obj fs) ∧ Means atom other (.obj gs) := by
  simp only [Means, meansFields_iff]
  refine Document.forall_mem_merge hfs hgs hand (meansKey_and.2 (by simp)) fun items => ?_
  simp only [meansKey_and, mem_append, mem_singleton, or_imp, forall_and, forall_eq, Means,
    meansFields_iff]

/-- **Objects merged one after the other mean what all of them mean.**  The invariant of the fold is
that keys are distinct and that `$and`, whoever brought it in, holds a list. -/
theorem merged_objects_mean_all (objects : List Fields) (hkeys : ∀ o ∈ objects, (keys o).Nodup)
    (hand : ∀ o ∈ objects, Document.AndHoldsList o) :
    Means atom other (.obj (objects.foldl merge [])) ↔ ∀ o ∈ objects, Means atom other (.obj o) := by
  have hrun : ∀ start : Fields, (keys start).Nodup → Document.AndHoldsList start →
      (Means atom other (.obj (objects.foldl merge start)) ↔
        Means atom other (.obj start) ∧ ∀ o ∈ objects, Means atom other (.obj o)) := by
    induction objects with
    | nil => simp
    | cons o rest ih =>
      intro start hstart hlist
      rw [forall_mem_cons] at hkeys hand
      rw [foldl_cons, ih hkeys.2 hand.2 _ (Document.nodup_merge hstart o)
        (Document.andHoldsList_merge hkeys.1 hlist hand.1), means_merge hstart hkeys.1 hlist,
        forall_mem_cons, and_assoc]
  rw [hrun [] nodup_nil Document.andHoldsList_nil]
  simp [Means, MeansFields]

/-- A second age goes beside the list that an object brought along. -/
theorem ages_merged_into_list :
    let age (n : Int) : Fields := [("c_age", .int n)]
    let objects := [age 1, [("$and", .arr [.obj (age 2)])], age 3]
    let means := Means (fun key v => key = "c_age" ∧ v = .int 1) (fun _ => False)
    objects.foldl merge [] = [("c_age", .int 1), ("$and", .arr [.obj (age 2), .obj (age 3)])] ∧
      (means (.obj (objects.foldl merge [])) ↔ ∀ o ∈ objects, means (.obj o)) := by
  intro age objects means
  refine ⟨by decide, merged_objects_mean_all objects (by decide) ?_⟩
  simp [objects, age, Document.AndHoldsList, get?]

end Built

end Conduit
