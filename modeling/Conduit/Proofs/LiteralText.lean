import Conduit.Pattern
import Conduit.Proofs.CanonicalText

/-!
# Literals are told apart by their text

The values that a query compares with are scalars, dates, identifiers, patterns and empty
containers.  Their canonical texts differ, so that dropping values of a text that has been seen
drops repetitions only (`canonical_inj`, `mem_distinct`).
-/

namespace Conduit

open List

namespace Json

variable {v w : Json} {vs : List Json} {fs gs : Fields} {seen : Std.TreeSet String}

/-- The values that a query compares with. -/
inductive IsLiteral : Json → Prop
  | null : IsLiteral .null
  | bool (b : Bool) : IsLiteral (.bool b)
  | int (n : Int) : IsLiteral (.int n)
  | double (x : Binary64) : IsLiteral (.double x)
  | str (s : String) : IsLiteral (.str s)
  | emptyArray : IsLiteral (.arr [])
  | emptyObject : IsLiteral (.obj [])
  | date (s : String) : IsLiteral (.obj [("$date", .str s)])
  | oid (s : String) : IsLiteral (.obj [("$oid", .str s)])
  | pattern (p : Pattern) : IsLiteral p.toJson

lemma IsLiteral.uniqueKeys (hv : IsLiteral v) : UniqueKeys v := by
  cases hv with
  | null | bool | int | double => exact .word rfl
  | str s => exact .str s
  | emptyArray => exact .arr (by simp)
  | emptyObject => exact .obj nodup_nil (by simp)
  | date s | oid s => exact .obj (nodup_singleton _) (by simp [UniqueKeys.str])
  | pattern p => exact .obj (by simp [Fields.keys]) (by simp [UniqueKeys.str])

/-- The objects among literals have one of a few sets of keys, all with strings. -/
lemma IsLiteral.fields (h : IsLiteral (.obj fs)) :
    fs = [] ∨ (∃ s, fs = [("$date", .str s)]) ∨ (∃ s, fs = [("$oid", .str s)]) ∨
      ∃ s t, fs = [("$regex", .str s), ("$options", .str t)] := by
  generalize hv : Json.obj fs = v at h
  cases h <;> simp_all [Pattern.toJson]

/-- **Literals of one canonical text are equal.** -/
lemma canonical_inj (hv : IsLiteral v) (hw : IsLiteral w) (h : v.canonical = w.canonical) :
    v = w := by
  have hsame := (rearranged_of_canonical hv.uniqueKeys hw.uniqueKeys (x := []) (y := [])
    (by simp [Ends]) (by simp [Ends]) (by rw [h])).1
  cases hsame with
  | refl => rfl
  | arr hlength _ =>
    cases hv
    cases hw
    rfl
  | @obj fs gs hkeys hvalues =>
    have hget : ∀ key s t, Fields.get? fs key = some (.str s) → Fields.get? gs key = some (.str t) →
        s = t := by
      intro key s t hs ht
      cases hvalues key _ _ hs ht
      rfl
    have hdate := hkeys "$date"
    have hoid := hkeys "$oid"
    have hregex := hkeys "$regex"
    rcases hv.fields with rfl | ⟨s, rfl⟩ | ⟨s, rfl⟩ | ⟨s, t, rfl⟩ <;>
      rcases hw.fields with rfl | ⟨s', rfl⟩ | ⟨s', rfl⟩ | ⟨s', t', rfl⟩ <;>
      simp [Fields.keys] at hdate hoid hregex
    · rfl
    · rw [hget "$date" s s' rfl rfl]
    · rw [hget "$oid" s s' rfl rfl]
    · rw [hget "$regex" s s' rfl rfl, hget "$options" t t' rfl rfl]

/-! ## Distinct values -/

lemma mem_of_mem_distinctFrom (h : w ∈ distinctFrom seen vs) : w ∈ vs := by
  induction vs generalizing seen with
  | nil => cases h
  | cons v rest ih =>
    rw [distinctFrom] at h
    split at h
    · exact mem_cons_of_mem _ (ih h)
    · rcases mem_cons.1 h with rfl | h
      · exact mem_cons_self ..
      · exact mem_cons_of_mem _ (ih h)

lemma exists_mem_distinctFrom (h : w ∈ vs) (hseen : seen.contains w.canonical = false) :
    ∃ u ∈ distinctFrom seen vs, u.canonical = w.canonical := by
  induction vs generalizing seen with
  | nil => cases h
  | cons v rest ih =>
    rw [distinctFrom]
    by_cases hsame : v.canonical = w.canonical
    · rw [hsame, if_neg (by rw [hseen]; exact Bool.false_ne_true)]
      exact ⟨v, mem_cons_self .., hsame⟩
    · have hrest : w ∈ rest := by
        rcases mem_cons.1 h with rfl | h
        · exact absurd rfl hsame
        · exact h
      split
      · exact ih hrest hseen
      · have hinsert : (seen.insert v.canonical).contains w.canonical = false := by
          rw [Std.TreeSet.contains_insert, hseen]
          simpa using hsame
        obtain ⟨u, hu, heq⟩ := ih hrest hinsert
        exact ⟨u, mem_cons_of_mem _ hu, heq⟩

lemma distinctFrom_of_seen (hvs : ∀ v ∈ vs, v = w) (hseen : seen.contains w.canonical = true) :
    distinctFrom seen vs = [] := by
  induction vs with
  | nil => rfl
  | cons v rest ih =>
    rw [distinctFrom, hvs v mem_cons_self, if_pos hseen]
    exact ih fun u hu => hvs u (mem_cons_of_mem _ hu)

lemma distinct_of_forall_eq (hne : vs ≠ []) (hvs : ∀ v ∈ vs, v = w) : distinct vs = [w] := by
  cases vs with
  | nil => exact absurd rfl hne
  | cons v rest =>
    obtain rfl := hvs v mem_cons_self
    have hseen : (Std.TreeSet.insert (∅ : Std.TreeSet String) v.canonical).contains v.canonical = true := by
      simp
    rw [distinct, distinctFrom, Std.TreeSet.contains_emptyc, if_neg Bool.false_ne_true,
      distinctFrom_of_seen (fun u hu => hvs u (mem_cons_of_mem _ hu)) hseen]

lemma mem_distinct (hvs : ∀ v ∈ vs, IsLiteral v) : w ∈ distinct vs ↔ w ∈ vs := by
  constructor
  · exact mem_of_mem_distinctFrom
  · intro h
    obtain ⟨u, hu, heq⟩ := exists_mem_distinctFrom h Std.TreeSet.contains_emptyc
    rwa [← canonical_inj (hvs u (mem_of_mem_distinctFrom hu)) (hvs w h) heq]

end Json

end Conduit
