import Conduit.Json.Nested
import Conduit.Proofs.Fields
import Conduit.Proofs.Paths

/-!
# Inclusions below inclusions

Of flat fields, inclusions below another inclusion are dropped, and what they include stays
included (`collapse_covers_exactly`).
-/

namespace Conduit.Fields

open List Conduit.Path

variable {fs : Fields}

lemma mem_collapse {f : String × Json} : f ∈ collapse fs ↔ f ∈ fs ∧ (f.2.isInclusion = true →
    ∀ g ∈ fs, g.2.isInclusion = true → isBelow g.1 f.1 = false) := by
  rw [collapse, mem_filter, Bool.or_eq_true, Bool.not_eq_true', Bool.not_eq_true', any_eq_false,
    ← Bool.not_eq_true, ← imp_iff_not_or]
  simp only [Fields.mem_keys, mem_filter, forall_exists_index, and_imp, Prod.forall,
    Bool.not_eq_true]

/-- What is included stays covered.  The parent may itself have been dropped for a shorter one, so
that the induction is on the length of the path. -/
lemma exists_cover (f : String × Json) (hf : f ∈ fs) (hincluded : f.2.isInclusion = true)
    (hdropped : f ∉ collapse fs) :
    ∃ g ∈ collapse fs, g.2.isInclusion = true ∧ isBelow g.1 f.1 = true := by
  induction hn : f.1.toList.length using Nat.strong_induction_on generalizing f with
  | _ n ih =>
    have hparent : ∃ g ∈ fs, g.2.isInclusion = true ∧ isBelow g.1 f.1 = true := by
      by_contra hnone
      refine hdropped (mem_collapse.2 ⟨hf, fun _ g hg hin => ?_⟩)
      exact Bool.eq_false_iff.2 fun hbelow => hnone ⟨g, hg, hin, hbelow⟩
    obtain ⟨g, hg, hin, hbelow⟩ := hparent
    by_cases hkept : g ∈ collapse fs
    · exact ⟨g, hkept, hin, hbelow⟩
    · obtain ⟨k, hk, hkin, habove⟩ := ih _ (hn ▸ length_lt_of_isBelow hbelow) g hg hin hkept rfl
      exact ⟨k, hk, hkin, isBelow_trans habove hbelow⟩

/-- **Collapsing keeps what is included, and nothing twice.**  It drops some fields where they
stand: inclusions, each below one that is kept, and no inclusion that is kept is below another. -/
theorem collapse_covers_exactly (fs : Fields) :
    (collapse fs).Sublist fs ∧ (∀ f ∈ fs, f.2.isInclusion = false → f ∈ collapse fs) ∧
      (∀ f ∈ collapse fs, ∀ g ∈ collapse fs, f.2.isInclusion = true → g.2.isInclusion = true →
        ¬∃ rest, g.1 = f.1 ++ "." ++ rest) ∧
      ∀ f ∈ fs, f ∉ collapse fs → f.2.isInclusion = true ∧
        ∃ g ∈ collapse fs, g.2.isInclusion = true ∧ ∃ rest, f.1 = g.1 ++ "." ++ rest := by
  have hkept : ∀ f ∈ fs, f.2.isInclusion = false → f ∈ collapse fs := fun f hf hout =>
    mem_collapse.2 ⟨hf, fun hin => absurd hin (by rw [hout]; exact Bool.false_ne_true)⟩
  refine ⟨filter_sublist, hkept, fun f hf g hg hfin hgin hbelow => ?_, fun f hf hdropped => ?_⟩
  · have hclear := (mem_collapse.1 hg).2 hgin f (mem_collapse.1 hf).1 hfin
    rw [isBelow_iff.2 hbelow] at hclear
    cases hclear
  · have hin : f.2.isInclusion = true :=
      Bool.not_eq_false _ ▸ fun hout => hdropped (hkept f hf hout)
    obtain ⟨g, hg, hgin, hbelow⟩ := exists_cover f hf hin hdropped
    exact ⟨hin, g, hg, hgin, isBelow_iff.1 hbelow⟩

example : collapse [("c_doc.c_a.c_b", .int 1), ("c_document", .bool true), ("c_doc.c_a", .int 1),
      ("c_doc.c_x", .int 2), ("c_doc", .double (.ofInt 1))] =
    [("c_document", .bool true), ("c_doc.c_x", .int 2), ("c_doc", .double (.ofInt 1))] := by
  decide +kernel

end Conduit.Fields
