import Conduit.Path
import Mathlib.Data.List.Infix

/-!
# Paths and their segments

The segments of two paths with a dot between them are those of both.  A path lies below another where
it continues it with a dot.
-/

namespace Conduit.Path

open List

variable {parent path : String}

lemma splitAt_ne_nil (sep : Char) (cs : List Char) : splitAt sep cs ≠ [] := by
  cases cs with
  | nil => simp [splitAt]
  | cons c rest =>
    rw [splitAt]
    split
    · simp
    · split <;> simp

lemma splitAt_append (sep : Char) (xs ys : List Char) :
    splitAt sep (xs ++ sep :: ys) = splitAt sep xs ++ splitAt sep ys := by
  induction xs with
  | nil => simp [splitAt]
  | cons c rest ih =>
    rw [List.cons_append, splitAt, splitAt, ih]
    split
    · rfl
    · obtain ⟨piece, pieces, hpieces⟩ := exists_cons_of_ne_nil (splitAt_ne_nil sep rest)
      rw [hpieces]
      rfl

lemma segments_append (a b : String) : segments (a ++ "." ++ b) = segments a ++ segments b := by
  have hlist : (a ++ "." ++ b).toList = a.toList ++ '.' :: b.toList := by simp
  rw [segments, hlist, splitAt_append, List.map_append]
  rfl

/-! ## Paths below paths -/

lemma isBelow_iff : isBelow parent path = true ↔ ∃ rest, path = parent ++ "." ++ rest := by
  rw [isBelow, isPrefixOf_iff_prefix]
  constructor
  · rintro ⟨rest, hrest⟩
    refine ⟨String.ofList rest, String.toList_inj.1 ?_⟩
    simp [← hrest]
  · rintro ⟨rest, rfl⟩
    exact ⟨rest.toList, by simp⟩

lemma length_lt_of_isBelow (h : isBelow parent path = true) :
    parent.toList.length < path.toList.length := by
  have := ( isPrefixOf_iff_prefix.1 h).length_le
  rw [length_append] at this
  exact this

lemma isBelow_trans {a b c : String} (hab : isBelow a b = true) (hbc : isBelow b c = true) :
    isBelow a c = true := by
  obtain ⟨x, rfl⟩ := isBelow_iff.1 hab
  obtain ⟨y, rfl⟩ := isBelow_iff.1 hbc
  exact isBelow_iff.2 ⟨x ++ "." ++ y, by simp [String.append_assoc]⟩

end Conduit.Path
