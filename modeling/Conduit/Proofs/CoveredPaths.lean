import Conduit.Proofs.IndexSearch

/-!
# What indexes cover

A query can step along an index as long as it uses the next field as a key, and each key once.  So
a path is covered exactly if it ends such a stretch of an index (`covered_iff_stretch`).

The tree of the indexes and the search in it are gone from the right hand side, and with them the
order of indexes, keys and checks.
-/

namespace Conduit.IndexTree

open List

/-- Fields that a query can step through: all of them are keys, and none comes twice. -/
structure Stretch (keys fields : List String) : Prop where
  nodup : fields.Nodup
  keys : ∀ f ∈ fields, f ∈ keys

/-- Where no key comes twice, a way along keys is a stretch that ends with the path. -/
lemma subperm_iff_stretch {keys : List String} (hkeys : keys.Nodup) (path : String)
    (fields : List String) : (∃ before, before ++ [path] <+: fields ∧ before ++ [path] <+~ keys) ↔
      ∃ j, fields[j]? = some path ∧ Stretch keys (fields.take (j + 1)) := by
  constructor
  · rintro ⟨before, ⟨after, rfl⟩, used, hperm, hsub⟩
    refine ⟨before.length, by simp, ?_⟩
    rw [take_append_of_le_length (by simp), take_of_length_le (by simp)]
    exact ⟨hperm.nodup_iff.1 (hkeys.sublist hsub), fun f hf => hsub.subset (hperm.mem_iff.2 hf)⟩
  · rintro ⟨j, hj, hstretch⟩
    have htake : fields.take (j + 1) = fields.take j ++ [path] := by
      rw [take_add_one, hj, Option.toList_some]
    rw [htake] at hstretch
    exact ⟨fields.take j, htake ▸ take_prefix _ _, hstretch.nodup.subperm hstretch.keys⟩

/-- **A path is covered exactly if it is asked for and some index leads to it through distinct
fields that are all keys.**  So the same paths are covered whatever the order of indexes, keys and
checks. -/
theorem covered_iff_stretch (ds : List IndexDefinition) {keys : List String} (hkeys : keys.Nodup)
    (checks : List String) : (∀ path, path ∈ (ofIndexes ds).covered keys checks ↔ path ∈ checks ∧
      ∃ d ∈ ds, ∃ j, d.fields[j]? = some path ∧ Stretch keys (d.fields.take (j + 1))) ∧
    ∀ {ds' keys' checks'}, ds ~ ds' → keys ~ keys' → checks ~ checks' → ∀ path,
      path ∈ (ofIndexes ds).covered keys checks ↔ path ∈ (ofIndexes ds').covered keys' checks' := by
  constructor
  · intro path
    rw [mem_covered]
    simp only [subperm_iff_stretch hkeys]
  · intro ds' keys' checks' hds hperm hchecks path
    have hstretch : ∀ fields, Stretch keys fields ↔ Stretch keys' fields := fun fields =>
      ⟨fun h => ⟨h.nodup, fun f hf => hperm.mem_iff.1 (h.keys f hf)⟩,
        fun h => ⟨h.nodup, fun f hf => hperm.mem_iff.2 (h.keys f hf)⟩⟩
    rw [mem_covered, mem_covered, hchecks.mem_iff]
    simp only [subperm_iff_stretch hkeys, subperm_iff_stretch (hperm.nodup_iff.1 hkeys), hds.mem_iff,
      hstretch]

/-- Two indexes with common first fields. -/
def petIndexes : List IndexDefinition :=
  [{ name := "object_created", fields := ["org", "object", "created"] },
   { name := "object_type_name", fields := ["org", "object", "type", "c_name"] }]

/-- A name is covered by the keys in front of it, in any order; without one of them it is not. -/
theorem name_covered_through_type :
    ["c_name", "type", "object", "org"].Nodup ∧ ["org", "object", "c_name"].Nodup ∧
      "c_name" ∈ (ofIndexes petIndexes).covered ["c_name", "type", "object", "org"]
        ["c_name", "c_tag", "c_name"] ∧
      "c_name" ∉ (ofIndexes petIndexes).covered ["org", "object", "c_name"] ["c_name"] := by
  have hall : ["c_name", "type", "object", "org"].Nodup := by decide
  have hsome : ["org", "object", "c_name"].Nodup := by decide
  refine ⟨hall, hsome, ?_, fun hmem => ?_⟩
  · refine ((covered_iff_stretch petIndexes hall _).1 "c_name").2 ⟨by decide, ?_⟩
    exact ⟨_, mem_cons_of_mem _ mem_cons_self, 3, rfl, by decide, by decide⟩
  · obtain ⟨-, d, hd, j, hj, hstretch⟩ := ((covered_iff_stretch petIndexes hsome _).1 "c_name").1 hmem
    simp only [petIndexes, mem_cons, not_mem_nil, or_false] at hd
    rcases hd with rfl | rfl
    · have hname := mem_of_getElem? hj
      simp at hname
    · have hj : j = 3 := by
        rcases j with _ | _ | _ | _ | j <;> simp_all
      subst hj
      have hkey := hstretch.keys "type" (by decide)
      simp at hkey

end Conduit.IndexTree
