import Conduit.Proofs.ClauseIndex
import Conduit.Proofs.QueryKeys

/-!
# Readings of the index query

A reading says which conditions hold, each an operator with its argument on a key, and nothing
else is known of them.  The keys of an object hold together, `$and` and `$or` as usual.

Finishing prunes and expands from the leaves up.  What a finished object demands can still be read
off the entries it came from (`accepts_finished`).

An `$or` that stands beside a marker goes into every branch of it; that changes nothing, since it
is the same in all of them.
-/

namespace Conduit

open List

/-- A condition on a key: an operator with its argument, or a value alone. -/
structure Condition where
  key : String
  operator : Option String
  argument : Json
deriving DecidableEq

namespace Condition

/-- The conditions that a key and its value stand for. -/
def ofPair (kv : String × Json) : List Condition := match kv.2 with
  | .obj fs => fs.map fun f => ⟨kv.1, some f.1, f.2⟩
  | v => [⟨kv.1, none, v⟩]

variable {c : Condition}

lemma key_of_mem {kv : String × Json} (h : c ∈ ofPair kv) : c.key = kv.1 := by
  unfold ofPair at h
  split at h
  · obtain ⟨f, -, rfl⟩ := mem_map.1 h
    rfl
  · rw [mem_singleton.1 h]

lemma ofPair_plain (key : String) {v : Json} (h : ∀ fs, v ≠ .obj fs) :
    ofPair (key, v) = [⟨key, none, v⟩] := by
  cases v with
  | obj fs => exact absurd rfl (h fs)
  | _ => rfl

lemma mem_ofPair_extend {key : String} {fs new : Fields}
    (h : c ∈ ofPair (key, .obj (Fields.extend fs new))) :
    c ∈ ofPair (key, .obj new) ∨ c ∈ ofPair (key, .obj fs) := by
  obtain ⟨f, hf, rfl⟩ := mem_map.1 h
  exact (Fields.mem_of_mem_extend hf).imp mem_map_of_mem mem_map_of_mem

end Condition

/-- Which conditions hold. -/
structure Reading where
  holds : Condition → Prop

namespace Reading

open Fields

variable (r : Reading)

/-- Whether all conditions on a key hold. -/
def allows (kv : String × Json) : Prop := ∀ c ∈ Condition.ofPair kv, r.holds c

mutual

/-- Whether a query holds. -/
def accepts : Json → Prop
  | .obj fs => acceptsFields fs
  | _ => False

def acceptsFields : Fields → Prop
  | [] => True
  | (key, v) :: rest => acceptsKey key v ∧ acceptsFields rest

def acceptsKey (key : String) : Json → Prop
  | .arr items =>
    if key = "$and" then acceptsAll items
    else if key = "$or" then acceptsAny items
    else r.allows (key, .arr items)
  | v => r.allows (key, v)

def acceptsAll : List Json → Prop
  | [] => True
  | v :: rest => accepts v ∧ acceptsAll rest

def acceptsAny : List Json → Prop
  | [] => False
  | v :: rest => accepts v ∨ acceptsAny rest

end

variable {r} {items : List Json} {key : String} {fs : Fields}

lemma acceptsAll_iff : r.acceptsAll items ↔ ∀ v ∈ items, r.accepts v := by
  induction items with
  | nil => simp [acceptsAll]
  | cons v rest ih => simp [acceptsAll, ih]

lemma acceptsAny_iff : r.acceptsAny items ↔ ∃ v ∈ items, r.accepts v := by
  induction items with
  | nil => simp [acceptsAny]
  | cons v rest ih => simp [acceptsAny, ih]

lemma acceptsKey_and : r.acceptsKey "$and" (.arr items) ↔ ∀ v ∈ items, r.accepts v := by
  rw [acceptsKey, if_pos rfl, acceptsAll_iff]

lemma acceptsKey_or : r.acceptsKey "$or" (.arr items) ↔ ∃ v ∈ items, r.accepts v := by
  rw [acceptsKey, if_neg (by decide), if_pos rfl, acceptsAny_iff]

lemma acceptsKey_field (hand : key ≠ "$and") (hor : key ≠ "$or") (v : Json) :
    r.acceptsKey key v ↔ r.allows (key, v) := by
  cases v with
  | arr items => rw [acceptsKey, if_neg hand, if_neg hor]
  | _ => rw [acceptsKey]; simp

lemma acceptsFields_iff_forall : r.acceptsFields fs ↔ ∀ f ∈ fs, r.acceptsKey f.1 f.2 := by
  induction fs with
  | nil => simp [acceptsFields]
  | cons f rest ih => simp [acceptsFields, ih]

lemma accepts_iff (hfs : (keys fs).Nodup) :
    r.accepts (.obj fs) ↔ ∀ k v, get? fs k = some v → r.acceptsKey k v := by
  rw [accepts, acceptsFields_iff_forall]
  constructor
  · intro h k v hv
    exact h (k, v) (mem_of_get? hv)
  · intro h f hf
    exact h f.1 f.2 ((get?_eq_some_iff hfs).2 hf)

lemma accepts_insert (hfs : (keys fs).Nodup) {v : Json} :
    r.accepts (.obj (Fields.insert fs key v)) ↔
      r.acceptsKey key v ∧ ∀ k w, k ≠ key → get? fs k = some w → r.acceptsKey k w := by
  rw [accepts_iff (nodup_insert hfs key v), forall_get?_insert]

end Reading

namespace IndexEntries

open Fields Json Match

/-! ## Finished fields -/

/-- What finishing makes of a value inside the entries. -/
def finished (base : Fields) (v : Json) : Json := (expand base (prune v).1).1

/-- The fields with the markers inside their values expanded. -/
def expandValues (base fs : Fields) : Fields := fs.map fun f => (f.1, (expand base f.2).1)

lemma keys_expandValues (base fs : Fields) : keys (expandValues base fs) = keys fs := by
  rw [Fields.keys, expandValues, map_map]
  rfl

lemma get?_expandValues (base fs : Fields) (k : String) :
    get? (expandValues base fs) k = (get? fs k).map fun v => (expand base v).1 := by
  induction fs with
  | nil => rfl
  | cons f rest ih =>
    obtain ⟨l, w⟩ := f
    have hstep : expandValues base ((l, w) :: rest) =
      (l, (expand base w).1) :: expandValues base rest := rfl
    rw [hstep, get?_cons, get?_cons, ih]
    split <;> rfl

lemma expand_obj (base fs : Fields) :
    (expand base (.obj fs)).1 = .obj (expandObject base (expandValues base fs)).1 := by
  simp only [expand, expandFields_eq]
  rfl

lemma expand_arr (base : Fields) (items : List Json) :
    (expand base (.arr items)).1 = .arr (items.map fun v => (expand base v).1) := by
  simp only [expand, expandItems_eq]

/-- The fields of an object before its own marker is expanded. -/
def finishedFields (base fs : Fields) : Fields :=
  expandValues base (closeGaps (dropOr (pruneValues fs)))

lemma finished_obj (base fs : Fields) :
    finished base (.obj fs) = .obj (expandObject base (finishedFields base fs)).1 := by
  rw [finished, prune_obj, expand_obj, finishedFields]

lemma nodup_finishedFields {base fs : Fields} (hfs : (keys fs).Nodup) :
    (keys (finishedFields base fs)).Nodup := by
  rw [finishedFields, keys_expandValues]
  exact nodup_pruned hfs

variable {v : Json}

lemma finished_free {base : Fields} (h : mentions treeKeys v = false) : finished base v = v := by
  have hmarker : mentions [marker] v = false := mentions_mono (by simp [treeKeys]) v h
  rw [finished, prune_of_free h, expand_eq_self base v hmarker]

section

variable {base fs : Fields} (hfs : (keys fs).Nodup) {k : String} {items : List Json}

include hfs

lemma get?_finishedFields_other (hand : k ≠ "$and") (hor : k ≠ "$or") :
    get? (finishedFields base fs) k = (get? fs k).map (finished base) := by
  rw [finishedFields, get?_expandValues, get?_pruned hfs, if_neg hand, if_neg hor, Option.map_map]
  rfl

lemma get?_finishedFields_none (h : get? fs k = none) : get? (finishedFields base fs) k = none := by
  rw [finishedFields, get?_expandValues, get?_pruned hfs, h]
  split
  · rfl
  · split <;> rfl

lemma get?_finishedFields_and (h : get? fs "$and" = some (.arr items)) :
    get? (finishedFields base fs) "$and" = if (items.filter fun v => !v.isNull) = [] then none
      else some (.arr ((items.filter fun v => !v.isNull).map (finished base))) := by
  have hnull : (fun v => !v.isNull) ∘ (fun v => (prune v).1) = fun v => !v.isNull := by
    funext v
    rw [Function.comp, isNull_prune]
  rw [finishedFields, get?_expandValues, get?_pruned hfs, if_pos rfl, h, Option.map_some, prune_arr,
    prunedAnd, filter_map, hnull]
  by_cases hempty : (items.filter fun v => !v.isNull) = []
  · rw [if_pos hempty, hempty]
    rfl
  · rw [if_neg hempty]
    have hkept : ((items.filter fun v => !v.isNull).map fun v => (prune v).1).isEmpty = false := by
      simpa using hempty
    simp only [hkept, Bool.false_eq_true, if_false, Option.map_some, expand_arr, map_map]
    rfl

lemma get?_finishedFields_or (h : get? fs "$or" = some (.arr items)) :
    get? (finishedFields base fs) "$or" =
      if items.any isNull then none else some (.arr (items.map (finished base))) := by
  rw [finishedFields, get?_expandValues, get?_pruned hfs, if_neg (by decide), if_pos rfl, h,
    Option.map_some, prune_arr, prunedOr, any_isNull_prune]
  split
  · rfl
  · rw [Option.map_some, expand_arr, map_map]
    rfl

end

/-! ## Finished objects -/

/-- A key that is none of the tree. -/
def Free (key : String) : Prop := key ∉ treeKeys

lemma mentions_of_free (h : KeysAre Free v) : mentions treeKeys v = false :=
  mentions_of_keysAre (fun _ hkey hfree => hfree hkey) v h

lemma keysAre_free : ∀ v : Json, mentions treeKeys v = false → KeysAre Free v
  | .obj fs, h => keysAre_obj.2 fun f hf =>
    have hf' := mentions_obj.1 h f hf
    ⟨hf'.1, keysAre_free f.2 hf'.2⟩
  | .arr items, h => keysAre_arr.2 fun v hv => keysAre_free v (mentions_arr.1 h v hv)
  | .null, _ | .bool _, _ | .int _, _ | .double _, _ | .str _, _ => keysAre_scalar rfl rfl
termination_by v => sizeOf v
decreasing_by exacts [sizeOf_field_lt hf, sizeOf_item_lt hv]

variable {r : Reading} {base fs : Fields}

lemma accepts_base (hbase : SoundBase base) {key : String} :
    (∀ k w, k ≠ key → get? base k = some w → r.acceptsKey k w) ↔
      ∀ b ∈ base, b.1 ≠ key → r.allows b := by
  have hkey : ∀ b ∈ base, (r.acceptsKey b.1 b.2 ↔ r.allows b) := fun b hb =>
    Reading.acceptsKey_field (ne_of_named (hbase.named b hb) (by simp [treeKeys]))
      (ne_of_named (hbase.named b hb) (by simp [treeKeys])) b.2
  constructor
  · intro h b hb hne
    exact (hkey b hb).1 (h b.1 b.2 hne ((get?_eq_some_iff hbase.nodup).2 hb))
  · intro h k w hne hw
    exact (hkey (k, w) (mem_of_get? hw)).2 (h (k, w) (mem_of_get? hw) hne)

/-- The base conditions of the branches of a marker, with the `$or` that stands beside it. -/
def branchBase (base : Fields) : Option Json → Fields
  | some v => Fields.insert base "$or" v
  | none => base

/-- A branch of a marker demands its key, the base conditions that it leaves, and the `$or`. -/
lemma accepts_branch (hbase : SoundBase base) {m : String × Json}
    (hm : Path.isOperator m.1 = false) (beside : Option Json) :
    r.accepts (.obj (Fields.insert (branchBase base beside) m.1 m.2)) ↔
      (r.allows m ∧ ∀ b ∈ base, b.1 ≠ m.1 → r.allows b) ∧ ∀ w ∈ beside, r.acceptsKey "$or" w := by
  have hmor : m.1 ≠ "$or" := ne_of_named hm (by simp [treeKeys])
  have hmark : r.acceptsKey m.1 m.2 ↔ r.allows m :=
    Reading.acceptsKey_field (ne_of_named hm (by simp [treeKeys])) hmor m.2
  have hnone : get? base "$or" = none := hbase.get?_eq_none (by simp [treeKeys])
  rw [← accepts_base hbase, ← hmark, and_assoc]
  cases beside with
  | none =>
    rw [branchBase, Reading.accepts_insert hbase.nodup]
    simp
  | some w =>
    rw [branchBase, Reading.accepts_insert (nodup_insert hbase.nodup _ _)]
    refine and_congr_right fun _ => ⟨fun h => ⟨fun k v hk hv => h k v hk ?_, ?_⟩, ?_⟩
    · rw [get?_insert_of_ne ?_, hv]
      rintro rfl
      rw [hnone] at hv
      cases hv
    · rintro _ ⟨rfl⟩
      exact h "$or" w hmor.symm (get?_insert_self _ _ _)
    · rintro ⟨h, hor⟩ k v hk hv
      rw [get?_insert] at hv
      split at hv
      · next heq =>
        cases hv
        exact heq ▸ hor w rfl
      · exact h k v hk hv

/-- The object without its `$or`. -/
def withoutOr (fs : Fields) : Fields := match get? fs "$or" with
  | some _ => Fields.erase fs "$or"
  | none => fs

lemma nodup_withoutOr (hfs : (keys fs).Nodup) : (keys (withoutOr fs)).Nodup := by
  unfold withoutOr
  split
  · exact nodup_erase hfs _
  · exact hfs

lemma get?_withoutOr (hfs : (keys fs).Nodup) {k : String} (hk : k ≠ "$or") :
    get? (withoutOr fs) k = get? fs k := by
  unfold withoutOr
  split
  · rw [get?_erase hfs, if_neg (Ne.symm hk)]
  · rfl

lemma expandObject_marked {ms : Fields} (h : get? fs marker = some (.obj ms)) :
    (expandObject base fs).1 = Fields.insert (withoutOr (Fields.erase fs marker)) "$or"
      (.arr (ms.map fun m => .obj (addCompound
        (Fields.insert (branchBase base (get? (Fields.erase fs marker) "$or")) m.1 m.2) m.1))) := by
  unfold expandObject withoutOr
  rw [h]
  dsimp only
  cases get? (Fields.erase fs marker) "$or" <;> rfl

/-- What an object demands once its marker is expanded: its other keys, and one of those under the
marker with the base conditions. -/
lemma accepts_expandObject (hbase : SoundBase base) (hfs : (keys fs).Nodup)
    (hmarks : ∀ v, get? fs marker = some v → ∃ ms, v = .obj ms ∧
      ∀ m ∈ ms, Path.isOperator m.1 = false ∧ compoundSlot? m.1 = none) :
    r.accepts (.obj (expandObject base fs).1) ↔
      (∀ k v, k ≠ marker → get? fs k = some v → r.acceptsKey k v) ∧
      (∀ ms, get? fs marker = some (.obj ms) →
        ∃ m ∈ ms, r.allows m ∧ ∀ b ∈ base, b.1 ≠ m.1 → r.allows b) := by
  cases hget : get? fs marker with
  | none =>
    have hexpand : (expandObject base fs).1 = fs := by simp [expandObject, hget]
    rw [hexpand, Reading.accepts_iff hfs]
    refine ⟨fun h => ⟨fun k v _ hv => h k v hv, nofun⟩, fun h k v hv => ?_⟩
    refine h.1 k v ?_ hv
    rintro rfl
    rw [hget] at hv
    cases hv
  | some v =>
    obtain ⟨ms, rfl, hms⟩ := hmarks v hget
    have hnodup := nodup_erase hfs marker
    have herased : ∀ k, k ≠ marker → get? (Fields.erase fs marker) k = get? fs k := fun k hk => by
      rw [get?_erase hfs, if_neg (Ne.symm hk)]
    -- the branches of the marker, one for each of its keys
    have hbranches : r.acceptsKey "$or" (.arr (ms.map fun m => .obj (addCompound
        (Fields.insert (branchBase base (get? (Fields.erase fs marker) "$or")) m.1 m.2) m.1))) ↔
        (∃ m ∈ ms, r.allows m ∧ ∀ b ∈ base, b.1 ≠ m.1 → r.allows b) ∧
          ∀ w, get? fs "$or" = some w → r.acceptsKey "$or" w := by
      have hbranch : ∀ m ∈ ms, (r.accepts (.obj (addCompound
          (Fields.insert (branchBase base (get? fs "$or")) m.1 m.2) m.1)) ↔
          (r.allows m ∧ ∀ b ∈ base, b.1 ≠ m.1 → r.allows b) ∧
            ∀ w ∈ get? fs "$or", r.acceptsKey "$or" w) := fun m hm => by
        rw [addCompound, (hms m hm).2]
        exact accepts_branch hbase (hms m hm).1 _
      rw [herased "$or" (by decide), Reading.acceptsKey_or]
      constructor
      · rintro ⟨x, hx, h⟩
        obtain ⟨m, hm, rfl⟩ := mem_map.1 hx
        obtain ⟨hall, hor⟩ := (hbranch m hm).1 h
        exact ⟨⟨m, hm, hall⟩, hor⟩
      · rintro ⟨⟨m, hm, hall⟩, hor⟩
        exact ⟨_, mem_map_of_mem hm, (hbranch m hm).2 ⟨hall, hor⟩⟩
    rw [expandObject_marked hget, Reading.accepts_insert (nodup_withoutOr hnodup), hbranches]
    constructor
    · rintro ⟨⟨hmark, hor⟩, h⟩
      refine ⟨fun k w hk hw => ?_, fun ms' heq => ?_⟩
      · by_cases hkor : k = "$or"
        · subst hkor
          exact hor w hw
        · refine h k w hkor ?_
          rw [get?_withoutOr hnodup hkor, herased k hk, hw]
      · cases heq
        exact hmark
    · rintro ⟨h, hmark⟩
      refine ⟨⟨hmark ms rfl, fun w hw => h "$or" w (by decide) hw⟩, fun k w hk hw => ?_⟩
      rw [get?_withoutOr hnodup hk] at hw
      by_cases hkm : k = marker
      · rw [hkm, get?_erase hfs, if_pos rfl] at hw
        cases hw
      · rw [herased k hkm] at hw
        exact h k w hkm hw

/-- **What a finished object demands**: the conditions on its fields, the branches of `$and` that
are there, a branch of an `$or` without gaps, and one of the keys under its marker. -/
lemma accepts_finished (hbase : SoundBase base) (htree : Tree true true Free (.obj fs))
    (hslots : ∀ ms, get? fs marker = some (.obj ms) → ∀ m ∈ ms, compoundSlot? m.1 = none) :
    r.accepts (finished base (.obj fs)) ↔
      (∀ k v, Path.isOperator k = false → get? fs k = some v → r.allows (k, v)) ∧
      (∀ items, get? fs "$and" = some (.arr items) → ∀ v ∈ items, v.isNull = false →
        r.accepts (finished base v)) ∧
      (∀ items, get? fs "$or" = some (.arr items) → items.any isNull = false →
        ∃ v ∈ items, r.accepts (finished base v)) ∧
      (∀ ms, get? fs marker = some (.obj ms) →
        ∃ m ∈ ms, r.allows m ∧ ∀ b ∈ base, b.1 ≠ m.1 → r.allows b) := by
  obtain ⟨hnodup, hmembers⟩ := tree_obj.1 htree
  replace hnodup := hnodup rfl
  have hmember : ∀ {k v}, get? fs k = some v → Member true true Free k v :=
    fun hv => hmembers _ (mem_of_get? hv)
  -- fields and markers hold no key of the tree, so that they are finished as they are
  have hfield : ∀ {k v}, Path.isOperator k = false → get? fs k = some v → finished base v = v :=
    fun hk hv => finished_free (mentions_of_free ((hmember hv).onField hk).2)
  have hmarker : ∀ {v}, get? fs marker = some v → finished base v = v ∧ ∃ ms, v = .obj ms ∧
      ∀ m ∈ ms, Path.isOperator m.1 = false ∧ compoundSlot? m.1 = none := by
    intro v hv
    obtain ⟨ms, rfl, -, hms⟩ := (hmember hv).marked
    refine ⟨finished_free (mentions_obj.2 fun m hm => ⟨?_, mentions_of_free (hms m hm).2⟩), ms, rfl,
      fun m hm => ⟨(hms m hm).1, hslots ms hv m hm⟩⟩
    exact fun hmem => ne_of_named (hms m hm).1 hmem rfl
  have hmarked : get? (finishedFields base fs) marker = get? fs marker := by
    rw [get?_finishedFields_other hnodup (by decide) (by decide)]
    cases hget : get? fs marker with
    | none => rfl
    | some v => rw [Option.map_some, (hmarker hget).1]
  have hlist : ∀ {k v}, k = "$and" ∨ k = "$or" → get? fs k = some v → ∃ items, v = .arr items :=
    fun hk hv =>
      have ⟨items, h, _⟩ := ((hmember hv).list hk).exists_arr
      ⟨items, h⟩
  rw [finished_obj, accepts_expandObject hbase (nodup_finishedFields hnodup)
    (fun v hv => (hmarker (hmarked ▸ hv)).2), hmarked, ← and_assoc, ← and_assoc]
  refine and_congr_left fun _ => ⟨fun h => ⟨⟨fun k v hk hv => ?_,
    fun items hitems v hv hnull => ?_⟩, fun items hitems hnull => ?_⟩, ?_⟩
  · have hkey := h k v (ne_marker_of_field hk) (by
      rw [get?_finishedFields_other hnodup (ne_of_named hk (by simp [treeKeys]))
        (ne_of_named hk (by simp [treeKeys])), hv, Option.map_some, hfield hk hv])
    rwa [Reading.acceptsKey_field (ne_of_named hk (by simp [treeKeys]))
      (ne_of_named hk (by simp [treeKeys]))] at hkey
  · have hkept : v ∈ items.filter fun v => !v.isNull := mem_filter.2 ⟨hv, by rw [hnull]; rfl⟩
    have hkey := h "$and" _ (by decide) (by
      rw [get?_finishedFields_and hnodup hitems, if_neg (ne_nil_of_mem hkept)])
    exact Reading.acceptsKey_and.1 hkey _ (mem_map_of_mem hkept)
  · have hkey := h "$or" _ (by decide) (by
      rw [get?_finishedFields_or hnodup hitems, hnull]
      rfl)
    obtain ⟨w, hw, haccepts⟩ := Reading.acceptsKey_or.1 hkey
    obtain ⟨v, hv, rfl⟩ := mem_map.1 hw
    exact ⟨v, hv, haccepts⟩
  · rintro ⟨⟨hfields, hand⟩, hor⟩ k w hk hw
    cases hget : get? fs k with
    | none =>
      rw [get?_finishedFields_none hnodup hget] at hw
      cases hw
    | some v =>
      by_cases hlogic : k = "$and" ∨ k = "$or"
      · obtain ⟨items, rfl⟩ := hlist hlogic hget
        rcases hlogic with rfl | rfl
        · rw [get?_finishedFields_and hnodup hget] at hw
          split at hw
          · cases hw
          · cases hw
            refine Reading.acceptsKey_and.2 fun x hx => ?_
            obtain ⟨v, hv, rfl⟩ := mem_map.1 hx
            obtain ⟨hv, hnull⟩ := mem_filter.1 hv
            exact hand items hget v hv (by simpa using hnull)
        · rw [get?_finishedFields_or hnodup hget] at hw
          split at hw
          · cases hw
          · next hnull =>
            cases hw
            obtain ⟨v, hv, haccepts⟩ := hor items hget (by simpa using hnull)
            exact Reading.acceptsKey_or.2 ⟨_, mem_map_of_mem hv, haccepts⟩
      · rw [not_or] at hlogic
        have hop : Path.isOperator k = false := by
          rcases hmember hget with ⟨hop, -⟩ | ⟨h, -⟩ | ⟨-, h, -⟩
          · exact hop
          · exact absurd h (not_or.2 hlogic)
          · exact absurd h hk
        rw [get?_finishedFields_other hnodup hlogic.1 hlogic.2, hget, Option.map_some,
          hfield hop hget] at hw
        cases hw
        exact (Reading.acceptsKey_field hlogic.1 hlogic.2 _).2 (hfields k _ hop hget)

end IndexEntries

end Conduit
