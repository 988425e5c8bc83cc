import Conduit.Proofs.IndexReading

/-!
# Leaves with several keys

What a run of insertions leaves in an object, where leaves may have one key or several.

* Its fields hold conditions of the base and of leaves with one key, and no others
  (`enterAll_given`); each condition of such a leaf is matched by one with the same operator, unless
  its key is a base condition (`enterAll_matched`).
* Its marker holds the keys of the leaves that have several (`enterAll_marker`).

Insertions are `WellPlaced` if their ways fit together: they agree on the width of each `$or`, and
the keys of a leaf that has several are entered once in their branch.
-/

namespace Conduit

open IndexStep Condition List

/-- Whether each position of an `$or` is one of its branches. -/
def IndexStep.inRange : List IndexStep → Bool
  | .or width :: .position p :: rest => p < width && inRange rest
  | _ :: rest => inRange rest
  | [] => true

/-- Whether two ways agree on the width of each `$or` that both go through. -/
def IndexStep.agree : List IndexStep → List IndexStep → Bool
  | .or width :: rest, .or width' :: rest' => width == width' && agree rest rest'
  | s :: rest, t :: rest' => s != t || agree rest rest'
  | _, _ => true

namespace IndexEntries

open Fields Json Match

/-- The steps to a branch, and the keys of a leaf there. -/
abbrev Insertion := Placed Fields

/-- Enters leaves one after the other, as long as each of them fits. -/
def insertAll (e : IndexEntries) (is : List Insertion) : Option IndexEntries :=
  is.foldlM (fun e i => match e.insert i.1 i.2 with
    | (e, none) => some e
    | (_, some _) => none) e

variable {is : List Insertion} {s : IndexStep} {i : Insertion} {rest : List IndexStep}
  {key : String} {c : Condition} {v : Json} {p : Nat} {js : List Insertion} {k : String}
  {current : Option Json} {w : Json} {kv : String × Json}

lemma enterAll_of_insertAll {e e' : IndexEntries} (h : e.insertAll is = some e') :
    e'.baseFind = e.baseFind ∧ enterAll e.baseFind e.root is = some e'.root := by
  induction is generalizing e with
  | nil =>
    cases h
    exact ⟨rfl, rfl⟩
  | cons i rest ih =>
    rw [insertAll, foldlM_cons] at h
    obtain ⟨mid, hmid, hrest⟩ := Option.bind_eq_some_iff.1 h
    split at hmid
    · next heq =>
      cases hmid
      obtain ⟨hbase, hone⟩ := insert_ok (a := i.2) heq
      obtain ⟨hbase', hall⟩ := ih hrest
      refine ⟨hbase'.trans hbase, ?_⟩
      rw [enterAll, foldlM_cons, hone]
      rw [hbase] at hall
      exact hall
    · cases hmid

/-- Insertions of leaves with plain keys, on ways that fit together.  The keys of a leaf that has
several are entered once in their branch. -/
structure WellPlaced (is : List Insertion) : Prop where
  named : ∀ i ∈ is, ∀ kv ∈ i.2, Path.isOperator kv.1 = false
  slotless : ∀ i ∈ is, ∀ kv ∈ i.2, compoundSlot? kv.1 = none
  free : ∀ i ∈ is, ∀ kv ∈ i.2, mentions treeKeys kv.2 = false
  inRange : ∀ i ∈ is, inRange i.1 = true
  agree : ∀ i ∈ is, ∀ j ∈ is, agree i.1 j.1 = true
  distinct : ∀ i ∈ is, 1 < i.2.length → (keys i.2).Nodup
  apart : is.Pairwise fun i j => i.1 = j.1 → 1 < i.2.length ∨ 1 < j.2.length →
    ∀ k ∈ Fields.keys i.2, k ∉ Fields.keys j.2

instance (is : List Insertion) : Decidable (WellPlaced is) :=
  decidable_of_iff (_ ∧ _ ∧ _ ∧ _ ∧ _ ∧ _ ∧ _)
    ⟨fun h => ⟨h.1, h.2.1, h.2.2.1, h.2.2.2.1, h.2.2.2.2.1, h.2.2.2.2.2.1, h.2.2.2.2.2.2⟩,
      fun h => ⟨h.named, h.slotless, h.free, h.inRange, h.agree, h.distinct, h.apart⟩⟩

/-! ## Branches -/

lemma inRange_tail (h : inRange (s :: .position p :: rest) = true) : inRange rest = true := by
  cases s with
  | or width =>
    rw [inRange, Bool.and_eq_true] at h
    exact h.2
  | _ => simpa [inRange] using h

lemma agree_tail {t : IndexStep} {rest' : List IndexStep} (hs : s.key? = some key)
    (ht : t.key? = some key)
    (h : agree (s :: .position p :: rest) (t :: .position p :: rest') = true) :
    s = t ∧ agree rest rest' = true := by
  have htail : ∀ {xs ys}, agree (.position p :: xs) (.position p :: ys) = true →
      agree xs ys = true := by
    intro xs ys h
    simpa [agree] using h
  cases s with
  | and =>
    cases t with
    | and => exact ⟨rfl, htail (by simpa [agree] using h)⟩
    | or width' => exact absurd (hs.trans ht.symm) (by simp [key?])
    | position q => cases ht
  | or width =>
    cases t with
    | and => exact absurd (hs.trans ht.symm) (by simp [key?])
    | or width' =>
      rw [agree, Bool.and_eq_true, beq_iff_eq] at h
      exact ⟨by rw [h.1], htail h.2⟩
    | position q => cases ht
  | position q => cases hs

/-- What holds of insertions on the same way holds of those in a branch. -/
lemma pairwise_inBranch (hagree : ∀ i ∈ is, ∀ j ∈ is, agree i.1 j.1 = true)
    {P : Fields → Fields → Prop} (h : is.Pairwise fun i j => i.1 = j.1 → P i.2 j.2) (key : String)
    (p : Nat) : (inBranch key p is).Pairwise fun i j => i.1 = j.1 → P i.2 j.2 := by
  refine pairwise_filterMap.2 (h.imp_of_mem fun {i j} hi hj hij b hb b' hb' heq => ?_)
  obtain ⟨s, hs, hmem⟩ :=
    exists_of_mem_inBranch (mem_filterMap.2 ⟨i, mem_singleton_self i, hb⟩)
  obtain ⟨t, ht, hmem'⟩ :=
    exists_of_mem_inBranch (mem_filterMap.2 ⟨j, mem_singleton_self j, hb'⟩)
  obtain rfl := mem_singleton.1 hmem
  obtain rfl := mem_singleton.1 hmem'
  obtain ⟨rfl, -⟩ := agree_tail hs ht (hagree _ hi _ hj)
  exact hij (by rw [heq])

lemma WellPlaced.inBranch (h : WellPlaced is) (key : String) (p : Nat) :
    WellPlaced (inBranch key p is) where
  named i hi := by
    obtain ⟨s, -, hmem⟩ := exists_of_mem_inBranch hi
    exact h.named (s :: .position p :: i.1, i.2) hmem
  slotless i hi := by
    obtain ⟨s, -, hmem⟩ := exists_of_mem_inBranch hi
    exact h.slotless (s :: .position p :: i.1, i.2) hmem
  free i hi := by
    obtain ⟨s, -, hmem⟩ := exists_of_mem_inBranch hi
    exact h.free (s :: .position p :: i.1, i.2) hmem
  inRange i hi := by
    obtain ⟨s, -, hmem⟩ := exists_of_mem_inBranch hi
    exact inRange_tail (h.inRange _ hmem)
  agree i hi j hj := by
    obtain ⟨s, hs, hmem⟩ := exists_of_mem_inBranch hi
    obtain ⟨t, ht, hmem'⟩ := exists_of_mem_inBranch hj
    exact (agree_tail hs ht (h.agree _ hmem _ hmem')).2
  distinct i hi := by
    obtain ⟨s, -, hmem⟩ := exists_of_mem_inBranch hi
    exact h.distinct (s :: .position p :: i.1, i.2) hmem
  apart := pairwise_inBranch (P := fun xs ys => 1 < xs.length ∨ 1 < ys.length →
    ∀ k ∈ keys xs, k ∉ keys ys) h.agree h.apart key p

lemma WellPlaced.sublist (h : WellPlaced js) (hsub : is.Sublist js) : WellPlaced is where
  named i hi := h.named i (hsub.mem hi)
  slotless i hi := h.slotless i (hsub.mem hi)
  free i hi := h.free i (hsub.mem hi)
  inRange i hi := h.inRange i (hsub.mem hi)
  agree i hi j hj := h.agree i (hsub.mem hi) j (hsub.mem hj)
  distinct i hi := h.distinct i (hsub.mem hi)
  apart := h.apart.sublist hsub

/-- The insertions that go through `$or` agree on its width and stay within it. -/
lemma WellPlaced.hasWidth (h : WellPlaced is) (hi : i ∈ is) {width : Nat}
    (hsteps : i.1 = .or width :: rest) : HasWidth width is := by
  intro j hj w tail htail
  have hagree := h.agree j hj i hi
  rw [htail, hsteps, IndexStep.agree, Bool.and_eq_true, beq_iff_eq] at hagree
  refine ⟨hagree.1, fun p rest' heq => ?_⟩
  have hrange := h.inRange j hj
  rw [htail, heq, IndexStep.inRange, Bool.and_eq_true, decide_eq_true_eq] at hrange
  rw [← hagree.1]
  exact hrange.1

/-! ## Leaves of an object -/

variable {base fs gs start : Fields}

/-- **What an insertion does to an object**: it adds base conditions, with a key or without one,
keys under the marker, or a branch. -/
lemma enterOne_cases (h : enterOne base fs i = some gs) : i = ([], []) ∧ gs = seed base fs ∨
    (∃ kv, i = ([], [kv]) ∧ addPair base true (seed base fs) kv.1 kv.2 = (gs, none)) ∨
    (∃ pairs markers new, i = ([], pairs) ∧ 1 < pairs.length ∧
      (get? fs marker).getD (.obj []) = .obj markers ∧
      addPairs base false pairs markers = (new, none) ∧ gs = Fields.insert fs marker (.obj new)) ∨
    ∃ s rest key v, i.1 = s :: rest ∧ s.key? = some key ∧ gs = Fields.insert fs key v := by
  obtain ⟨steps, pairs⟩ := i
  cases steps with
  | nil =>
    have hleaf : addLeaf base pairs (if pairs.length ≤ 1 then seed base fs else fs) = (gs, none) :=
      enterOne_here h
    rcases addLeaf_cases hleaf with ⟨hlength, hadd⟩ | ⟨hlength, markers, new, hmarkers, hadd, rfl⟩
    · rw [if_pos hlength] at hadd
      match pairs, hlength, hadd with
      | [], _, hadd =>
        cases hadd
        exact .inl ⟨rfl, rfl⟩
      | [kv], _, hadd =>
        obtain ⟨mid, hone, hrest⟩ := addPairs_cons hadd
        cases hrest
        exact .inr (.inl ⟨kv, rfl, hone⟩)
    · rw [if_neg (by omega)] at hmarkers ⊢
      exact .inr (.inr (.inl ⟨pairs, markers, new, rfl, hlength, hmarkers, hadd, rfl⟩))
  | cons s rest =>
    obtain ⟨key, v, hs, -, rfl⟩ := enterOne_branch h
    exact .inr (.inr (.inr ⟨s, rest, key, v, rfl, hs, rfl⟩))

lemma ne_of_key? (hs : s.key? = some key) (hk : Path.isOperator k = false) : key ≠ k :=
  key?_ne hs (ne_of_named hk (by simp [treeKeys])) (ne_of_named hk (by simp [treeKeys]))

/-! ## Conditions of an object -/

/-- A condition that a base condition or a leaf with one key gives. -/
def Given (base : Fields) (is : List Insertion) (c : Condition) : Prop :=
  (∃ b ∈ base, c ∈ ofPair b) ∨ ∃ kv, ([], [kv]) ∈ is ∧ c ∈ ofPair kv

/-- Merging gives no condition but those of the two values. -/
lemma mem_ofPair_merged (h : merged base key current v = some w) (hc : c ∈ ofPair (key, w)) :
    c ∈ ofPair (key, v) ∨ ∃ u, current = some u ∧ c ∈ ofPair (key, u) := by
  unfold merged at h
  split at h
  · cases h
    exact .inl hc
  · split at h
    · cases h
      exact .inl hc
    · cases h
      exact (mem_ofPair_extend hc).imp id fun h => ⟨_, rfl, h⟩
    · cases h
    · cases h
    · split at h
      · cases h
        exact .inr ⟨_, rfl, hc⟩
      · cases h

/-- A condition with the same operator. -/
def Matched (c : Condition) (kv : String × Json) : Prop :=
  ∃ c' ∈ ofPair kv, c'.operator = c.operator

lemma matched_extend {current new : Fields}
    (h : c ∈ ofPair (key, .obj current) ∨ c ∈ ofPair (key, .obj new)) :
    Matched c (key, .obj (extend current new)) := by
  have hkeys : ∃ op, c.operator = some op ∧ op ∈ keys (extend current new) := by
    rcases h with h | h
    · obtain ⟨f, hf, rfl⟩ := mem_map.1 h
      exact ⟨f.1, rfl, mem_keys_extend.2 (.inl (mem_keys.2 ⟨f.2, hf⟩))⟩
    · obtain ⟨f, hf, rfl⟩ := mem_map.1 h
      exact ⟨f.1, rfl, mem_keys_extend.2 (.inr (mem_keys.2 ⟨f.2, hf⟩))⟩
  obtain ⟨op, hop, hmem⟩ := hkeys
  obtain ⟨a, ha⟩ := mem_keys.1 hmem
  exact ⟨_, mem_map_of_mem ha, hop.symm⟩

lemma matched_merged (hkey : contains base key = false) (h : merged base key current v = some w)
    (hc : c ∈ ofPair (key, v) ∨ ∃ u, current = some u ∧ c ∈ ofPair (key, u)) :
    Matched c (key, w) := by
  simp only [merged, hkey, Bool.false_eq_true, if_false] at h
  split at h
  · cases h
    rcases hc with hc | ⟨u, hu, -⟩
    · exact ⟨c, hc, rfl⟩
    · cases hu
  · cases h
    apply matched_extend
    rcases hc with hc | ⟨u, hu, hc⟩
    · exact .inr hc
    · cases hu
      exact .inl hc
  · cases h
  · cases h
  · next hcur _ hv =>
    -- two plain values are the same, so that the first one stays
    split at h
    · cases h
      rcases hc with hc | ⟨u, hu, hc⟩
      · rw [ofPair_plain key fun fs heq => hv fs heq, mem_singleton] at hc
        refine ⟨⟨key, none, w⟩, ?_, by rw [hc]⟩
        rw [ofPair_plain key fun fs heq => hcur fs heq]
        exact mem_singleton_self _
      · cases hu
        exact ⟨c, hc, rfl⟩
    · cases h

/-- **Every condition of an object is given**, by a base condition or a leaf. -/
lemma enterAll_given (hslot : ∀ i ∈ is, ∀ kv ∈ i.2, compoundSlot? kv.1 = none)
    (hstart : ∀ k v, get? start k = some v → (k, v) ∈ base) (h : enterAll base start is = some gs)
    (hk : Path.isOperator k = false) (hv : get? gs k = some v) (hc : c ∈ ofPair (k, v)) :
    Given base is c := by
  refine enterAll_induction
    (P := fun fs => ∀ {v}, get? fs k = some v → c ∈ ofPair (k, v) → Given base is c)
    (fun i hi mid next hinit hone v hv hc => ?_) (fun hv hc => .inl ⟨_, hstart k _ hv, hc⟩) h hv hc
  have hseed : ∀ {w}, get? (seed base mid) k = some w → c ∈ ofPair (k, w) → Given base is c := by
    intro w hw hc
    rw [get?_seed, Option.or_eq_some_iff] at hw
    rcases hw with hw | ⟨-, hw⟩
    · exact hinit hw hc
    · exact .inl ⟨_, mem_of_get? hw, hc⟩
  rcases enterOne_cases hone with ⟨-, rfl⟩ | ⟨kv, rfl, hadd⟩ | ⟨_, _, _, -, -, -, -, rfl⟩ |
    ⟨s, rest, key, w, -, hs, rfl⟩
  · exact hseed hv hc
  · obtain ⟨w, hmerged, hget⟩ := addPair_ok (hslot ([], [kv]) hi kv (by simp)) hadd
    rw [hget] at hv
    split at hv
    · next heq =>
      cases hv
      subst heq
      rcases mem_ofPair_merged hmerged hc with hc | ⟨u, hu, hc⟩
      · exact .inr ⟨kv, hi, hc⟩
      · exact hseed hu hc
    · exact hseed hv hc
  · rw [get?_insert_of_ne (ne_marker_of_field hk).symm] at hv
    exact hinit hv hc
  · rw [get?_insert_of_ne (ne_of_key? hs hk)] at hv
    exact hinit hv hc

/-- **Every condition of a leaf is matched** in the object, unless its key is a base condition. -/
lemma enterAll_matched (hslot : ∀ i ∈ is, ∀ kv ∈ i.2, compoundSlot? kv.1 = none)
    (h : enterAll base start is = some gs) (hkv : ([], [kv]) ∈ is)
    (hkey : Path.isOperator kv.1 = false) (hbase : contains base kv.1 = false) :
    ∃ v, get? gs kv.1 = some v ∧ ∀ c ∈ ofPair kv, Matched c (kv.1, v) := by
  induction is using reverseRecOn generalizing gs with
  | nil => cases hkv
  | append_singleton is i ih =>
    obtain ⟨mid, hmid, hone⟩ := enterAll_append_singleton.1 h
    have hslots := fun x hx => hslot x (mem_append_left [i] hx)
    -- what holds of the object before the insertion holds of it with base conditions added
    have hbefore : ([], [kv]) ∈ is → ∃ v, get? mid kv.1 = some v ∧
        get? (seed base mid) kv.1 = some v ∧ ∀ c ∈ ofPair kv, Matched c (kv.1, v) := by
      intro hmem
      obtain ⟨v, hv, hmatched⟩ := ih hslots hmid hmem
      exact ⟨v, hv, by rw [get?_seed, hv, Option.some_or], hmatched⟩
    have hold : i ≠ ([], [kv]) → ([], [kv]) ∈ is := fun hne =>
      (mem_append.1 hkv).resolve_right fun hmem => hne (mem_singleton.1 hmem).symm
    rcases enterOne_cases hone with ⟨rfl, rfl⟩ | ⟨new, rfl, hadd⟩ |
      ⟨pairs, _, _, rfl, hlength, -, -, rfl⟩ | ⟨s, rest, key, w, hsteps, hs, rfl⟩
    · obtain ⟨v, -, hv, hmatched⟩ := hbefore (hold (by simp))
      exact ⟨v, hv, hmatched⟩
    · obtain ⟨w, hmerged, hget⟩ := addPair_ok (hslot ([], [new]) (by simp) new (by simp)) hadd
      by_cases heq : new.1 = kv.1
      · refine ⟨w, by rw [hget, if_pos heq], fun c hc => ?_⟩
        rw [heq] at hmerged
        by_cases hsame : new = kv
        · exact matched_merged hbase hmerged (.inl (hsame ▸ hc))
        · obtain ⟨v, -, hv, hmatched⟩ := hbefore (hold (by simpa using hsame))
          obtain ⟨c', hc', hop⟩ := hmatched c hc
          obtain ⟨c'', hc'', hop'⟩ := matched_merged hbase hmerged (.inr ⟨v, hv, hc'⟩)
          exact ⟨c'', hc'', hop'.trans hop⟩
      · obtain ⟨v, -, hv, hmatched⟩ := hbefore (hold (by rintro ⟨⟩; exact heq rfl))
        exact ⟨v, by rw [hget, if_neg heq, hv], hmatched⟩
    · obtain ⟨v, hv, -, hmatched⟩ := hbefore (hold (by rintro ⟨⟩; simp at hlength))
      exact ⟨v, by rw [get?_insert_of_ne (ne_marker_of_field hkey).symm, hv], hmatched⟩
    · obtain ⟨v, hv, -, hmatched⟩ := hbefore (hold (by rintro rfl; cases hsteps))
      exact ⟨v, by rw [get?_insert_of_ne (ne_of_key? hs hkey), hv], hmatched⟩

/-! ## The marker of an object -/

/-- The keys that go under the marker of an object. -/
def marked (is : List Insertion) : Fields :=
  is.flatMap fun i => if i.1 = [] ∧ 1 < i.2.length then i.2 else []

lemma marked_append_singleton (is : List Insertion) (i : Insertion) :
    marked (is ++ [i]) = marked is ++ if i.1 = [] ∧ 1 < i.2.length then i.2 else [] := by
  simp [marked]

lemma mem_marked : kv ∈ marked is ↔ ∃ i ∈ is, i.1 = [] ∧ 1 < i.2.length ∧ kv ∈ i.2 := by
  simp only [marked, mem_flatMap]
  refine exists_congr fun i => and_congr_right fun _ => ?_
  split
  · next h => simp [h]
  · next h =>
    simp only [not_mem_nil, false_iff, not_and]
    exact fun h₁ h₂ => absurd ⟨h₁, h₂⟩ h

lemma WellPlaced.nodup_marked (h : WellPlaced is) : (keys (marked is)).Nodup := by
  rw [Fields.keys, marked, map_flatMap, nodup_flatMap]
  constructor
  · intro i hi
    split
    · next hi' => exact h.distinct i hi hi'.2
    · exact nodup_nil
  · refine h.apart.imp fun {i j} hij k hk hk' => ?_
    dsimp only at hk hk'
    split at hk
    · next hi =>
      split at hk'
      · next hj => exact hij (hi.1.trans hj.1.symm) (.inl hi.2) k hk hk'
      · cases hk'
    · cases hk

lemma addPairs_fresh {pairs : Fields} (hnodup : (keys (fs ++ pairs)).Nodup) :
    addPairs base false pairs fs = (fs ++ pairs, none) := by
  induction pairs generalizing fs with
  | nil => rw [append_nil, addPairs]
  | cons kv rest ih =>
    obtain ⟨key, v⟩ := kv
    have hkey : key ∉ keys fs := by
      rw [Fields.keys, map_append, nodup_append] at hnodup
      exact fun hmem => hnodup.2.2 key hmem key (by simp) rfl
    have hone : addPair base false fs key v = (fs ++ [(key, v)], none) := by
      simp only [addPair, get?_eq_none_iff.2 hkey, insert_fresh hkey, Bool.false_eq_true, if_false,
        ite_self]
    rw [addPairs, hone]
    dsimp only
    rw [ih (by simpa using hnodup), append_assoc, singleton_append]

/-- **The marker of an object holds the keys of its leaves that have several.** -/
lemma enterAll_marker (hplaced : WellPlaced is) (hbase : get? base marker = none)
    (hstart : get? start marker = none) (h : enterAll base start is = some gs) :
    get? gs marker = if marked is = [] then none else some (.obj (marked is)) := by
  induction is using reverseRecOn generalizing gs with
  | nil =>
    cases h
    rw [hstart]
    rfl
  | append_singleton is i ih =>
    obtain ⟨mid, hmid, hone⟩ := enterAll_append_singleton.1 h
    have hinit := ih (hplaced.sublist (sublist_append_left is [i])) hmid
    have hseed : get? (seed base mid) marker = get? mid marker := by
      rw [get?_seed, hbase, Option.or_none]
    -- an insertion that enters nothing under the marker
    have hkept : get? gs marker = get? mid marker → ¬(i.1 = [] ∧ 1 < i.2.length) → get? gs marker =
          if marked (is ++ [i]) = [] then none else some (.obj (marked (is ++ [i]))) := by
      intro hget hi
      rw [marked_append_singleton, if_neg hi, append_nil, hget, hinit]
    rcases enterOne_cases hone with ⟨rfl, rfl⟩ | ⟨kv, rfl, hadd⟩ |
      ⟨pairs, markers, new, rfl, hlength, hmarkers, hadd, rfl⟩ | ⟨s, rest, key, w, hsteps, hs, rfl⟩
    · exact hkept hseed (by simp)
    · obtain ⟨w, -, hget⟩ := addPair_ok (hplaced.slotless ([], [kv]) (by simp) kv (by simp)) hadd
      have hne := ne_marker_of_field (hplaced.named ([], [kv]) (by simp) kv (by simp))
      exact hkept (by rw [hget, if_neg hne, hseed]) (by simp)
    · have hold : markers = marked is := by
        rw [hinit] at hmarkers
        split at hmarkers
        · next hempty =>
          cases hmarkers
          exact hempty.symm
        · cases hmarkers
          rfl
      have happ : marked (is ++ [([], pairs)]) = marked is ++ pairs := by
        rw [marked_append_singleton]
        exact congrArg (marked is ++ ·) (if_pos ⟨rfl, hlength⟩)
      have hnodup := hplaced.nodup_marked
      rw [happ] at hnodup ⊢
      rw [hold, addPairs_fresh hnodup] at hadd
      cases hadd
      have hne : marked is ++ pairs ≠ [] := by
        intro hnil
        rw [(append_eq_nil_iff.1 hnil).2] at hlength
        exact absurd hlength (by decide)
      rw [get?_insert_self, if_neg hne]
    · have hne : key ≠ marker := key?_ne hs (by decide) (by decide)
      exact hkept (get?_insert_of_ne hne _ _) (by rw [hsteps]; simp)

/-! ## The shape of an object -/

lemma insert_of_enterOne (h : enterOne base fs i = some gs) :
    (⟨fs, base⟩ : IndexEntries).insert i.1 i.2 = (⟨gs, base⟩, none) := by
  unfold enterOne at h
  unfold IndexEntries.insert
  split at h
  · next heq =>
    cases h
    dsimp only
    change insertAt base (addLeaf base i.2) i.1
      (.obj (if i.1.isEmpty && decide (i.2.length ≤ 1) then seed base fs else fs)) = _ at heq
    rw [Fields.seed] at heq
    rw [heq]
  · cases h

variable (hbase : SoundBase base)

include hbase

lemma fits_free : Fits Free base where
  noMarker h := h (by simp [treeKeys])
  present := by simp [Free, treeKeys, marker]
  nodup := hbase.nodup
  base f hf := ⟨hbase.named f hf, keysAre_free _ (hbase.free f hf)⟩

lemma enterAll_tree (hplaced : WellPlaced is) (hstart : Tree true true Free (.obj start))
    (h : enterAll base start is = some gs) : Tree true true Free (.obj gs) := by
  refine enterAll_induction (P := fun fs => Tree true true Free (.obj fs)) (fun i hi _ _ hinit hone =>
    (insert_tree (fits_free hbase) hinit (fun kv hkv => ?_) (insert_of_enterOne hone)).2) hstart h
  exact ⟨hplaced.named i hi kv hkv, keysAre_free _ (hplaced.free i hi kv hkv)⟩

/-- What an object is entered into: nothing at the top, base conditions in a branch. -/
lemma start_tree (hstart : start = [] ∨ start = base) :
    Tree true true Free (.obj start) ∧ ∀ k v, get? start k = some v → (k, v) ∈ base := by
  rcases hstart with rfl | rfl
  · exact ⟨tree_obj.2 ⟨fun _ => nodup_nil, nofun⟩, nofun⟩
  · exact ⟨tree_obj.2 ⟨fun _ => hbase.nodup, fun f hf => .inl ((fits_free hbase).base f hf)⟩,
      fun k v hv => mem_of_get? hv⟩

end IndexEntries

end Conduit
