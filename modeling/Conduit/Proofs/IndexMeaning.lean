import Conduit.Proofs.IndexInsertions

/-!
# What the index query means

The leaves of a match reach the index query one by one, each on its way through `$and` and `$or`.
`Reading.satisfies` says what they mean together: the leaves of a branch and the branches of an
`$and` hold, and one of the branches of an `$or`, where a branch without leaves holds anyway
(`accepts_of_satisfies`, `allows_base_of_top`, `satisfies_of_accepts`).

Both go by induction on the steps that are left: what stands in a branch is what its own insertions
make of the base conditions.
-/

namespace Conduit

open List

namespace IndexEntries

/-- How many steps the insertions take in all. -/
def weight (is : List Insertion) : Nat := (is.map fun i => i.1.length).sum

lemma inBranch_cases (key : String) (p : Nat) (i : Insertion) :
    inBranch key p [i] = [] ∨ ∃ s rest, i = (s :: .position p :: rest, i.2) ∧
      s.key? = some key ∧ inBranch key p [i] = [(rest, i.2)] := by
  by_cases h : inBranch key p [i] = []
  · exact .inl h
  · obtain ⟨j, hj⟩ := exists_mem_of_ne_nil _ h
    obtain ⟨s, hs, hmem⟩ := exists_of_mem_inBranch hj
    obtain rfl := mem_singleton.1 hmem
    exact .inr ⟨s, j.1, rfl, hs, by rw [inBranch_step, if_pos ⟨hs, rfl⟩]⟩

lemma weight_inBranch_add_le (key : String) (p : Nat) (is : List Insertion) :
    weight (inBranch key p is) + (inBranch key p is).length ≤ weight is := by
  induction is with
  | nil => exact Nat.le_refl 0
  | cons i rest ih =>
    rw [← singleton_append, inBranch_append]
    rcases inBranch_cases key p i with h | ⟨s, steps, hi, -, h⟩
    · rw [h, nil_append]
      simp only [weight, singleton_append, map_cons, sum_cons] at ih ⊢
      omega
    · rw [h, hi]
      simp only [weight, singleton_append, map_cons, sum_cons, length_cons] at ih ⊢
      omega

lemma weight_inBranch_lt {key : String} {p : Nat} {is : List Insertion}
    (h : inBranch key p is ≠ []) : weight (inBranch key p is) < weight is := by
  have hle := weight_inBranch_add_le key p is
  have hpos := length_pos_iff.2 h
  omega

end IndexEntries

namespace Reading

open IndexEntries

variable (r : Reading)

/-- Whether a leaf holds: one of its keys does. -/
def allowsLeaf (pairs : Fields) : Prop := pairs = [] ∨ ∃ kv ∈ pairs, r.allows kv

/-- Whether the leaves hold, as their ways combine them: those of one branch and of the branches of
an `$and` all do, and those of some branch of an `$or`.  A branch without leaves holds. -/
def satisfies (is : List Insertion) : Prop := (∀ i ∈ is, i.1 = [] → r.allowsLeaf i.2) ∧
  (∀ p, ∀ _ : inBranch "$and" p is ≠ [], satisfies (inBranch "$and" p is)) ∧
  (∀ width, (∃ i ∈ is, ∃ rest, i.1 = .or width :: rest) →
    ∃ p < width, ∀ _ : inBranch "$or" p is ≠ [], satisfies (inBranch "$or" p is))
termination_by weight is
decreasing_by all_goals exact weight_inBranch_lt ‹_›

end Reading

namespace IndexEntries

open Fields Json Match

variable {base gs start : Fields} {is : List Insertion} {r : Reading} {k key : String} {v : Json}
  {i : Insertion} {s : IndexStep} {rest : List IndexStep} {fs : Fields}

/-! ## Runs -/

lemma exists_width {p : Nat} (h : inBranch "$or" p is ≠ []) :
    ∃ i ∈ is, ∃ width rest, i.1 = .or width :: rest := by
  obtain ⟨j, hj⟩ := exists_mem_of_ne_nil _ h
  obtain ⟨s, hs, hmem⟩ := exists_of_mem_inBranch hj
  cases s with
  | and => exact absurd hs (by simp [IndexStep.key?])
  | or width => exact ⟨_, hmem, width, _, rfl⟩
  | position => cases hs

lemma WellPlaced.run (hplaced : WellPlaced is) (hbase : SoundBase base)
    (hstart : start = [] ∨ start = base) (hrun : enterAll base start is = some gs) :
    Run base start is gs :=
  ⟨hbase, hplaced.slotless, hplaced.named, hstart, hrun⟩

section

variable (hplaced : WellPlaced is) (hrun : Run base start is gs)

include hplaced hrun

lemma run_tree : Tree true true Free (.obj gs) :=
  enterAll_tree hrun.sound hplaced (start_tree hrun.sound hrun.starts).1 hrun.enters

lemma run_marker : get? gs marker = if marked is = [] then none else some (.obj (marked is)) :=
  enterAll_marker hplaced (hrun.sound.get?_eq_none (by simp [treeKeys]))
    (hrun.get?_start_eq_none (by simp [treeKeys])) hrun.enters

lemma run_slots (ms : Fields) (hms : get? gs marker = some (.obj ms)) :
    ∀ m ∈ ms, compoundSlot? m.1 = none := by
  intro m hm
  rw [run_marker hplaced hrun] at hms
  split at hms
  · cases hms
  · cases hms
    obtain ⟨i, hi, -, -, hmem⟩ := mem_marked.1 hm
    exact hplaced.slotless i hi m hmem

lemma run_width (hi : i ∈ is) {width : Nat} (hsteps : i.1 = .or width :: rest) {items : List Json}
    (hitems : get? gs "$or" = some (.arr items)) : items.length = width :=
  hrun.width (hplaced.hasWidth hi hsteps) hitems

end

lemma run_list (hrun : Run base start is gs) (hk : key ∈ ["$and", "$or"]) {p : Nat}
    (hp : inBranch key p is ≠ []) :
    ∃ items, get? gs key = some (.arr items) ∧ ∀ q, Branch base (inBranch key q is) items[q]? := by
  have hbranches := hrun.branches hk
  cases hget : get? gs key with
  | none =>
    rw [hget] at hbranches
    exact absurd (hbranches p) hp
  | some v =>
    rw [hget] at hbranches
    obtain ⟨items, rfl, -, hitems⟩ := hbranches
    exact ⟨items, rfl, hitems⟩

/-- A branch that is there holds what its insertions make of the base conditions. -/
lemma Branch.exists_of_mem {items : List Json}
    (h : ∀ q, Branch base (inBranch key q is) items[q]?) (hv : v ∈ items)
    (hnull : v.isNull = false) : ∃ p gs', p < items.length ∧ inBranch key p is ≠ [] ∧
      v = .obj gs' ∧ enterAll base base (inBranch key p is) = some gs' := by
  obtain ⟨p, hp⟩ := List.getElem?_of_mem hv
  have hbranch := h p
  rw [hp] at hbranch
  rcases hbranch.cases_some with ⟨-, rfl⟩ | ⟨hne, gs', rfl, hgs'⟩
  · cases hnull
  · exact ⟨p, gs', (List.getElem?_eq_some_iff.1 hp).1, hne, rfl, hgs'⟩

/-! ## From the leaves to the query -/

/-- **The finished query follows from the base conditions and the leaves.** -/
lemma accepts_of_satisfies (hallows : ∀ b ∈ base, r.allows b) (hplaced : WellPlaced is)
    (hrun : Run base start is gs) (hsat : r.satisfies is) :
    r.accepts (finished base (.obj gs)) := by
  induction hweight : weight is using Nat.strong_induction_on generalizing is start gs with
  | h n ih =>
    subst hweight
    rw [Reading.satisfies] at hsat
    obtain ⟨hleaves, hand, hor⟩ := hsat
    -- a branch that is there follows by induction
    have hbelow : ∀ {key p gs'}, inBranch key p is ≠ [] →
        enterAll base base (inBranch key p is) = some gs' →
        r.satisfies (inBranch key p is) → r.accepts (finished base (.obj gs')) :=
      fun {key p _} hne hgs hsat =>
        have hbranch := hplaced.inBranch key p
        ih _ (weight_inBranch_lt hne) hbranch (hbranch.run hrun.sound (.inr rfl) hgs) hsat rfl
    refine (accepts_finished hrun.sound (run_tree hplaced hrun) (run_slots hplaced hrun)).2
      ⟨fun k v hk hv c hc => ?_, fun items hitems v hv hnull => ?_, fun items hitems hnull => ?_,
        fun ms hms => ?_⟩
    · rcases enterAll_given hrun.slotless (start_tree hrun.sound hrun.starts).2 hrun.enters hk hv hc with
        ⟨b, hb, hc⟩ | ⟨kv, hmem, hc⟩
      · exact hallows b hb c hc
      · rcases hleaves _ hmem rfl with h | ⟨kv', hkv', h⟩
        · cases h
        · rw [mem_singleton.1 hkv'] at h
          exact h c hc
    · obtain ⟨_, heq, -, hbranches⟩ := hitems ▸ hrun.branches (k := "$and") (by simp)
      cases heq
      obtain ⟨p, gs', -, hne, rfl, hgs'⟩ := Branch.exists_of_mem hbranches hv hnull
      exact hbelow hne hgs' (hand p hne)
    · obtain ⟨_, heq, ⟨q, hq⟩, hbranches⟩ := hitems ▸ hrun.branches (k := "$or") (by simp)
      cases heq
      obtain ⟨i, hi, width, rest, hsteps⟩ := exists_width hq
      obtain ⟨p, hlt, hp⟩ := hor width ⟨i, hi, rest, hsteps⟩
      have hlength := run_width hplaced hrun hi hsteps hitems
      obtain ⟨v, hget⟩ : ∃ v, items[p]? = some v := ⟨_, List.getElem?_eq_getElem (hlength ▸ hlt)⟩
      have hmem := mem_of_getElem? hget
      rcases Branch.cases_some (hget ▸ hbranches p) with ⟨-, rfl⟩ | ⟨hne, gs', rfl, hgs'⟩
      · exact absurd (any_eq_false.1 hnull _ hmem) (by simp [Json.isNull])
      · exact ⟨_, hmem, hbelow hne hgs' (hp hne)⟩
    · rw [run_marker hplaced hrun] at hms
      split at hms
      · cases hms
      · next hne =>
        cases hms
        obtain ⟨m, hm⟩ := exists_mem_of_ne_nil _ hne
        obtain ⟨i, hi, hsteps, hlength, -⟩ := mem_marked.1 hm
        rcases hleaves i hi hsteps with hnil | ⟨kv, hkv, hkvallows⟩
        · rw [hnil] at hlength
          exact absurd hlength (by decide)
        · exact ⟨kv, mem_marked.2 ⟨i, hi, hsteps, hlength, hkv⟩, hkvallows,
            fun b hb _ => hallows b hb⟩

/-! ## From the query to the leaves -/

/-- Insertions of which nothing is lost: no base condition gives way, a branch has one leaf with
several keys at most, and conditions that are entered again in a branch say the same. -/
structure Lossless (r : Reading) (base : Fields) (is : List Insertion) : Prop where
  fresh : ∀ i ∈ is, ∀ kv ∈ i.2, contains base kv.1 = false
  single : is.Pairwise fun i j => i.1 = j.1 → ¬(1 < i.2.length ∧ 1 < j.2.length)
  same : ∀ i ∈ is, ∀ j ∈ is, i.1 = j.1 → ∀ kv ∈ i.2, ∀ kv' ∈ j.2,
    ∀ c ∈ Condition.ofPair kv, ∀ c' ∈ Condition.ofPair kv',
      c.key = c'.key → c.operator = c'.operator → (r.holds c ↔ r.holds c')

lemma Lossless.inBranch (h : Lossless r base is) (hplaced : WellPlaced is) (key : String)
    (p : Nat) : Lossless r base (inBranch key p is) where
  fresh i hi := by
    obtain ⟨s, -, hmem⟩ := exists_of_mem_inBranch hi
    exact h.fresh (s :: .position p :: i.1, i.2) hmem
  single := pairwise_inBranch (P := fun xs ys => ¬(1 < xs.length ∧ 1 < ys.length))
    hplaced.agree h.single key p
  same i hi j hj heq := by
    obtain ⟨s, hs, hmem⟩ := exists_of_mem_inBranch hi
    obtain ⟨t, ht, hmem'⟩ := exists_of_mem_inBranch hj
    obtain ⟨rfl, -⟩ := agree_tail hs ht (hplaced.agree _ hmem _ hmem')
    exact h.same (s :: .position p :: i.1, i.2) hmem (s :: .position p :: j.1, j.2) hmem'
      (by rw [heq])

lemma allows_base (hplaced : WellPlaced is) (hlossless : Lossless r base is)
    (hstart : start = base ∨ start = [] ∧ is.any seeds = true) (hrun : Run base start is gs)
    (haccepts : r.accepts (finished base (.obj gs))) : ∀ b ∈ base, r.allows b := by
  intro b hb
  have hget : get? gs b.1 = some b.2 := by
    have hb' := (get?_eq_some_iff hrun.sound.nodup).2 hb
    have hnamed := hrun.sound.named b hb
    have hother : ∀ i ∈ is, i.1 = [] → ∀ kv ∈ i.2, kv.1 ≠ b.1 := by
      intro i hi _ kv hkv heq
      have hfresh := hlossless.fresh i hi kv hkv
      rw [heq, contains_eq_false_iff, hb'] at hfresh
      cases hfresh
    rw [enterAll_seeded hplaced.slotless (ne_of_named hnamed (by simp [treeKeys]))
      (ne_of_named hnamed (by simp [treeKeys])) (.inl (ne_marker_of_field hnamed)) hother
      hrun.enters]
    rcases hstart with rfl | ⟨rfl, hseeds⟩
    · rw [hb']
      split <;> rfl
    · rw [if_pos hseeds, hb']
      rfl
  exact ((accepts_finished hrun.sound (run_tree hplaced hrun) (run_slots hplaced hrun)).1
    haccepts).1 b.1 b.2 (hrun.sound.named b hb) hget

lemma allowsLeaf_of_accepts (hplaced : WellPlaced is) (hlossless : Lossless r base is)
    (hrun : Run base start is gs)
    (hfields : ∀ k v, Path.isOperator k = false → get? gs k = some v → r.allows (k, v))
    (hmarks : ∀ ms, get? gs marker = some (.obj ms) →
      ∃ m ∈ ms, r.allows m ∧ ∀ b ∈ base, b.1 ≠ m.1 → r.allows b) (hi : i ∈ is) (hsteps : i.1 = []) :
    r.allowsLeaf i.2 := by
  obtain ⟨steps, pairs⟩ := i
  obtain rfl : steps = [] := hsteps
  by_cases hlength : 1 < pairs.length
  · have hne : marked is ≠ [] := by
      obtain ⟨kv, hkv⟩ := exists_mem_of_length_pos (by omega : 0 < pairs.length)
      exact ne_nil_of_mem (mem_marked.2 ⟨_, hi, rfl, hlength, hkv⟩)
    have hmarker := (run_marker hplaced hrun).trans (if_neg hne)
    obtain ⟨m, hm, hmallows, -⟩ := hmarks _ hmarker
    -- the leaf is the only one under the marker
    obtain ⟨j, hj, hjsteps, hjlength, hmem⟩ := mem_marked.1 hm
    have hij : j = ([], pairs) := by
      have hsymm : Std.Symm fun i j : Insertion => i.1 = j.1 → ¬(1 < i.2.length ∧ 1 < j.2.length) :=
        ⟨fun x y hxy heq hboth => hxy heq.symm hboth.symm⟩
      by_contra hij
      exact hlossless.single.forall hj hi hij hjsteps ⟨hjlength, hlength⟩
    rw [hij] at hmem
    exact .inr ⟨m, hmem, hmallows⟩
  · match pairs, Nat.not_lt.1 hlength, hi with
    | [], _, _ => exact .inl rfl
    | [kv], _, hi =>
      refine .inr ⟨kv, mem_singleton_self kv, fun c hc => ?_⟩
      have hkey := hplaced.named _ hi kv (mem_singleton_self kv)
      have hbasekey := hlossless.fresh _ hi kv (mem_singleton_self kv)
      obtain ⟨v, hv, hmatched⟩ := enterAll_matched hrun.slotless hrun.enters hi hkey hbasekey
      obtain ⟨c', hc', hop⟩ := hmatched c hc
      have hholds := hfields kv.1 v hkey hv c' hc'
      have hkey' := Condition.key_of_mem hc'
      rcases enterAll_given hrun.slotless (start_tree hrun.sound hrun.starts).2 hrun.enters hkey hv
        hc' with
        ⟨b, hb, hcb⟩ | ⟨kv', hmem, hckv⟩
      · -- no base condition has the key of a leaf
        have hb' : b.1 = kv.1 := (Condition.key_of_mem hcb).symm.trans hkey'
        rw [contains_eq_false_iff, get?_eq_none_iff, Fields.mem_keys] at hbasekey
        exact absurd ⟨b.2, hb' ▸ hb⟩ hbasekey
      · exact (hlossless.same _ hi _ hmem rfl kv (mem_singleton_self kv) kv'
          (mem_singleton_self kv') c hc c' hckv
          ((Condition.key_of_mem hc).trans hkey'.symm) hop.symm).2 hholds

lemma mem_keys_of_step (hslot : Slotless is) (hrun : enterAll base start is = some gs)
    (hi : i ∈ is) (hsteps : i.1 = s :: rest) (hs : s.key? = some key) : key ∈ keys gs := by
  induction is using List.reverseRecOn generalizing gs with
  | nil => cases hi
  | append_singleton is j ih =>
    obtain ⟨mid, hmid, hone⟩ := enterAll_append_singleton.1 hrun
    rcases mem_append.1 hi with hi | hi
    · have hinit := ih (fun x hx => hslot x (by simp [hx])) hmid hi
      exact enterOne_keeps (hslot j (by simp)) hone hinit
    · obtain rfl := mem_singleton.1 hi
      obtain ⟨steps, pairs⟩ := i
      obtain rfl : steps = s :: rest := hsteps
      obtain ⟨key', v, hs', -, rfl⟩ := enterOne_branch hone
      cases hs.symm.trans hs'
      exact mem_keys_insert.2 (.inl rfl)

lemma exists_inBranch (hrun : Run base start is gs) (hi : i ∈ is) (hsteps : i.1 = s :: rest)
    (hs : s.key? = some key) (hk : key ∈ ["$and", "$or"]) : ∃ p, inBranch key p is ≠ [] := by
  have hmem := mem_keys_of_step hrun.slotless hrun.enters hi hsteps hs
  have hbranches := hrun.branches hk
  cases hget : get? gs key with
  | none => exact absurd hmem (get?_eq_none_iff.1 hget)
  | some v =>
    rw [hget] at hbranches
    obtain ⟨items, -, hp, -⟩ := hbranches
    exact hp

/-- **The leaves follow from the finished query**, where nothing is lost. -/
lemma satisfies_of_accepts (hplaced : WellPlaced is) (hlossless : Lossless r base is)
    (hrun : Run base start is gs) (haccepts : r.accepts (finished base (.obj gs))) :
    r.satisfies is := by
  induction hweight : weight is using Nat.strong_induction_on generalizing is start gs with
  | h n ih =>
    subst hweight
    have hbelow : ∀ {key p gs'}, inBranch key p is ≠ [] →
        enterAll base base (inBranch key p is) = some gs' →
        r.accepts (finished base (.obj gs')) → r.satisfies (inBranch key p is) :=
      fun {key p _} hne hgs haccepts =>
        have hbranch := hplaced.inBranch key p
        ih _ (weight_inBranch_lt hne) hbranch (hlossless.inBranch hplaced _ _)
          (hbranch.run hrun.sound (.inr rfl) hgs) haccepts rfl
    obtain ⟨hfields, hand, hor, hmarks⟩ := (accepts_finished hrun.sound (run_tree hplaced hrun)
      (run_slots hplaced hrun)).1 haccepts
    rw [Reading.satisfies]
    refine ⟨fun i hi hsteps => ?_, fun p hne => ?_, ?_⟩
    · exact allowsLeaf_of_accepts hplaced hlossless hrun hfields hmarks hi hsteps
    · obtain ⟨items, hitems, hbranches⟩ := run_list hrun (by simp) hne
      obtain ⟨gs', hget, hgs'⟩ := (hbranches p).exists_obj hne
      exact hbelow hne hgs' (hand items hitems _ (mem_of_getElem? hget) rfl)
    · rintro width ⟨i, hi, rest, hsteps⟩
      obtain ⟨q, hq⟩ := exists_inBranch hrun hi hsteps rfl (by simp)
      obtain ⟨items, hitems, hbranches⟩ := run_list hrun (by simp) hq
      have hlength := run_width hplaced hrun hi hsteps hitems
      cases hnull : items.any isNull with
      | true =>
        -- an `$or` with a gap is true
        obtain ⟨v, hv, hvnull⟩ := any_eq_true.1 hnull
        obtain ⟨p, hp⟩ := List.getElem?_of_mem hv
        have hlt := hlength ▸ (List.getElem?_eq_some_iff.1 hp).1
        rcases Branch.cases_some (hp ▸ hbranches p) with ⟨hempty, -⟩ | ⟨-, gs', rfl, -⟩
        · exact ⟨p, hlt, fun hne => absurd hempty hne⟩
        · cases hvnull
      | false =>
        obtain ⟨v, hv, hvaccepts⟩ := hor items hitems hnull
        have hvnull : v.isNull = false := by simpa using any_eq_false.1 hnull v hv
        obtain ⟨p, gs', hlt, hne, rfl, hgs'⟩ := Branch.exists_of_mem hbranches hv hvnull
        exact ⟨p, hlength ▸ hlt, fun hne => hbelow hne hgs' hvaccepts⟩

/-- Insertions that all go through `$or` touch no other key. -/
lemma enterAll_or_only (hhere : ∀ i ∈ is, i.1 ≠ []) (hand : ∀ i ∈ is, ∀ rest, i.1 ≠ .and :: rest)
    (hrun : enterAll base start is = some gs) (hk : k ≠ "$or") : get? gs k = get? start k := by
  refine enterAll_induction (P := fun fs => get? fs k = get? start k)
    (fun i hi mid next hinit hone => ?_) rfl hrun
  have hne := hhere i hi
  rcases enterOne_cases hone with ⟨rfl, -⟩ | ⟨kv, rfl, -⟩ | ⟨pairs, _, _, rfl, -⟩ |
    ⟨s, rest, key, w, hsteps, hs, rfl⟩
  · exact absurd rfl hne
  · exact absurd rfl hne
  · exact absurd rfl hne
  · cases s with
    | and => exact absurd hsteps (hand i hi rest)
    | or width =>
      cases hs
      rw [get?_insert_of_ne hk.symm, hinit]
    | position => cases hs

lemma eq_nil_of_get? (h : ∀ k, get? fs k = none) : fs = [] := by
  cases fs with
  | nil => rfl
  | cons f rest =>
    have hf := h f.1
    rw [get?_cons, if_pos rfl] at hf
    cases hf

/-- **The base conditions follow from a query that is not empty**, where nothing is lost. -/
lemma allows_base_of_top (hplaced : WellPlaced is) (hlossless : Lossless r base is)
    (hrun : Run base [] is gs) (hne : finished base (.obj gs) ≠ .obj [])
    (haccepts : r.accepts (finished base (.obj gs))) : ∀ b ∈ base, r.allows b := by
  have hmarker := run_marker hplaced hrun
  obtain ⟨-, hand, hor, hmarks⟩ := (accepts_finished hrun.sound (run_tree hplaced hrun)
    (run_slots hplaced hrun)).1 haccepts
  -- a branch that is there holds the base conditions
  have hbranch : ∀ {key p gs'}, enterAll base base (inBranch key p is) = some gs' →
      r.accepts (finished base (.obj gs')) → ∀ b ∈ base, r.allows b :=
    fun {key p _} hgs haccepts =>
      have hbranch := hplaced.inBranch key p
      allows_base hbranch (hlossless.inBranch hplaced _ _) (.inl rfl)
        (hbranch.run hrun.sound (.inr rfl) hgs) haccepts
  by_cases hseeds : is.any seeds = true
  · exact allows_base hplaced hlossless (.inr ⟨rfl, hseeds⟩) hrun haccepts
  by_cases hmarked : marked is = []
  swap
  · obtain ⟨m, hm, -, hothers⟩ := hmarks _ (hmarker.trans (if_neg hmarked))
    obtain ⟨i, hi, -, -, hmem⟩ := mem_marked.1 hm
    have hfresh := hlossless.fresh i hi m hmem
    rw [contains_eq_false_iff, get?_eq_none_iff, Fields.mem_keys] at hfresh
    exact fun b hb => hothers b hb fun heq => hfresh ⟨b.2, heq ▸ hb⟩
  by_cases handed : ∃ p, inBranch "$and" p is ≠ []
  · obtain ⟨p, hp⟩ := handed
    obtain ⟨items, hitems, hbranches⟩ := run_list hrun (by simp) hp
    obtain ⟨gs', hget, hgs'⟩ := (hbranches p).exists_obj hp
    exact hbranch hgs' (hand items hitems _ (mem_of_getElem? hget) rfl)
  -- all insertions go through `$or`, which has all branches since the query is not empty
  have hhere : ∀ i ∈ is, i.1 ≠ [] := by
    rintro ⟨steps, pairs⟩ hi rfl
    by_cases hlength : 1 < pairs.length
    · obtain ⟨kv, hkv⟩ := exists_mem_of_length_pos (by omega : 0 < pairs.length)
      exact ne_nil_of_mem (mem_marked.2 ⟨_, hi, rfl, hlength, hkv⟩) hmarked
    · refine hseeds (any_eq_true.2 ⟨_, hi, ?_⟩)
      exact Bool.and_eq_true_iff.2 ⟨rfl, decide_eq_true (Nat.le_of_not_lt hlength)⟩
  have hnoand : ∀ i ∈ is, ∀ rest, i.1 ≠ .and :: rest := fun i hi rest hsteps =>
    handed (exists_inBranch hrun hi hsteps rfl (by simp))
  have honly : ∀ k, k ≠ "$or" → get? (finishedFields base gs) k = none := fun k hk =>
    get?_finishedFields_none hrun.nodup (enterAll_or_only hhere hnoand hrun.enters hk)
  have hsome : get? (finishedFields base gs) "$or" ≠ none := by
    intro hnone
    refine hne ?_
    have hnil : finishedFields base gs = [] := eq_nil_of_get? fun k => by
      by_cases hk : k = "$or"
      · rw [hk, hnone]
      · exact honly k hk
    rw [finished_obj, hnil]
    rfl
  have hbranches := hrun.branches (k := "$or") (by simp)
  cases hget : get? gs "$or" with
  | none => exact absurd (get?_finishedFields_none hrun.nodup hget) hsome
  | some v =>
    rw [hget] at hbranches
    obtain ⟨items, rfl, -, hitems⟩ := hbranches
    rw [get?_finishedFields_or hrun.nodup hget] at hsome
    have hnull : items.any isNull = false := by
      by_contra hnull
      exact hsome (if_pos (by simpa using hnull))
    obtain ⟨v, hv, hvaccepts⟩ := hor items hget hnull
    have hvnull : v.isNull = false := by simpa using any_eq_false.1 hnull v hv
    obtain ⟨p, gs', -, -, rfl, hgs'⟩ := Branch.exists_of_mem hitems hv hvnull
    exact hbranch hgs' hvaccepts

/-! ## The finished query -/

lemma finish_query {e : IndexEntries} {q : IndexQuery} (h : e.finish = some q) :
    finished e.baseFind (.obj e.root) = .obj q.query ∧ q.query ≠ [] := by
  unfold IndexEntries.finish at h
  dsimp only at h
  split at h
  · cases h
  · next query hne heq =>
    cases h
    exact ⟨heq, hne⟩
  · cases h

/-- What stands in a finished query: a tree, a list of trees, or a value without keys of it. -/
def Part (v : Json) : Prop := Tree false false Free v ∨ TreeList false false Free v ∨ KeysAre Free v

lemma Part.of_inside {w : Json} (h : Inside v w) (hw : Part w) : Part v := by
  induction h with
  | self => exact hw
  | field hf _ ih =>
    refine ih ?_
    rcases hw with hw | hw | hw
    · rcases tree_unmarked.1 hw _ hf with ⟨-, h⟩ | ⟨-, h⟩ | ⟨h, -⟩
      · exact .inr (.inr h)
      · exact .inr (.inl h)
      · cases h
    · exact hw.elim
    · exact .inr (.inr (keysAre_obj.1 hw _ hf).2)
  | item hmem _ ih =>
    refine ih ?_
    rcases hw with hw | hw | hw
    · exact hw.elim
    · exact .inl ((treeList_arr.1 hw).2 _ hmem)
    · exact .inr (.inr (keysAre_arr.1 hw _ hmem))

/-- The objects of a finished query have no marker and no gap in `$and` or `$or`. -/
lemma Part.obj (h : Part (.obj fs)) {f : String × Json} (hf : f ∈ fs) :
    f.1 ≠ marker ∧ ∀ items, f.1 = "$and" ∨ f.1 = "$or" → f.2 = .arr items → .null ∉ items := by
  rcases h with h | h | h
  · have hmember := tree_unmarked.1 h f hf
    refine ⟨?_, fun items hlogic heq hnull => ?_⟩
    · rintro hmarker
      rcases hmember with ⟨hop, -⟩ | ⟨hlogic, -⟩ | ⟨h, -⟩
      · exact ne_marker_of_field hop hmarker
      · rw [hmarker] at hlogic
        exact absurd hlogic (by decide)
      · cases h
    · obtain ⟨_, heq', -, hitems⟩ := (hmember.list hlogic).exists_arr
      cases heq.symm.trans heq'
      exact absurd (hitems _ hnull) (by simp [Tree])
  · exact h.elim
  · have hfree := (keysAre_obj.1 h f hf).1
    refine ⟨fun heq => hfree (by simp [heq, treeKeys]), fun items hlogic _ _ => hfree ?_⟩
    rcases hlogic with heq | heq <;> simp [heq, treeKeys]

/-- **The index query means what is entered.**  Base conditions and leaves together imply it, and
it has no marker and no gap; if nothing is lost on the way, it implies them. -/
theorem finish_means_leaves {base : Fields} (hbase : SoundBase base) {is : List Insertion}
    (hplaced : WellPlaced is) {e : IndexEntries} (hinserted : (new base).insertAll is = some e)
    {q : IndexQuery} (hfinish : e.finish = some q) :
    (∀ r : Reading, (∀ b ∈ base, r.allows b) → r.satisfies is → r.accepts (.obj q.query)) ∧
    (∀ fs, Inside (.obj fs) (.obj q.query) → ∀ f ∈ fs, f.1 ≠ marker ∧
      ∀ items, f.1 = "$and" ∨ f.1 = "$or" → f.2 = .arr items → .null ∉ items) ∧
    (∀ r : Reading, Lossless r base is → r.accepts (.obj q.query) →
      (∀ b ∈ base, r.allows b) ∧ r.satisfies is) := by
  obtain ⟨hsame, hrun⟩ := enterAll_of_insertAll hinserted
  obtain ⟨hquery, hne⟩ := finish_query hfinish
  have hbasefind : e.baseFind = base := hsame
  have hroot : Run base [] is e.root := hplaced.run hbase (.inl rfl) hrun
  rw [hbasefind] at hquery
  have htree : Tree false false Free (.obj q.query) := by
    exact finish_tree (hbasefind ▸ fits_free hbase) (run_tree hplaced hroot) hfinish
  refine ⟨fun r hallows hsat => ?_, fun fs hinside f hf => ?_, fun r hlossless haccepts => ?_⟩
  · rw [← hquery]
    exact accepts_of_satisfies hallows hplaced hroot hsat
  · exact (Part.of_inside hinside (.inl htree)).obj hf
  · rw [← hquery] at haccepts
    refine ⟨allows_base_of_top hplaced hlossless hroot ?_ haccepts,
      satisfies_of_accepts hplaced hlossless hroot haccepts⟩
    rw [hquery]
    exact fun heq => hne (Json.obj.inj heq)

/-- The conditions that every branch starts from. -/
def orgBase : Fields := [("org", .int 1)]

/-- Leaves on both sides of an `$or`, one of them stored under two keys, and one beside it. -/
def orgLeaves : List Insertion :=
  [([.or 2, .position 1], [("idx.d.i1", .str "a"), ("idx.d.i2", .str "a")]),
   ([], [("c_age", .obj [("$gt", .int 1)])]),
   ([.or 2, .position 0, .and, .position 1], [("c_tag", .str "b")]),
   ([], [("c_age", .obj [("$lt", .int 9)])])]

/-- Nothing is lost of these leaves, so that their query says what they say, whatever the order in
which they are entered. -/
theorem org_query_means_leaves : SoundBase orgBase ∧ WellPlaced orgLeaves ∧
    ∃ e q, (new orgBase).insertAll orgLeaves = some e ∧ e.finish = some q ∧
      ∀ r : Reading, r.accepts (.obj q.query) ↔
        (∀ b ∈ orgBase, r.allows b) ∧ r.satisfies orgLeaves := by
  have hbase : SoundBase orgBase := ⟨by decide +kernel, by decide +kernel, by decide +kernel⟩
  have hplaced : WellPlaced orgLeaves := by decide +kernel
  obtain ⟨e, he⟩ := Option.isSome_iff_exists.1
    (by decide +kernel : ((new orgBase).insertAll orgLeaves).isSome = true)
  obtain ⟨q, hq⟩ := Option.isSome_iff_exists.1
    (by decide +kernel : (((new orgBase).insertAll orgLeaves).bind finish).isSome = true)
  rw [he, Option.bind_some] at hq
  have hlossless : ∀ r : Reading, Lossless r orgBase orgLeaves := by
    refine fun r => ⟨by decide +kernel, by decide +kernel, ?_⟩
    have hsame : ∀ i ∈ orgLeaves, ∀ j ∈ orgLeaves, i.1 = j.1 → ∀ kv ∈ i.2, ∀ kv' ∈ j.2,
        ∀ c ∈ Condition.ofPair kv, ∀ c' ∈ Condition.ofPair kv',
          c.key = c'.key → c.operator = c'.operator → c = c' := by decide +kernel
    intro i hi j hj hij kv hkv kv' hkv' c hc c' hc' hkey hop
    rw [hsame i hi j hj hij kv hkv kv' hkv' c hc c' hc' hkey hop]
  obtain ⟨himplied, -, himplies⟩ := finish_means_leaves hbase hplaced he hq
  exact ⟨hbase, hplaced, e, q, he, hq, fun r =>
    ⟨himplies r (hlossless r), fun h => himplied r h.1 h.2⟩⟩

end IndexEntries

end Conduit
