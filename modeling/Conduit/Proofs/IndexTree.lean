import Conduit.Match.IndexEntries
import Conduit.Proofs.Fields
import Mathlib.Data.List.Induction

/-!
# Entering leaves into the index query

Leaves arrive in any order and make the branches they need.  What the tree holds in the end can
still be read off the entries: each key of an object depends on the entries with that key alone,
and each branch is what its own entries make of the base conditions (`enterAll_values`,
`enterAll_branches`).

A leaf may have several keys, which then go under a marker; what is said of values is for leaves
with one key.
-/

namespace Conduit

open List

/-- The key that a step leads into. -/
def IndexStep.key? : IndexStep → Option String
  | .and => some "$and"
  | .or _ => some "$or"
  | .position _ => none

/-- The branches that a step into a missing key starts from. -/
def IndexStep.fresh : IndexStep → List Json
  | .or width => replicate width .null
  | _ => []

variable {s : IndexStep}

lemma IndexStep.key?_ne {key k : String} (h : s.key? = some key)
    (hand : k ≠ "$and") (hor : k ≠ "$or") : key ≠ k := by
  cases s with
  | and =>
    cases h
    exact Ne.symm hand
  | or =>
    cases h
    exact Ne.symm hor
  | position => cases h

namespace IndexEntries

open Fields

/-- A leaf, as the keys that are entered for it. -/
class Leaf (α : Type) where
  pairs : α → Fields

/-- A leaf with one key. -/
instance : Leaf (String × Json) := ⟨fun kv => [kv]⟩

/-- A leaf with any number of keys. -/
instance : Leaf Fields := ⟨id⟩

/-- The steps to a branch, and a leaf there. -/
abbrev Placed (α : Type) := List IndexStep × α

/-- The steps to a branch, and a key and its value there. -/
abbrev Entry := Placed (String × Json)

section

variable {α : Type} [Leaf α]

/-- Enters a leaf below an object.  Base conditions come first where it stands in the object
itself and has one key. -/
def enterOne (base fs : Fields) (e : Placed α) : Option Fields :=
  match insertAt base (addLeaf base (Leaf.pairs e.2)) e.1
    (.obj (if e.1.isEmpty && (Leaf.pairs e.2).length ≤ 1 then seed base fs else fs)) with
  | (.obj gs, none) => some gs
  | _ => none

/-- Enters leaves in order. -/
def enterAll (base fs : Fields) (entries : List (Placed α)) : Option Fields :=
  entries.foldlM (enterOne base) fs

lemma enterAll_append_singleton {base fs gs : Fields} {entries : List (Placed α)} {e : Placed α} :
    enterAll base fs (entries ++ [e]) = some gs ↔
      ∃ mid, enterAll base fs entries = some mid ∧ enterOne base mid e = some gs := by
  simp [enterAll, foldlM_append, Option.bind_eq_some_iff]

end

section

variable {α : Type} {key : String}

/-- The entries that go on into branch `p` of a key. -/
def inBranch (key : String) (p : Nat) (entries : List (Placed α)) : List (Placed α) :=
  entries.filterMap fun e => match e.1 with
    | s :: .position q :: rest => if s.key? = some key ∧ q = p then some (rest, e.2) else none
    | _ => none

lemma inBranch_append (key : String) (p : Nat) (xs ys : List (Placed α)) :
    inBranch key p (xs ++ ys) = inBranch key p xs ++ inBranch key p ys := filterMap_append

lemma inBranch_leaf (key : String) (p : Nat) (a : α) : inBranch key p [([], a)] = [] := rfl

lemma inBranch_step (key : String) (p q : Nat) (s : IndexStep) (rest : List IndexStep) (a : α) :
    inBranch key p [(s :: .position q :: rest, a)] =
      if s.key? = some key ∧ q = p then [(rest, a)] else [] := by
  by_cases h : s.key? = some key ∧ q = p
  · simp [inBranch, h]
  · simp only [inBranch, filterMap_cons, filterMap_nil, if_neg h]

lemma inBranch_other (hs : s.key? ≠ some key) (p : Nat) (rest : List IndexStep) (a : α) :
    inBranch key p [(s :: rest, a)] = [] := by
  cases rest with
  | nil => rfl
  | cons t rest =>
    cases t with
    | position q => rw [inBranch_step, if_neg fun h => hs h.1]
    | _ => rfl

lemma exists_of_mem_inBranch {p : Nat} {entries : List (Placed α)} {e : Placed α}
    (h : e ∈ inBranch key p entries) :
    ∃ s, s.key? = some key ∧ (s :: .position p :: e.1, e.2) ∈ entries := by
  obtain ⟨⟨steps, a⟩, hmem, hsome⟩ := mem_filterMap.1 h
  split at hsome
  · next s q rest hsteps =>
    split at hsome
    · next hs =>
      cases hsome
      obtain ⟨hs, rfl⟩ := hs
      exact ⟨s, hs, hsteps ▸ hmem⟩
    · cases hsome
  · cases hsome

end

/-- The values that are entered for a key of the object itself. -/
def valuesAt (key : String) (entries : List Entry) : List Json :=
  entries.filterMap fun e => if e.1.isEmpty ∧ e.2.1 = key then some e.2.2 else none

/-! ## One key of an object -/

/-- What a value makes of the one that a key has, if they go together. -/
def merged (base : Fields) (key : String) (current : Option Json) (v : Json) : Option Json :=
  if contains base key then some v
  else match current, v with
    | none, v => some v
    | some (.obj fs), .obj new => some (.obj (extend fs new))
    | some (.obj _), _ | some _, .obj _ => none
    | some w, v => if w.sameAs v then some w else none

lemma addLeaf_singleton (base fs : Fields) (key : String) (v : Json) :
    addLeaf base [(key, v)] fs = addPair base true fs key v := by
  simp only [addLeaf, length_singleton, Nat.le_refl, if_true, addPairs]
  split
  · next heq => rw [heq]
  · next heq => rw [heq]

variable {base fs gs : Fields} {k key : String} {v : Json} {fix : Bool}
  {pairs : Fields} {steps : List IndexStep} {α : Type} {last current : Option Json}
  {vs : List Json} {leaf : Fields → Fields × Option Fault} {a : α} {entries : List Entry}

lemma addPair_ok (hslot : compoundSlot? key = none)
    (hadd : addPair base fix fs key v = (gs, none)) :
    ∃ w, merged base key (get? fs key) v = some w ∧
      ∀ k, get? gs k = if key = k then some w else get? fs k := by
  have hfresh : ∀ {fs' : Fields}, addCompound fs' key = fs' := by
    intro fs'
    simp [addCompound, hslot]
  simp only [addPair, hfresh, ite_self] at hadd
  simp only [merged]
  by_cases hc : contains base key = true
  · simp only [hc, if_true, Prod.mk.injEq, and_true] at hadd ⊢
    exact ⟨v, rfl, hadd ▸ get?_insert fs key v⟩
  · simp only [hc, Bool.false_eq_true, if_false] at hadd ⊢
    cases hcur : get? fs key with
    | none =>
      simp only [hcur, Prod.mk.injEq, and_true] at hadd
      exact ⟨v, rfl, hadd ▸ get?_insert fs key v⟩
    | some w =>
      have hkept : fs = gs → ∀ k, get? gs k = if key = k then some w else get? fs k := by
        rintro rfl k
        split
        · next hk => rw [← hk, hcur]
        · rfl
      cases w with
      | obj ws =>
        cases v with
        | obj vs =>
          simp only [hcur, Prod.mk.injEq, and_true] at hadd
          exact ⟨_, rfl, hadd ▸ get?_insert fs key _⟩
        | _ => simp [hcur] at hadd
      | _ =>
        cases v with
        | obj vs => simp [hcur] at hadd
        | _ =>
          simp only [hcur, Prod.mk.injEq, ite_eq_left_iff, reduceCtorEq, imp_false,
            Bool.not_eq_true, Bool.not_eq_false] at hadd
          exact ⟨_, if_pos hadd.2, hkept hadd.1⟩

lemma addPairs_cons {kv : String × Json} (h : addPairs base fix (kv :: pairs) fs = (gs, none)) :
    ∃ mid, addPair base fix fs kv.1 kv.2 = (mid, none) ∧
      addPairs base fix pairs mid = (gs, none) := by
  rw [addPairs] at h
  split at h
  · next mid heq => exact ⟨mid, heq, h⟩
  · next mid fault heq => cases h

lemma addPairs_other (hslot : ∀ kv ∈ pairs, compoundSlot? kv.1 = none)
    (h : addPairs base fix pairs fs = (gs, none)) (hk : ∀ kv ∈ pairs, kv.1 ≠ k) :
    get? gs k = get? fs k := by
  induction pairs generalizing fs with
  | nil =>
    cases h
    rfl
  | cons kv rest ih =>
    obtain ⟨mid, hone, hrest⟩ := addPairs_cons h
    obtain ⟨w, -, hget⟩ := addPair_ok (hslot kv (by simp)) hone
    rw [ih (fun x hx => hslot x (by simp [hx])) hrest (fun x hx => hk x (by simp [hx])), hget,
      if_neg (hk kv (by simp))]

/-- The keys of a leaf are added to the object itself, or to the object under the marker. -/
lemma addLeaf_cases (h : addLeaf base pairs fs = (gs, none)) :
    pairs.length ≤ 1 ∧ addPairs base true pairs fs = (gs, none) ∨
    1 < pairs.length ∧ ∃ markers new, (get? fs marker).getD (.obj []) = .obj markers ∧
      addPairs base false pairs markers = (new, none) ∧
      gs = Fields.insert fs marker (.obj new) := by
  unfold addLeaf at h
  split at h
  · next hlength => exact .inl ⟨hlength, h⟩
  · next hlength =>
    refine .inr ⟨by omega, ?_⟩
    split at h
    · next markers hmarkers =>
      obtain ⟨hgs, hfault⟩ := Prod.mk.inj h
      exact ⟨markers, _, hmarkers, Prod.ext rfl hfault, hgs.symm⟩
    · cases h

lemma addLeaf_other (hslot : ∀ kv ∈ pairs, compoundSlot? kv.1 = none)
    (h : addLeaf base pairs fs = (gs, none)) (hk : ∀ kv ∈ pairs, kv.1 ≠ k)
    (hmarker : k ≠ marker ∨ pairs.length ≤ 1) : get? gs k = get? fs k := by
  rcases addLeaf_cases h with ⟨-, hadd⟩ | ⟨hlength, markers, new, -, -, rfl⟩
  · exact addPairs_other hslot hadd hk
  · exact get?_insert_of_ne (hmarker.resolve_right (by omega)).symm _ _

/-! ## One entry -/

lemma insertAt_obj (h : insertAt base leaf steps (.obj fs) = (v, none)) : ∃ gs, v = .obj gs := by
  cases steps with
  | nil => exact ⟨_, (congrArg Prod.fst h).symm⟩
  | cons s rest =>
    cases s with
    | and | or => exact ⟨_, (congrArg Prod.fst h).symm⟩
    | position p => cases h

lemma enterOne_here [Leaf α] (h : enterOne base fs ([], a) = some gs) : addLeaf base (Leaf.pairs a)
      (if (Leaf.pairs a).length ≤ 1 then seed base fs else fs) = (gs, none) := by
  simp only [enterOne, insertAt, isEmpty_nil, Bool.true_and, decide_eq_true_eq] at h
  split at h
  · next heq =>
    cases h
    simp only [Prod.mk.injEq, Json.obj.injEq] at heq
    exact Prod.ext heq.1 heq.2
  · cases h

lemma enterOne_nil (h : enterOne base fs ([], key, v) = some gs) :
    addPair base true (seed base fs) key v = (gs, none) := by
  have hleaf := enterOne_here h
  rwa [show Leaf.pairs (key, v) = [(key, v)] from rfl, length_singleton,
    if_pos (Nat.le_refl 1), addLeaf_singleton] at hleaf

/-- A base condition gives way, so that it does not matter whether it is there already. -/
lemma merged_or_base (current : Option Json) (v : Json) :
    merged base key (current.or (get? base key)) v = merged base key current v := by
  cases hb : get? base key with
  | none => rw [Option.or_none]
  | some b =>
    have hc : contains base key = true := contains_iff.2 (mem_keys.2 ⟨b, mem_of_get? hb⟩)
    simp only [merged, hc, if_true]

/-- An entry of the object itself changes its own key and adds base conditions. -/
lemma enterOne_leaf (hslot : compoundSlot? key = none)
    (h : enterOne base fs ([], key, v) = some gs) : ∃ w, merged base key (get? fs key) v = some w ∧
      ∀ k, get? gs k = if key = k then some w else (get? fs k).or (get? base k) := by
  obtain ⟨w, hw, hget⟩ := addPair_ok hslot (enterOne_nil h)
  rw [get?_seed, merged_or_base] at hw
  exact ⟨w, hw, fun k => by rw [hget, get?_seed]⟩

/-- An entry further down changes the key that its first step leads into. -/
lemma enterOne_branch [Leaf α] {rest : List IndexStep}
    (h : enterOne base fs (s :: rest, a) = some gs) : ∃ key v, s.key? = some key ∧
      insertAt base (addLeaf base (Leaf.pairs a)) rest ((get? fs key).getD (.arr s.fresh)) =
        (v, none) ∧
      gs = Fields.insert fs key v := by
  simp only [enterOne, isEmpty_cons, Bool.false_and, Bool.false_eq_true, if_false] at h
  split at h
  · next heq =>
    cases h
    cases s with
    | and | or =>
      simp only [insertAt, Prod.mk.injEq, Json.obj.injEq] at heq
      exact ⟨_, _, rfl, Prod.ext rfl heq.2, heq.1.symm⟩
    | position p => cases heq
  · cases h

/-- Entering the keys of a leaf into the entries is entering the leaf below their root. -/
lemma insert_ok [Leaf α] {e e' : IndexEntries} (h : e.insert steps (Leaf.pairs a) = (e', none)) :
    e'.baseFind = e.baseFind ∧ enterOne e.baseFind e.root (steps, a) = some e'.root := by
  unfold IndexEntries.insert at h
  unfold enterOne Fields.seed
  dsimp only at h ⊢
  split at h
  · next root f heq =>
    injection h with he hf
    subst hf he
    exact ⟨rfl, by rw [heq]⟩
  · next v f hnot heq =>
    -- entering below an object gives an object
    injection h with he hf
    subst hf
    obtain ⟨fs, hfs⟩ := insertAt_obj heq
    exact absurd hfs (hnot fs)

/-- The object at a position, or the one that a branch starts from. -/
def branchAt (base : Fields) (p : Nat) (items : List Json) : Json := match (padTo p items)[p]? with
  | some .null | none => .obj base
  | some v => v

lemma insertAt_arr {items : List Json} (h : insertAt base leaf steps (.arr items) = (v, none)) :
    ∃ p rest w, steps = .position p :: rest ∧
      insertAt base leaf rest (branchAt base p items) = (w, none) ∧
      v = .arr ((padTo p items).set p w) := by
  cases steps with
  | nil => cases h
  | cons s rest =>
    cases s with
    | and | or => cases h
    | position p =>
      simp only [insertAt, Prod.mk.injEq] at h
      exact ⟨p, rest, _, rfl, Prod.ext rfl h.2, h.1.symm⟩

lemma getElem?_padTo (p q : Nat) (items : List Json) : (padTo p items)[q]? =
      if q < items.length then items[q]? else if q ≤ p then some .null else none := by
  unfold padTo
  rw [getElem?_append]
  split
  · rfl
  · rw [getElem?_replicate]
    congr 1
    simp only [eq_iff_iff]
    omega

lemma length_padTo (p : Nat) (items : List Json) :
    (padTo p items).length = max items.length (p + 1) := by
  simp only [padTo, length_append, length_replicate]
  omega

lemma nodup_addPair (base : Fields) (hfs : (keys fs).Nodup) (key : String) (v : Json) :
    (keys (addPair base true fs key v).1).Nodup := by
  have hfresh : (keys (addCompound (Fields.insert fs key v) key)).Nodup := by
    unfold addCompound
    split
    · exact nodup_insert (nodup_insert hfs key v) _ _
    · exact nodup_insert hfs key v
  simp only [addPair, if_true]
  split
  · exact hfresh
  · split
    · exact hfresh
    · exact nodup_insert hfs key _
    all_goals exact hfs

lemma nodup_addPairs (hfs : (keys fs).Nodup) : (keys (addPairs base true pairs fs).1).Nodup := by
  induction pairs generalizing fs with
  | nil => exact hfs
  | cons f rest ih =>
    obtain ⟨key, v⟩ := f
    have hadd := nodup_addPair base hfs key v
    rw [addPairs]
    split
    · next gs heq =>
      rw [heq] at hadd
      exact ih hadd
    · next gs fault heq =>
      rw [heq] at hadd
      exact hadd

section

variable {α : Type} [Leaf α]

variable {gs base fs : Fields} {key k : String} {items : List Json} {e : Placed α}
  {entries : List (Placed α)} {p width : Nat} {a : α}

lemma nodup_enterOne (hfs : (keys fs).Nodup) (h : enterOne base fs e = some gs) :
    (keys gs).Nodup := by
  obtain ⟨steps, a⟩ := e
  cases steps with
  | nil =>
    have hstart : (keys (if (Leaf.pairs a).length ≤ 1 then seed base fs else fs)).Nodup := by
      split
      · exact nodup_seed hfs base
      · exact hfs
    rcases addLeaf_cases (enterOne_here h) with ⟨-, hadd⟩ | ⟨-, markers, new, -, -, rfl⟩
    · have hgs : (addPairs base true (Leaf.pairs a) _).1 = gs := congrArg Prod.fst hadd
      exact hgs ▸ nodup_addPairs hstart
    · exact nodup_insert hstart marker _
  | cons s rest =>
    obtain ⟨key, v, -, -, rfl⟩ := enterOne_branch h
    exact nodup_insert hfs key v

lemma enterAll_induction {P : Fields → Prop}
    (step : ∀ e ∈ entries, ∀ {fs gs}, P fs → enterOne base fs e = some gs → P gs) (hfs : P fs)
    (h : enterAll base fs entries = some gs) : P gs := by
  induction entries generalizing fs with
  | nil =>
    cases h
    exact hfs
  | cons e rest ih =>
    obtain ⟨hfirst, hrest⟩ := forall_mem_cons.1 step
    obtain ⟨mid, hone, hmore⟩ := Option.bind_eq_some_iff.1 h
    exact ih hrest (hfirst hfs hone) hmore

lemma nodup_enterAll (hfs : (keys fs).Nodup) (h : enterAll base fs entries = some gs) :
    (keys gs).Nodup :=
  enterAll_induction (fun _ _ => nodup_enterOne) hfs h

/-! ## Branches -/

/-- What stands at a position of `$and` or `$or`: what its entries make of the base conditions,
and nothing without entries. -/
inductive Branch (base : Fields) : List (Placed α) → Option Json → Prop where
  | missing : Branch base [] none
  | gap : Branch base [] (some .null)
  | entered {entries : List (Placed α)} {gs : Fields} (hne : entries ≠ [])
      (h : enterAll base base entries = some gs) : Branch base entries (some (.obj gs))

/-- What the entries make of `$and` or `$or`. -/
def Branches (base : Fields) (key : String) (entries : List (Placed α)) : Option Json → Prop
  | none => ∀ p, inBranch key p entries = []
  | some v => ∃ items, v = .arr items ∧ (∃ p, inBranch key p entries ≠ []) ∧
    ∀ p, Branch base (inBranch key p entries) items[p]?

/-- No key goes below a custom index slot. -/
def Slotless (entries : List (Placed α)) : Prop :=
  ∀ e ∈ entries, ∀ kv ∈ Leaf.pairs e.2, compoundSlot? kv.1 = none

/-- No leaf is entered under the key. -/
def Avoids (key : String) (entries : List (Placed α)) : Prop :=
  ∀ e ∈ entries, ∀ kv ∈ Leaf.pairs e.2, kv.1 ≠ key

lemma Slotless.inBranch (h : Slotless entries) (key : String) (p : Nat) :
    Slotless (inBranch key p entries) := by
  intro e he
  obtain ⟨s, -, hmem⟩ := exists_of_mem_inBranch he
  exact h (s :: .position p :: e.1, e.2) hmem

lemma addPairs_keeps (hslot : ∀ kv ∈ pairs, compoundSlot? kv.1 = none)
    (h : addPairs base fix pairs fs = (gs, none)) (hk : k ∈ keys fs) : k ∈ keys gs := by
  induction pairs generalizing fs with
  | nil =>
    cases h
    exact hk
  | cons kv rest ih =>
    obtain ⟨mid, hone, hrest⟩ := addPairs_cons h
    obtain ⟨w, -, hget⟩ := addPair_ok (hslot kv (by simp)) hone
    refine ih (fun x hx => hslot x (by simp [hx])) hrest ?_
    rw [← not_not (a := k ∈ keys fs), ← get?_eq_none_iff] at hk
    rw [← not_not (a := k ∈ keys mid), ← get?_eq_none_iff, hget]
    split
    · simp
    · exact hk

lemma enterOne_keeps (hslot : ∀ kv ∈ Leaf.pairs e.2, compoundSlot? kv.1 = none)
    (h : enterOne base fs e = some gs) (hk : k ∈ keys fs) : k ∈ keys gs := by
  obtain ⟨steps, a⟩ := e
  cases steps with
  | nil =>
    have hstart : k ∈ keys (if (Leaf.pairs a).length ≤ 1 then seed base fs else fs) := by
      split
      · rw [← not_not (a := k ∈ keys fs), ← get?_eq_none_iff] at hk
        rw [← not_not (a := k ∈ keys (seed base fs)), ← get?_eq_none_iff, get?_seed]
        simp [hk]
      · exact hk
    rcases addLeaf_cases (enterOne_here h) with ⟨-, hadd⟩ | ⟨-, markers, new, -, -, rfl⟩
    · exact addPairs_keeps hslot hadd hstart
    · exact mem_keys_insert.2 (.inr hstart)
  | cons s rest =>
    obtain ⟨key', v', -, -, rfl⟩ := enterOne_branch h
    exact mem_keys_insert.2 (.inr hk)

lemma enterAll_keeps (hslot : Slotless entries) (h : enterAll base fs entries = some gs)
    (hk : k ∈ keys fs) : k ∈ keys gs :=
  enterAll_induction (fun e he _ _ hk hone => enterOne_keeps (hslot e he) hone hk) hk h

lemma Branch.eq_nil (h : Branch base entries none) : entries = [] := by
  cases h
  rfl

lemma Branch.exists_obj {v : Option Json} (h : Branch base entries v) (hne : entries ≠ []) :
    ∃ gs, v = some (.obj gs) ∧ enterAll base base entries = some gs := by
  cases h with
  | missing => exact absurd rfl hne
  | gap => exact absurd rfl hne
  | entered hne h => exact ⟨_, rfl, h⟩

lemma Branch.cases_some (h : Branch base entries (some v)) : entries = [] ∧ v = .null ∨
      entries ≠ [] ∧ ∃ gs, v = .obj gs ∧ enterAll base base entries = some gs := by
  cases h with
  | gap => exact .inl ⟨rfl, rfl⟩
  | entered hne h => exact .inr ⟨hne, _, rfl, h⟩

lemma branch_set {entries : Nat → List (Placed α)} (hitems : ∀ q, Branch base (entries q) items[q]?)
    (hgs : enterAll base base (entries p ++ [e]) = some gs) (q : Nat) :
    Branch base (entries q ++ if p = q then [e] else []) ((padTo p items).set p (.obj gs))[q]? := by
  have hlen := length_padTo p items
  by_cases hq : p = q
  · subst hq
    rw [if_pos rfl, getElem?_set_self (by omega)]
    exact .entered (by simp) hgs
  · rw [if_neg hq, append_nil, getElem?_set_ne hq, getElem?_padTo]
    split
    · exact hitems q
    · next hlt =>
      have hq := hitems q
      rw [getElem?_eq_none (by omega)] at hq
      rw [hq.eq_nil]
      split
      · exact .gap
      · exact .missing

/-- The object that an entry changes is what the entries before it made of its branch. -/
lemma branchAt_eq (h : Branch base entries items[p]?) :
    ∃ gs, branchAt base p items = .obj gs ∧ enterAll base base entries = some gs := by
  unfold branchAt
  rw [getElem?_padTo]
  cases hp : items[p]? with
  | none =>
    rw [hp] at h
    cases h
    rw [if_neg (by simpa using hp), if_pos (Nat.le_refl p)]
    exact ⟨base, rfl, rfl⟩
  | some v =>
    rw [if_pos (List.getElem?_eq_some_iff.1 hp).1]
    rw [hp] at h
    cases h with
    | gap => exact ⟨base, rfl, rfl⟩
    | entered hne h => exact ⟨_, rfl, h⟩

/-- An entry that goes on into a key, where the key is what earlier entries made of it. -/
lemma branches_step {rest : List IndexStep} (hslot : Slotless entries)
    (hkey : s.key? = some key) (hfs : Branches base key entries (get? fs key))
    (h : enterOne base fs (s :: rest, a) = some gs) :
    Branches base key (entries ++ [(s :: rest, a)]) (get? gs key) := by
  obtain ⟨key', v, hkey', hv, rfl⟩ := enterOne_branch h
  cases hkey.symm.trans hkey'
  -- whatever the key holds so far, it is a list of what its branches hold so far
  obtain ⟨items, hget, hitems⟩ : ∃ items, (get? fs key).getD (.arr s.fresh) = .arr items ∧
      ∀ q, Branch base (inBranch key q entries) items[q]? := by
    cases hcur : get? fs key with
    | none =>
      rw [hcur] at hfs
      refine ⟨s.fresh, rfl, fun q => ?_⟩
      rw [hfs q]
      cases s with
      | or width =>
        rw [IndexStep.fresh, getElem?_replicate]
        split
        · exact .gap
        · exact .missing
      | _ => exact .missing
    | some w =>
      rw [hcur] at hfs
      obtain ⟨items, rfl, -, hitems⟩ := hfs
      exact ⟨items, rfl, hitems⟩
  rw [hget] at hv
  obtain ⟨p, rest', w, rfl, hw, rfl⟩ := insertAt_arr hv
  obtain ⟨fs', hbranch, hfs'⟩ := branchAt_eq (hitems p)
  rw [hbranch] at hw
  obtain ⟨gs', rfl⟩ := insertAt_obj hw
  have hseed : seed base fs' = fs' :=
    seed_eq_self fun k hk => enterAll_keeps (hslot.inBranch key p) hfs' hk
  have hone : enterOne base fs' (rest', a) = some gs' := by
    simp only [enterOne, hseed, ite_self, hw]
  have hall := enterAll_append_singleton.2 ⟨fs', hfs', hone⟩
  rw [get?_insert_self]
  refine ⟨_, rfl, ⟨p, ?_⟩, fun q => ?_⟩
  · rw [inBranch_append, inBranch_step, if_pos ⟨hkey, rfl⟩]
    simp
  · have hset := branch_set hitems hall q
    rw [inBranch_append, inBranch_step]
    simpa only [hkey, true_and] using hset

lemma Branches.congr {xs ys : List (Placed α)} {v : Option Json}
    (h : ∀ p, inBranch key p xs = inBranch key p ys) (hv : Branches base key xs v) :
    Branches base key ys v := by
  cases v with
  | none => exact fun p => (h p).symm.trans (hv p)
  | some v =>
    obtain ⟨items, rfl, ⟨p, hp⟩, hitems⟩ := hv
    exact ⟨items, rfl, ⟨p, h p ▸ hp⟩, fun q => h q ▸ hitems q⟩

/-- An entry of the object itself leaves the keys that it does not name. -/
lemma enterOne_other (hslot : ∀ kv ∈ Leaf.pairs a, compoundSlot? kv.1 = none)
    (h : enterOne base fs ([], a) = some gs) (hk : ∀ kv ∈ Leaf.pairs a, kv.1 ≠ k)
    (hmarker : k ≠ marker) (hbase : get? base k = none) : get? gs k = get? fs k := by
  rw [addLeaf_other hslot (enterOne_here h) hk (.inl hmarker)]
  split
  · rw [get?_seed, hbase, Option.or_none]
  · rfl

/-- **One entry keeps the branches of a key what their entries make of them**, whether it goes
into one of them or stands elsewhere. -/
lemma enterOne_branches (hslot : Slotless (entries ++ [e])) (hbase : get? base key = none)
    (hmarker : key ≠ marker) (hkey : Avoids key [e]) (hfs : Branches base key entries (get? fs key))
    (h : enterOne base fs e = some gs) : Branches base key (entries ++ [e]) (get? gs key) := by
  obtain ⟨steps, a⟩ := e
  cases steps with
  | nil =>
    rw [enterOne_other (hslot ([], a) (by simp)) h (hkey ([], a) (by simp)) hmarker hbase]
    exact hfs.congr fun p => by rw [inBranch_append, inBranch_leaf, append_nil]
  | cons s rest =>
    by_cases hs : s.key? = some key
    · exact branches_step (forall_mem_append.1 hslot).1 hs hfs h
    · obtain ⟨key', v, hkey', -, rfl⟩ := enterOne_branch h
      have hne : key' ≠ key := fun heq => hs (heq ▸ hkey')
      rw [get?_insert_of_ne hne]
      exact hfs.congr fun p => by rw [inBranch_append, inBranch_other hs, append_nil]

/-- **Each branch holds what its own entries make of the base conditions**, in whatever order
the entries of all branches arrive. -/
lemma enterAll_branches (hslot : Slotless entries) (hbase : get? base key = none)
    (hmarker : key ≠ marker) (hkeys : Avoids key entries) (hfs : get? fs key = none)
    (h : enterAll base fs entries = some gs) : Branches base key entries (get? gs key) := by
  induction entries using reverseRecOn generalizing gs with
  | nil =>
    cases h
    rw [hfs]
    exact fun p => rfl
  | append_singleton entries e ih =>
    obtain ⟨mid, hmid, hone⟩ := enterAll_append_singleton.1 h
    obtain ⟨hkeys, hlast⟩ := forall_mem_append.1 hkeys
    have hinit := ih (forall_mem_append.1 hslot).1 hkeys hmid
    exact enterOne_branches hslot hbase hmarker hlast hinit hone

/-- The entries agree on how many branches `$or` has, and stay among them. -/
def HasWidth (width : Nat) (entries : List (Placed α)) : Prop :=
  ∀ e ∈ entries, ∀ w rest, e.1 = .or w :: rest →
    w = width ∧ ∀ p rest', rest = .position p :: rest' → p < width

lemma enterOne_width (hslot : Slotless [e]) (hbase : get? base "$or" = none)
    (hkey : Avoids "$or" [e]) (hwidth : HasWidth width [e])
    (hbranches : Branches base "$or" entries (get? fs "$or"))
    (hfs : ∀ items, get? fs "$or" = some (.arr items) → items.length = width)
    (h : enterOne base fs e = some gs) (hitems : get? gs "$or" = some (.arr items)) :
    items.length = width := by
  obtain ⟨steps, a⟩ := e
  cases steps with
  | nil =>
    rw [enterOne_other (hslot ([], a) (by simp)) h (hkey ([], a) (by simp)) (by decide) hbase]
      at hitems
    exact hfs items hitems
  | cons s rest =>
    obtain ⟨key, v, hs, hv, rfl⟩ := enterOne_branch h
    cases s with
    | or w =>
      cases hs
      obtain ⟨rfl, hp⟩ := hwidth (.or w :: rest, a) (by simp) w rest rfl
      obtain ⟨old, hold, hlen⟩ : ∃ old, (get? fs "$or").getD (.arr (IndexStep.or w).fresh) =
          .arr old ∧ old.length = w := by
        cases hcur : get? fs "$or" with
        | none => exact ⟨_, rfl, length_replicate⟩
        | some u =>
          rw [hcur] at hbranches
          obtain ⟨old, rfl, -, -⟩ := hbranches
          exact ⟨old, rfl, hfs old hcur⟩
      rw [hold] at hv
      obtain ⟨p, rest', u, rfl, -, rfl⟩ := insertAt_arr hv
      rw [get?_insert_self] at hitems
      cases hitems
      have hlt := hp p rest' rfl
      rw [length_set, length_padTo]
      omega
    | and =>
      cases hs
      rw [get?_insert_of_ne (by decide)] at hitems
      exact hfs items hitems
    | position p => cases hs

/-- An `$or` has a place for every branch, entered or not. -/
lemma enterAll_width (hslot : Slotless entries) (hbase : get? base "$or" = none)
    (hkeys : Avoids "$or" entries) (hwidth : HasWidth width entries) (hfs : get? fs "$or" = none)
    (h : enterAll base fs entries = some gs) (hitems : get? gs "$or" = some (.arr items)) :
    items.length = width := by
  induction entries using reverseRecOn generalizing gs items with
  | nil =>
    cases h
    rw [hfs] at hitems
    cases hitems
  | append_singleton entries e ih =>
    obtain ⟨mid, hmid, hone⟩ := enterAll_append_singleton.1 h
    obtain ⟨hslot, hslotLast⟩ := forall_mem_append.1 hslot
    obtain ⟨hkeys, hkeysLast⟩ := forall_mem_append.1 hkeys
    obtain ⟨hwidth, hwidthLast⟩ := forall_mem_append.1 hwidth
    have hbranches := enterAll_branches hslot hbase (by decide) hkeys hfs hmid
    exact enterOne_width hslotLast hbase hkeysLast hwidthLast hbranches
      (fun _ => ih hslot hkeys hwidth hmid) hone hitems

end

/-! ## Keys -/

/-- What values make of the one that a key has at first. -/
def mergedAll (base : Fields) (key : String) (current : Option Json) (vs : List Json) :
    Option (Option Json) :=
  vs.foldlM (fun current v => (merged base key current v).map some) current

lemma mergedAll_append_singleton : mergedAll base key current (vs ++ [v]) = some last ↔
      ∃ mid w, mergedAll base key current vs = some mid ∧ merged base key mid v = some w ∧
        last = some w := by
  simp [mergedAll, foldlM_append, Option.bind_eq_some_iff, eq_comm (a := last)]

lemma mergedAll_eq_some (hvs : vs ≠ []) (h : mergedAll base key current vs = some last) :
    ∃ w, last = some w := by
  rcases eq_nil_or_concat vs with rfl | ⟨init, v, rfl⟩
  · exact absurd rfl hvs
  · rw [concat_eq_append] at h
    obtain ⟨-, w, -, -, hw⟩ := mergedAll_append_singleton.1 h
    exact ⟨w, hw⟩

lemma mergedAll_base (hkey : contains base key = true) (hvs : vs ≠ [])
    (h : mergedAll base key current vs = some last) : last = vs.getLast? := by
  rcases eq_nil_or_concat vs with rfl | ⟨init, v, rfl⟩
  · exact absurd rfl hvs
  · rw [concat_eq_append] at h ⊢
    obtain ⟨mid, w, -, hw, hlast⟩ := mergedAll_append_singleton.1 h
    simp only [merged, hkey, if_true] at hw
    rw [getLast?_concat, hlast, hw]

/-- The last of several objects that has a key. -/
def lastOf (k : String) (gs : List Fields) : Option Json :=
  gs.foldl (fun found g => (get? g k).or found) none

lemma lastOf_append_singleton (k : String) (gs : List Fields) (g : Fields) :
    lastOf k (gs ++ [g]) = (get? g k).or (lastOf k gs) := by
  simp [lastOf]

/-- Objects that are entered for a key make one object, in which later ones win. -/
lemma mergedAll_objects {gs : List Fields} (hkey : contains base key = false)
    (hgs : ∀ g ∈ gs, (keys g).Nodup) (hne : gs ≠ [])
    (h : mergedAll base key none (gs.map Json.obj) = some last) :
    ∃ fs, last = some (.obj fs) ∧ (keys fs).Nodup ∧ ∀ k, get? fs k = lastOf k gs := by
  induction gs using reverseRecOn generalizing last with
  | nil => exact absurd rfl hne
  | append_singleton gs g ih =>
    rw [map_append, map_singleton] at h
    obtain ⟨mid, w, hmid, hw, rfl⟩ := mergedAll_append_singleton.1 h
    have hg := hgs g (by simp)
    simp only [merged, hkey, Bool.false_eq_true, if_false] at hw
    by_cases hempty : gs = []
    · subst hempty
      cases hmid
      cases hw
      exact ⟨g, rfl, hg, fun k => by simp [lastOf]⟩
    · obtain ⟨fs, rfl, hfs, hget⟩ := ih (fun x hx => hgs x (by simp [hx])) hempty hmid
      cases hw
      refine ⟨extend fs g, rfl, nodup_extend hfs g, fun k => ?_⟩
      rw [get?_extend fs hg, lastOf_append_singleton, hget]

/-- A value that is entered again and again stays as it is, if it absorbs itself. -/
lemma mergedAll_same (hkey : contains base key = false)
    (hv : ∀ fs, v = .obj fs → extend fs fs = fs) (hvs : ∀ w ∈ vs, w = v) (hne : vs ≠ [])
    (h : mergedAll base key none vs = some last) : last = some v := by
  induction vs using reverseRecOn generalizing last with
  | nil => exact absurd rfl hne
  | append_singleton vs w ih =>
    obtain ⟨mid, u, hmid, hu, rfl⟩ := mergedAll_append_singleton.1 h
    obtain rfl := hvs w (by simp)
    simp only [merged, hkey, Bool.false_eq_true, if_false] at hu
    by_cases hempty : vs = []
    · subst hempty
      cases hmid
      exact congrArg some (Option.some.inj hu).symm
    · obtain rfl := ih (fun x hx => hvs x (by simp [hx])) hempty hmid
      cases w with
      | obj fs =>
        cases hu
        rw [hv fs rfl]
      | _ =>
        simp only [Option.ite_none_right_eq_some, Option.some.injEq] at hu
        rw [← hu.2]

lemma valuesAt_append (key : String) (xs ys : List Entry) :
    valuesAt key (xs ++ ys) = valuesAt key xs ++ valuesAt key ys := filterMap_append

lemma valuesAt_leaf (key k : String) (v : Json) :
    valuesAt k [([], key, v)] = if key = k then [v] else [] := by
  by_cases h : key = k <;> simp [valuesAt, h]

lemma valuesAt_step (k : String) (s : IndexStep) (rest : List IndexStep) (kv : String × Json) :
    valuesAt k [(s :: rest, kv)] = [] := rfl

/-- Whether a leaf adds base conditions to the object itself. -/
def seeds {α : Type} [Leaf α] (e : Placed α) : Bool := e.1.isEmpty && (Leaf.pairs e.2).length ≤ 1

/-- A key that no leaf names is what it was, or has its base condition once a leaf is entered. -/
lemma enterAll_seeded [Leaf α] {entries : List (Placed α)} (hslot : Slotless entries)
    (hand : k ≠ "$and") (hor : k ≠ "$or")
    (hmarker : k ≠ marker ∨ ∀ e ∈ entries, (Leaf.pairs e.2).length ≤ 1)
    (hother : ∀ e ∈ entries, e.1 = [] → ∀ kv ∈ Leaf.pairs e.2, kv.1 ≠ k)
    (h : enterAll base fs entries = some gs) :
    get? gs k = if entries.any seeds then (get? fs k).or (get? base k) else get? fs k := by
  induction entries using reverseRecOn generalizing gs with
  | nil =>
    cases h
    rfl
  | append_singleton entries e ih =>
    obtain ⟨mid, hmid, hone⟩ := enterAll_append_singleton.1 h
    have hinit := ih (forall_mem_append.1 hslot).1
      (hmarker.imp_right fun hall => (forall_mem_append.1 hall).1) (forall_mem_append.1 hother).1 hmid
    obtain ⟨steps, a⟩ := e
    cases steps with
    | nil =>
      have hleaf := addLeaf_other (hslot ([], a) (by simp)) (enterOne_here hone)
        (hother ([], a) (by simp) rfl) (hmarker.imp_right fun hall => hall ([], a) (by simp))
      rw [hleaf, any_append]
      by_cases hlength : (Leaf.pairs a).length ≤ 1
      · have hseeds : ([([], a)] : List (Placed α)).any seeds = true := by simp [seeds, hlength]
        rw [if_pos hlength, get?_seed, hinit, hseeds, Bool.or_true, if_pos rfl]
        split
        · cases get? fs k <;> cases get? base k <;> rfl
        · rfl
      · have hseeds : ([([], a)] : List (Placed α)).any seeds = false := by simp [seeds, hlength]
        rw [if_neg hlength, hinit, hseeds, Bool.or_false]
    | cons s rest =>
      obtain ⟨key', v', hkey', -, rfl⟩ := enterOne_branch hone
      have hseeds : ([(s :: rest, a)] : List (Placed α)).any seeds = false := by simp [seeds]
      rw [get?_insert_of_ne (IndexStep.key?_ne hkey' hand hor), hinit, any_append, hseeds,
        Bool.or_false]

/-- Whether some entry is one of the object itself. -/
def hasLeaf (entries : List Entry) : Bool := entries.any fun e => e.1.isEmpty

/-- A key without entries is what it was, or has its base condition once a leaf is entered. -/
lemma enterAll_untouched (hslot : Slotless entries) (hand : k ≠ "$and") (hor : k ≠ "$or")
    (hvalues : valuesAt k entries = []) (h : enterAll base fs entries = some gs) :
    get? gs k = if hasLeaf entries then (get? fs k).or (get? base k) else get? fs k := by
  have hseeds : entries.any seeds = hasLeaf entries := by
    refine congrArg entries.any (funext fun e => ?_)
    exact Bool.and_true _
  have hother : ∀ e ∈ entries, e.1 = [] → ∀ kv ∈ Leaf.pairs e.2, kv.1 ≠ k := by
    intro e he hsteps kv hkv heq
    rw [mem_singleton.1 hkv] at heq
    have hmem : e.2.2 ∈ valuesAt k entries :=
      mem_filterMap.2 ⟨e, he, if_pos ⟨by rw [hsteps]; rfl, heq⟩⟩
    exact ne_nil_of_mem hmem hvalues
  rw [enterAll_seeded hslot hand hor (.inr fun e _ => Nat.le_refl 1) hother h, hseeds]

/-- **A key holds what its own values make of it**, whatever else is entered between them. -/
lemma enterAll_values (hslot : Slotless entries) (hand : k ≠ "$and") (hor : k ≠ "$or")
    (hvalues : valuesAt k entries ≠ []) (h : enterAll base fs entries = some gs) :
    mergedAll base k (get? fs k) (valuesAt k entries) = some (get? gs k) := by
  induction entries using reverseRecOn generalizing gs with
  | nil => exact absurd rfl hvalues
  | append_singleton entries e ih =>
    obtain ⟨mid, hmid, hone⟩ := enterAll_append_singleton.1 h
    have hslot' := (forall_mem_append.1 hslot).1
    obtain ⟨steps, key, v⟩ := e
    rw [valuesAt_append] at hvalues ⊢
    cases steps with
    | nil =>
      have hkeyslot := hslot ([], key, v) (by simp) (key, v) (by simp [Leaf.pairs])
      obtain ⟨w, hw, hget⟩ := enterOne_leaf hkeyslot hone
      rw [valuesAt_leaf] at hvalues ⊢
      by_cases hk : key = k
      · subst hk
        rw [if_pos rfl, mergedAll_append_singleton]
        rw [hget, if_pos rfl]
        by_cases hempty : valuesAt key entries = []
        · -- the first value of the key meets what was there, or its base condition
          refine ⟨get? fs key, w, by rw [hempty]; rfl, ?_, rfl⟩
          rw [enterAll_untouched hslot' hand hor hempty hmid] at hw
          split at hw
          · rwa [merged_or_base] at hw
          · exact hw
        · exact ⟨get? mid key, w, ih hslot' hempty hmid, hw, rfl⟩
      · rw [if_neg hk, append_nil] at hvalues ⊢
        have hinit := ih hslot' hvalues hmid
        obtain ⟨u, hu⟩ := mergedAll_eq_some hvalues hinit
        rw [hget, if_neg hk, hinit, hu, Option.some_or]
    | cons s rest =>
      obtain ⟨key', v', hkey', -, rfl⟩ := enterOne_branch hone
      have hne : key' ≠ k := IndexStep.key?_ne hkey' hand hor
      rw [valuesAt_step, append_nil] at hvalues ⊢
      rw [get?_insert_of_ne hne, ih hslot' hvalues hmid]

end IndexEntries

end Conduit
