import Conduit.Proofs.IndexFinish

/-!
# The keys of a query

What keys a query may have, at any depth, and where.  A query is a tree: its objects hold
conditions on fields, and lists of further objects under `$and` and `$or`.  The tree of index
entries may also have gaps and markers while leaves are entered; pruning closes the gaps and
expanding resolves the markers (`finish_tree`).

Everything here is about an arbitrary set `p` of keys that the values of fields may have.
-/

namespace Conduit

open List

namespace Path

lemma isOperator_iff {key : String} : isOperator key = true ↔ key.toList.head? = some '$' := by
  rw [isOperator, String.startsWith_string_iff]
  cases key.toList with
  | nil => decide
  | cons c rest => simp [eq_comm]

/-- A text before a key decides whether it is an operator. -/
lemma isOperator_append_of_ne {a b : String} (ha : a.toList ≠ []) :
    isOperator (a ++ b) = isOperator a := by
  rw [Bool.eq_iff_iff, isOperator_iff, isOperator_iff, String.toList_append]
  cases h : a.toList with
  | nil => exact absurd h ha
  | cons c rest => rfl

lemma isOperator_property (path : String) : isOperator (property path) = false := by
  have hjoin : ∀ parts : List String, (∀ s ∈ parts, namesProperty s = true) →
      isOperator (join parts) = false := by
    intro parts hparts
    cases parts with
    | nil => decide +kernel
    | cons s rest =>
      have hs : namesProperty s = true := hparts s mem_cons_self
      simp only [namesProperty, Bool.and_eq_true, Bool.not_eq_true'] at hs
      have hne : s.toList ≠ [] := by simpa using hs.1.1
      cases rest with
      | nil => exact hs.1.2
      | cons t rest =>
        rw [join, String.intercalate_cons_cons, String.append_assoc, isOperator_append_of_ne hne]
        exact hs.1.2
  exact hjoin _ fun s hs => (mem_filter.1 hs).2

end Path

namespace Json

mutual

/-- The keys of the objects in a value, at any depth. -/
def nestedKeys : Json → List String
  | .obj fs => nestedKeysFields fs
  | .arr items => nestedKeysItems items
  | _ => []

def nestedKeysItems : List Json → List String
  | [] => []
  | v :: rest => nestedKeys v ++ nestedKeysItems rest

def nestedKeysFields : Fields → List String
  | [] => []
  | (key, v) :: rest => key :: nestedKeys v ++ nestedKeysFields rest

end

/-- Whether all keys in a value, at any depth, are of some kind. -/
def KeysAre (p : String → Prop) (v : Json) : Prop := ∀ key ∈ v.nestedKeys, p key

variable {p q : String → Prop} {fs : Fields} {items : List Json}

lemma keysAre_obj : KeysAre p (.obj fs) ↔ ∀ f ∈ fs, p f.1 ∧ KeysAre p f.2 := by
  show (∀ key ∈ nestedKeysFields fs, p key) ↔ _
  induction fs with
  | nil => simp [nestedKeysFields]
  | cons f rest ih =>
    simp only [nestedKeysFields, cons_append, forall_mem_cons, forall_mem_append, ih, and_assoc]
    rfl

lemma keysAre_arr : KeysAre p (.arr items) ↔ ∀ v ∈ items, KeysAre p v := by
  show (∀ key ∈ nestedKeysItems items, p key) ↔ _
  induction items with
  | nil => simp [nestedKeysItems]
  | cons v rest ih =>
    simp only [nestedKeysItems, forall_mem_append, ih, forall_mem_cons]
    rfl

variable {v : Json}

lemma KeysAre.mono (h : KeysAre p v) (hpq : ∀ key, p key → q key) : KeysAre q v :=
  fun key hkey => hpq key (h key hkey)

lemma keysAre_scalar (harr : v.isArr = false) (hobj : v.isObj = false) : KeysAre p v := by
  cases v with
  | arr items => cases harr
  | obj fs => cases hobj
  | _ => exact nofun

lemma keysAre_singleton {key : String} : KeysAre p (.obj [(key, v)]) ↔ p key ∧ KeysAre p v := by
  rw [keysAre_obj, forall_mem_singleton]

lemma sizeOf_field_lt {f : String × Json} (hf : f ∈ fs) : sizeOf f.2 < sizeOf (obj fs) := by
  have := sizeOf_lt_of_mem hf
  rcases f with ⟨k, v⟩
  simp only [obj.sizeOf_spec, Prod.mk.sizeOf_spec] at *
  omega

lemma sizeOf_item_lt (hv : v ∈ items) : sizeOf v < sizeOf (arr items) := by
  have := sizeOf_lt_of_mem hv
  simp only [arr.sizeOf_spec]
  omega

lemma mentions_of_keysAre {ks : List String} (hp : ∀ key ∈ ks, ¬p key) :
    ∀ v, KeysAre p v → mentions ks v = false
  | .obj fs, h => mentions_obj.2 fun f hf =>
    have hf' := keysAre_obj.1 h f hf
    ⟨fun hmem => hp f.1 hmem hf'.1, mentions_of_keysAre hp f.2 hf'.2⟩
  | .arr items, h => mentions_arr.2 fun v hv =>
    mentions_of_keysAre hp v (keysAre_arr.1 h v hv)
  | .null, _ | .bool _, _ | .int _, _ | .double _, _ | .str _, _ => rfl
termination_by v => sizeOf v
decreasing_by exacts [sizeOf_field_lt hf, sizeOf_item_lt hv]

end Json

namespace IndexEntries

open Fields Json

/-! ## Trees of conditions -/

/-- A condition on a field: no operator, and a value with the right keys. -/
def OnField (p : String → Prop) (key : String) (v : Json) : Prop :=
  Path.isOperator key = false ∧ KeysAre p v

/-- The keys of a leaf that is stored under several. -/
def Marked (p : String → Prop) (v : Json) : Prop :=
  ∃ markers, v = .obj markers ∧ markers ≠ [] ∧ ∀ m ∈ markers, OnField p m.1 m.2

mutual

/-- A tree of conditions.  While leaves are entered, branches may still be missing if `gaps`, and
leaves may stand under markers if `marks`. -/
def Tree (gaps marks : Bool) (p : String → Prop) : Json → Prop
  | .obj fs => (marks = true → (keys fs).Nodup) ∧ TreeFields gaps marks p fs
  | .null => gaps = true
  | _ => False

def TreeFields (gaps marks : Bool) (p : String → Prop) : Fields → Prop
  | [] => True
  | (key, v) :: rest =>
    (OnField p key v ∨ (key = "$and" ∨ key = "$or") ∧ TreeList gaps marks p v ∨
      marks = true ∧ key = marker ∧ Marked p v) ∧ TreeFields gaps marks p rest

def TreeList (gaps marks : Bool) (p : String → Prop) : Json → Prop
  | .arr items => items ≠ [] ∧ TreeItems gaps marks p items
  | _ => False

def TreeItems (gaps marks : Bool) (p : String → Prop) : List Json → Prop
  | [] => True
  | v :: rest => Tree gaps marks p v ∧ TreeItems gaps marks p rest

end

variable {p : String → Prop} {gaps marks : Bool}

/-- What may stand under a key of a tree. -/
def Member (gaps marks : Bool) (p : String → Prop) (key : String) (v : Json) : Prop :=
  OnField p key v ∨ (key = "$and" ∨ key = "$or") ∧ TreeList gaps marks p v ∨
    marks = true ∧ key = marker ∧ Marked p v

variable {fs : Fields} {items : List Json} {v : Json} {key : String} {pairs : Fields}
  {P : String → Json → Prop}

lemma treeFields_iff : TreeFields gaps marks p fs ↔ ∀ f ∈ fs, Member gaps marks p f.1 f.2 := by
  induction fs with
  | nil => simp [TreeFields]
  | cons f rest ih => simp [TreeFields, Member, ih]

lemma treeItems_iff : TreeItems gaps marks p items ↔ ∀ v ∈ items, Tree gaps marks p v := by
  induction items with
  | nil => simp [TreeItems]
  | cons v rest ih => simp [TreeItems, ih]

lemma tree_obj : Tree gaps marks p (.obj fs) ↔
    (marks = true → (keys fs).Nodup) ∧ ∀ f ∈ fs, Member gaps marks p f.1 f.2 := by
  rw [Tree, treeFields_iff]

lemma tree_unmarked : Tree gaps false p (.obj fs) ↔ ∀ f ∈ fs, Member gaps false p f.1 f.2 := by
  simp [tree_obj]

lemma treeList_arr : TreeList gaps marks p (.arr items) ↔
    items ≠ [] ∧ ∀ v ∈ items, Tree gaps marks p v := by
  rw [TreeList, treeItems_iff]

lemma TreeList.exists_arr (h : TreeList gaps marks p v) :
    ∃ items, v = .arr items ∧ items ≠ [] ∧ ∀ x ∈ items, Tree gaps marks p x := by
  cases v with
  | arr items => exact ⟨items, rfl, treeList_arr.1 h⟩
  | _ => exact False.elim h

lemma Tree.exists_obj (h : Tree false marks p v) : ∃ fs, v = .obj fs := by
  cases v with
  | obj fs => exact ⟨fs, rfl⟩
  | null => cases h
  | _ => exact False.elim h

lemma Member.list (h : Member gaps marks p key v) (hkey : key = "$and" ∨ key = "$or") :
    TreeList gaps marks p v := by
  rcases h with ⟨hop, -⟩ | ⟨-, h⟩ | ⟨-, hmarker, -⟩
  · rcases hkey with rfl | rfl
    · exact absurd hop (by decide +kernel)
    · exact absurd hop (by decide +kernel)
  · exact h
  · rcases hkey with rfl | rfl <;> exact absurd hmarker (by decide)

lemma Member.onField (h : Member gaps marks p key v) (hkey : Path.isOperator key = false) :
    OnField p key v := by
  rcases h with h | ⟨hlogic, -⟩ | ⟨-, rfl, -⟩
  · exact h
  · rcases hlogic with rfl | rfl <;> exact absurd hkey (by decide +kernel)
  · exact absurd hkey (by decide +kernel)

lemma Member.marked (h : Member gaps marks p marker v) : Marked p v := by
  rcases h with ⟨hop, -⟩ | ⟨hlogic, -⟩ | ⟨-, -, h⟩
  · exact absurd hop (by decide +kernel)
  · rcases hlogic with h | h <;> exact absurd h (by decide)
  · exact h

lemma ne_marker_of_field (h : Path.isOperator key = false) : key ≠ marker := by
  rintro rfl
  exact absurd h (by decide +kernel)

/-! ## Fields that stay in a tree -/

lemma forall_mem_insert (hfs : ∀ f ∈ fs, P f.1 f.2) (hv : P key v) :
    ∀ f ∈ Fields.insert fs key v, P f.1 f.2 := by
  intro f hf
  rcases mem_of_mem_insert hf with rfl | hf
  · exact hv
  · exact hfs f hf

lemma forall_mem_extend {new : Fields} (hfs : ∀ f ∈ fs, P f.1 f.2) (hnew : ∀ f ∈ new, P f.1 f.2) :
    ∀ f ∈ extend fs new, P f.1 f.2 :=
  fun f hf => (mem_of_mem_extend hf).elim (hnew f) (hfs f)

lemma forall_mem_seed {base : Fields} (hbase : ∀ f ∈ base, P f.1 f.2)
    (hfs : ∀ f ∈ fs, P f.1 f.2) : ∀ f ∈ seed base fs, P f.1 f.2 :=
  fun f hf => (mem_of_mem_seed hf).elim (hbase f) (hfs f)

lemma keysAre_insert (hfs : KeysAre p (.obj fs)) (hkey : p key) (hv : KeysAre p v) :
    KeysAre p (.obj (Fields.insert fs key v)) :=
  keysAre_obj.2 (forall_mem_insert (P := fun k w => p k ∧ KeysAre p w) (keysAre_obj.1 hfs)
    ⟨hkey, hv⟩)

/-- What the keys of values must allow for. -/
structure Fits (p : String → Prop) (base : Fields) : Prop where
  noMarker : ¬p marker
  present : p "$exists"
  nodup : (keys base).Nodup
  base : ∀ f ∈ base, OnField p f.1 f.2

lemma isOperator_slot (rest : String) : Path.isOperator ("idx.d." ++ rest) = false := by
  rw [Path.isOperator_append_of_ne (by decide)]
  decide +kernel

/-! ## Entering leaves -/

/-- What may stand in a branch, where fields hold their conditions. -/
structure Admits (p : String → Prop) (P : String → Json → Prop) : Prop where
  field : ∀ {key v}, OnField p key v → P key v
  onField : ∀ {key v}, P key v → Path.isOperator key = false → OnField p key v

lemma admits_onField : Admits p (OnField p) := ⟨id, fun h _ => h⟩

lemma admits_member : Admits p (Member gaps marks p) := ⟨.inl, Member.onField⟩

variable {base : Fields} {P : String → Json → Prop} {fix : Bool} {e : IndexEntries}

lemma addCompound_admits (hfits : Fits p base) (hP : Admits p P) (hfs : ∀ f ∈ fs, P f.1 f.2) :
    ∀ f ∈ addCompound fs key, P f.1 f.2 := by
  unfold addCompound
  split
  · next slot hslot =>
    refine forall_mem_insert hfs (hP.field ⟨?_, ?_⟩)
    · unfold compoundSlot? at hslot
      split at hslot
      · dsimp only at hslot
        split at hslot
        · cases hslot
          exact isOperator_slot _
        · cases hslot
      · cases hslot
    · exact keysAre_singleton.2 ⟨hfits.present, keysAre_scalar rfl rfl⟩
  · exact hfs

lemma addPair_admits (hfits : Fits p base) (hP : Admits p P) (fix : Bool)
    (hfs : ∀ f ∈ fs, P f.1 f.2) (hv : OnField p key v) :
    ∀ f ∈ (addPair base fix fs key v).1, P f.1 f.2 := by
  have hinsert := forall_mem_insert hfs (hP.field hv)
  have hfresh : ∀ f ∈ (if fix then addCompound (Fields.insert fs key v) key
      else Fields.insert fs key v), P f.1 f.2 := by
    split
    · exact addCompound_admits hfits hP hinsert
    · exact hinsert
  unfold addPair
  dsimp only
  split
  · exact hfresh
  · split
    · exact hfresh
    · next current new hget =>
      have hcurrent := keysAre_obj.1 (hP.onField (hfs _ (mem_of_get? hget)) hv.1).2
      have hmerged : KeysAre p (.obj (extend current new)) :=
        keysAre_obj.2 (forall_mem_extend (P := fun k w => p k ∧ KeysAre p w) hcurrent
          (keysAre_obj.1 hv.2))
      exact forall_mem_insert hfs (hP.field ⟨hv.1, hmerged⟩)
    all_goals exact hfs

lemma addPairs_admits (hfits : Fits p base) (hP : Admits p P) (hfs : ∀ f ∈ fs, P f.1 f.2)
    (hpairs : ∀ f ∈ pairs, OnField p f.1 f.2) :
    ∀ f ∈ (addPairs base fix pairs fs).1, P f.1 f.2 := by
  induction pairs generalizing fs with
  | nil => exact hfs
  | cons f rest ih =>
    obtain ⟨hf, hrest⟩ := forall_mem_cons.1 hpairs
    have hadd := addPair_admits hfits hP fix hfs hf
    rw [addPairs]
    split
    · next gs heq =>
      rw [heq] at hadd
      exact ih hadd hrest
    · next gs fault heq =>
      rw [heq] at hadd
      exact hadd

lemma addPair_ne_nil (base : Fields) (fix : Bool) (fs : Fields) (key : String) (v : Json) :
    (addPair base fix fs key v).1 ≠ [] := by
  have hinsert : ∀ (gs : Fields) (k : String) (w : Json), Fields.insert gs k w ≠ [] := by
    intro gs k w h
    have hget := get?_insert_self gs k w
    rw [h] at hget
    cases hget
  have hfresh : (if fix then addCompound (Fields.insert fs key v) key
      else Fields.insert fs key v) ≠ [] := by
    unfold addCompound
    split
    · split <;> exact hinsert _ _ _
    · exact hinsert _ _ _
  have hfound : ∀ {w : Json}, get? fs key = some w → fs ≠ [] := by
    rintro w hget rfl
    cases hget
  unfold addPair
  dsimp only
  split
  · exact hfresh
  · split
    · exact hfresh
    · exact hinsert _ _ _
    · next h _ => exact hfound h
    · next h => exact hfound h
    · next h _ _ => exact hfound h

lemma addPairs_ne_nil (hpairs : pairs ≠ []) : (addPairs base fix pairs fs).1 ≠ [] := by
  induction pairs generalizing fs with
  | nil => exact absurd rfl hpairs
  | cons f rest ih =>
    obtain ⟨key, v⟩ := f
    have hadd := addPair_ne_nil base fix fs key v
    rw [addPairs]
    split
    · next gs heq =>
      rw [heq] at hadd
      cases rest with
      | nil => exact hadd
      | cons g more => exact ih (cons_ne_nil _ _)
    · next gs fault heq =>
      rw [heq] at hadd
      exact hadd

lemma addLeaf_tree (hfits : Fits p base) (hfs : Tree gaps true p (.obj fs))
    (hpairs : ∀ f ∈ pairs, OnField p f.1 f.2) :
    Tree gaps true p (.obj (addLeaf base pairs fs).1) := by
  obtain ⟨hnodup, hmembers⟩ := tree_obj.1 hfs
  unfold addLeaf
  split
  · exact tree_obj.2 ⟨fun _ => nodup_addPairs (hnodup rfl),
      addPairs_admits hfits admits_member hmembers hpairs⟩
  · next hlength =>
    have hne : pairs ≠ [] := by
      rintro rfl
      exact hlength (Nat.zero_le 1)
    split
    · next markers hmarkers =>
      -- what stands under the marker so far are conditions on fields
      have hmarked : ∀ m ∈ markers, OnField p m.1 m.2 := by
        cases hget : get? fs marker with
        | none =>
          rw [hget] at hmarkers
          cases hmarkers
          intro m hm
          cases hm
        | some w =>
          rw [hget] at hmarkers
          cases hmarkers
          obtain ⟨ms, heq, -, hms⟩ := (hmembers _ (mem_of_get? hget)).marked
          cases heq
          exact hms
      exact tree_obj.2 ⟨fun _ => nodup_insert (hnodup rfl) _ _, forall_mem_insert hmembers
        (.inr (.inr ⟨rfl, rfl, _, rfl, addPairs_ne_nil hne,
          addPairs_admits hfits admits_onField hmarked hpairs⟩))⟩
    · exact hfs

/-- The branch at a position is an object: the one there, or a new one. -/
lemma branchAt_tree (hfits : Fits p base) {q : Nat}
    (hpadded : ∀ v ∈ padTo q items, Tree true true p v) :
    ∃ fs, branchAt base q items = .obj fs ∧ Tree true true p (.obj fs) := by
  have hnew : Tree true true p (.obj base) :=
    tree_obj.2 ⟨fun _ => hfits.nodup, fun f hf => .inl (hfits.base f hf)⟩
  unfold branchAt
  split
  · exact ⟨base, rfl, hnew⟩
  · exact ⟨base, rfl, hnew⟩
  · next v hne heq =>
    have hv := hpadded v (mem_of_getElem? heq)
    cases v with
    | obj fs => exact ⟨fs, rfl, hv⟩
    | null => exact absurd rfl hne
    | _ => exact False.elim hv

/-- Following steps to a leaf keeps a tree, and every list on the way gets a branch. -/
lemma insertAt_tree (hfits : Fits p base) {leaf : Fields → Fields × Option Fault}
    (hleaf : ∀ fs, Tree true true p (.obj fs) → Tree true true p (.obj (leaf fs).1))
    (steps : List IndexStep) :
    (∀ fs w, Tree true true p (.obj fs) → insertAt base leaf steps (.obj fs) = (w, none) →
      Tree true true p w) ∧
    (∀ items w, (∀ v ∈ items, Tree true true p v) →
      insertAt base leaf steps (.arr items) = (w, none) → TreeList true true p w) := by
  induction steps with
  | nil =>
    refine ⟨fun fs w hfs h => ?_, nofun⟩
    obtain ⟨rfl, -⟩ := Prod.mk.inj h
    exact hleaf fs hfs
  | cons step rest ih =>
    -- a list under a logical key is a tree's list, or a new one with gaps only
    have hunder : ∀ (fs : Fields) (key : String) (fresh : List Json) (w : Json),
        key = "$and" ∨ key = "$or" → Tree true true p (.obj fs) → (∀ v ∈ fresh, v = .null) →
        insertAt base leaf rest ((get? fs key).getD (.arr fresh)) = (w, none) →
        Tree true true p (.obj (Fields.insert fs key w)) := by
      intro fs key fresh w hkey hfs hfresh h
      obtain ⟨hnodup, hmembers⟩ := tree_obj.1 hfs
      have hlist : TreeList true true p w := by
        cases hget : get? fs key with
        | none =>
          rw [hget] at h
          exact ih.2 fresh w (fun v hv => by rw [hfresh v hv, Tree]) h
        | some v =>
          obtain ⟨items, rfl, -, hitems⟩ := ((hmembers _ (mem_of_get? hget)).list hkey).exists_arr
          rw [hget] at h
          exact ih.2 items w hitems h
      exact tree_obj.2 ⟨fun _ => nodup_insert (hnodup rfl) _ _,
        forall_mem_insert hmembers (.inr (.inl ⟨hkey, hlist⟩))⟩
    cases step with
    | and =>
      refine ⟨fun fs w hfs h => ?_, nofun⟩
      obtain ⟨hw, hfault⟩ := Prod.mk.inj h
      rw [← hw]
      exact hunder fs "$and" [] _ (.inl rfl) hfs nofun (Prod.ext rfl hfault)
    | or width =>
      refine ⟨fun fs w hfs h => ?_, nofun⟩
      obtain ⟨hw, hfault⟩ := Prod.mk.inj h
      rw [← hw]
      exact hunder fs "$or" _ _ (.inr rfl) hfs (fun v hv => (mem_replicate.1 hv).2)
        (Prod.ext rfl hfault)
    | position q =>
      refine ⟨fun fs w _ h => (nomatch h), fun items w hitems h => ?_⟩
      obtain ⟨_, _, x, heq, hbranch, rfl⟩ := insertAt_arr h
      cases heq
      have hpadded : ∀ v ∈ padTo q items, Tree true true p v := by
        intro v hv
        rcases mem_append.1 hv with hv | hv
        · exact hitems v hv
        · rw [(mem_replicate.1 hv).2, Tree]
      obtain ⟨gs, hgs, htree⟩ := branchAt_tree hfits hpadded
      rw [hgs] at hbranch
      have hx := ih.1 gs x htree hbranch
      refine treeList_arr.2 ⟨?_, fun v hv => ?_⟩
      · rw [Ne, set_eq_nil_iff, ← length_eq_zero_iff, length_padTo]
        omega
      · rcases mem_or_eq_of_mem_set hv with hv | rfl
        · exact hpadded v hv
        · exact hx

lemma insert_tree {e' : IndexEntries} (hfits : Fits p e.baseFind) {steps : List IndexStep}
    (hroot : Tree true true p (.obj e.root)) (hpairs : ∀ f ∈ pairs, OnField p f.1 f.2)
    (h : e.insert steps pairs = (e', none)) :
    e'.baseFind = e.baseFind ∧ Tree true true p (.obj e'.root) := by
  have hstart : Tree true true p (.obj (if steps.isEmpty && pairs.length ≤ 1 then
      e.baseFind.foldl (fun fs b => Fields.insertNew fs b.1 b.2) e.root else e.root)) := by
    obtain ⟨hnodup, hmembers⟩ := tree_obj.1 hroot
    split
    · exact tree_obj.2 ⟨fun _ => nodup_seed (hnodup rfl) e.baseFind, forall_mem_seed
        (fun f hf => .inl (hfits.base f hf)) hmembers⟩
    · exact hroot
  unfold IndexEntries.insert at h
  dsimp only at h
  split at h
  · next root f heq =>
    obtain ⟨rfl, rfl⟩ := Prod.mk.inj h
    exact ⟨rfl, (insertAt_tree hfits (fun fs hfs => addLeaf_tree hfits hfs hpairs) steps).1 _ _
      hstart heq⟩
  · next v f hne heq =>
    obtain ⟨rfl, rfl⟩ := Prod.mk.inj h
    obtain ⟨gs, rfl⟩ := insertAt_obj heq
    exact absurd rfl (hne gs)

/-! ## Pruning -/

lemma forall_mem_closeGaps
    (hP : ∀ items, P "$and" (.arr items) → P "$and" (.arr (items.filter fun v => !v.isNull)))
    (hfs : ∀ f ∈ fs, P f.1 f.2) : ∀ f ∈ closeGaps fs, P f.1 f.2 := by
  unfold closeGaps
  split
  · next items hitems =>
    dsimp only
    split
    · exact fun f hf => hfs f (mem_of_mem_erase hf)
    · exact forall_mem_insert hfs (hP items (hfs _ (mem_of_get? hitems)))
  · exact hfs

lemma forall_mem_dropOr (hfs : ∀ f ∈ fs, P f.1 f.2) : ∀ f ∈ dropOr fs, P f.1 f.2 := by
  unfold dropOr
  split
  · exact fun f hf => hfs f (mem_of_mem_erase hf)
  · exact hfs

lemma keysAre_prune : ∀ v : Json, KeysAre p v → KeysAre p (prune v).1
  | .obj fs, h => by
    have hfs := keysAre_obj.1 h
    have hvalues : ∀ f ∈ pruneValues fs, p f.1 ∧ KeysAre p f.2 := by
      intro f hf
      obtain ⟨g, hg, rfl⟩ := mem_map.1 hf
      exact ⟨(hfs g hg).1, keysAre_prune g.2 (hfs g hg).2⟩
    rw [prune_obj, keysAre_obj]
    refine forall_mem_closeGaps (P := fun k w => p k ∧ KeysAre p w) (fun items hitems => ?_)
      (forall_mem_dropOr (P := fun k w => p k ∧ KeysAre p w) hvalues)
    exact ⟨hitems.1, keysAre_arr.2 fun v hv =>
      keysAre_arr.1 hitems.2 v (mem_filter.1 hv).1⟩
  | .arr items, h => by
    rw [prune_arr, keysAre_arr]
    intro w hw
    obtain ⟨v, hv, rfl⟩ := mem_map.1 hw
    exact keysAre_prune v (keysAre_arr.1 h v hv)
  | .null, h | .bool _, h | .int _, h | .double _, h | .str _, h => h
termination_by v => sizeOf v
decreasing_by exacts [sizeOf_field_lt hg, sizeOf_item_lt hv]

/-- The keys under a marker are conditions on fields, which pruning leaves. -/
lemma marked_prune (h : Marked p v) : Marked p (prune v).1 := by
  obtain ⟨markers, rfl, hne, hmarkers⟩ := h
  have hnone : ∀ k, Path.isOperator k = true → get? (pruneValues markers) k = none := by
    intro k hk
    rw [get?_pruneValues, Option.map_eq_none_iff, get?_eq_none_iff, Fields.mem_keys]
    rintro ⟨w, hw⟩
    rw [(hmarkers _ hw).1] at hk
    cases hk
  have hor : dropOr (pruneValues markers) = pruneValues markers := by
    rw [dropOr, hnone "$or" (by decide +kernel)]
    rfl
  have hand : closeGaps (pruneValues markers) = pruneValues markers := by
    rw [closeGaps, hnone "$and" (by decide +kernel)]
  rw [prune_obj, hor, hand]
  refine ⟨_, rfl, by simpa [pruneValues] using hne, fun m hm => ?_⟩
  obtain ⟨g, hg, rfl⟩ := mem_map.1 hm
  exact ⟨(hmarkers g hg).1, keysAre_prune g.2 (hmarkers g hg).2⟩

/-- **Pruning closes the gaps of a tree.** -/
lemma prune_tree : ∀ v : Json, Tree true true p v → v ≠ .null → Tree false true p (prune v).1
  | .obj fs, h, _ => by
    obtain ⟨hnodup, hmembers⟩ := tree_obj.1 h
    have hnodup := hnodup rfl
    -- the branches of a list, pruned, are trees without gaps or missing
    have hlist : ∀ key v, key = "$and" ∨ key = "$or" → get? fs key = some v → ∃ items,
        (prune v).1 = .arr items ∧ items ≠ [] ∧ ∀ x ∈ items, x = .null ∨ Tree false true p x := by
      intro key v hkey hget
      have hmem := mem_of_get? hget
      obtain ⟨items, rfl, hne, hitems⟩ := ((hmembers _ hmem).list hkey).exists_arr
      rw [prune_arr]
      refine ⟨_, rfl, by simpa using hne, fun x hx => ?_⟩
      obtain ⟨w, hw, rfl⟩ := mem_map.1 hx
      by_cases hnull : w = .null
      · subst hnull
        exact .inl rfl
      · exact .inr (prune_tree w (hitems w hw) hnull)
    rw [prune_obj]
    refine tree_obj.2 ⟨fun _ => nodup_pruned hnodup, fun f hf => ?_⟩
    have hget := (get?_eq_some_iff (nodup_pruned hnodup)).2 hf
    rw [get?_pruned hnodup] at hget
    split at hget
    · next hkey =>
      cases hv : get? fs f.1 with
      | none =>
        rw [hv] at hget
        cases hget
      | some v =>
        obtain ⟨items, hitems, hne, htrees⟩ := hlist f.1 v (.inl hkey) hv
        rw [hv, Option.map_some, hitems, prunedAnd] at hget
        split at hget
        · cases hget
        · next hkept =>
          rw [← Option.some.inj hget]
          refine .inr (.inl ⟨.inl hkey, treeList_arr.2 ⟨by simpa using hkept, fun x hx => ?_⟩⟩)
          obtain ⟨hx, hnull⟩ := mem_filter.1 hx
          rcases htrees x hx with rfl | hx
          · cases hnull
          · exact hx
    · split at hget
      · next hkey =>
        cases hv : get? fs f.1 with
        | none =>
          rw [hv] at hget
          cases hget
        | some v =>
          obtain ⟨items, hitems, hne, htrees⟩ := hlist f.1 v (.inr hkey) hv
          rw [hv, Option.map_some, hitems, prunedOr] at hget
          split at hget
          · cases hget
          · next hnone =>
            rw [← Option.some.inj hget]
            refine .inr (.inl ⟨.inr hkey, treeList_arr.2 ⟨hne, fun x hx => ?_⟩⟩)
            rcases htrees x hx with rfl | hx'
            · exact absurd (any_eq_true.2 ⟨_, hx, rfl⟩) hnone
            · exact hx'
      · next hand hor =>
        obtain ⟨v, hv, hpruned⟩ := Option.map_eq_some_iff.1 hget
        rw [← hpruned]
        rcases hmembers _ (mem_of_get? hv) with ⟨hop, hkeys⟩ | ⟨hlogic, -⟩ | ⟨-, hmarker, hmarked⟩
        · exact .inl ⟨hop, keysAre_prune v hkeys⟩
        · exact absurd hlogic (not_or.2 ⟨hand, hor⟩)
        · exact .inr (.inr ⟨rfl, hmarker, marked_prune hmarked⟩)
  | .null, _, h => absurd rfl h
  | .bool _, h, _ | .int _, h, _ | .double _, h, _ | .str _, h, _ | .arr _, h, _ => False.elim h
termination_by v => sizeOf v
decreasing_by exact (sizeOf_item_lt hw).trans (sizeOf_field_lt hmem)

/-! ## Expanding -/

lemma expandItems_eq (items : List Json) : expandItems base items =
    (items.map fun v => (expand base v).1, items.any fun v => (expand base v).2) := by
  induction items with
  | nil => rfl
  | cons v rest ih => simp [expandItems, ih]

lemma expandFields_eq (fs : Fields) : expandFields base fs =
    (fs.map fun f => (f.1, (expand base f.2).1), fs.any fun f => (expand base f.2).2) := by
  induction fs with
  | nil => rfl
  | cons f rest ih => simp [expandFields, ih]

lemma expandObject_tree (hfits : Fits p base) (hnodup : (keys fs).Nodup)
    (hfs : ∀ f ∈ fs, Member false false p f.1 f.2 ∨ f.1 = marker ∧ Marked p f.2) :
    Tree false false p (.obj (expandObject base fs).1) := by
  have hrest : ∀ f ∈ fs, f.1 ≠ marker → Member false false p f.1 f.2 :=
    fun f hf hne => (hfs f hf).resolve_right fun h => hne h.1
  have herased : ∀ f ∈ Fields.erase fs marker, Member false false p f.1 f.2 := by
    intro f hf
    obtain ⟨hmem, hne⟩ := (mem_erase hnodup marker).1 hf
    exact hrest f hmem hne
  have hbase : ∀ f ∈ base, Member false false p f.1 f.2 := fun f hf => .inl (hfits.base f hf)
  unfold expandObject
  split
  · next markers hget =>
    obtain ⟨ms, heq, hne, hms⟩ : Marked p (.obj markers) := by
      rcases hfs _ (mem_of_get? hget) with h | h
      · exact h.marked
      · exact h.2
    cases heq
    -- an `$or` beside the marker goes into each branch
    have hbranch : ∀ from' : Fields, (∀ f ∈ from', Member false false p f.1 f.2) →
        TreeList false false p (.arr (markers.map fun m =>
          Json.obj (addCompound (Fields.insert from' m.1 m.2) m.1))) := by
      intro from' hfrom
      refine treeList_arr.2 ⟨by simpa using hne, fun v hv => ?_⟩
      obtain ⟨m, hm, rfl⟩ := mem_map.1 hv
      exact tree_unmarked.2 (addCompound_admits hfits admits_member
        (forall_mem_insert hfrom (.inl (hms m hm))))
    dsimp only
    split
    · next v hor =>
      have hlist := (herased _ (mem_of_get? hor)).list (.inr rfl)
      exact tree_unmarked.2 (forall_mem_insert (fun f hf => herased f (mem_of_mem_erase hf))
        (.inr (.inl ⟨.inr rfl, hbranch _ (forall_mem_insert hbase (.inr (.inl ⟨.inr rfl, hlist⟩)))⟩)))
    · exact tree_unmarked.2 (forall_mem_insert herased (.inr (.inl ⟨.inr rfl, hbranch _ hbase⟩)))
  · exact tree_unmarked.2 herased
  · next hnone =>
    refine tree_unmarked.2 fun f hf => hrest f hf fun heq => ?_
    exact get?_eq_none_iff.1 hnone (heq ▸ mem_keys.2 ⟨f.2, hf⟩)

/-- **Expanding resolves the markers of a tree.** -/
lemma expand_tree (hfits : Fits p base) :
    ∀ v : Json, Tree false true p v → Tree false false p (expand base v).1
  | .obj fs, h => by
    obtain ⟨hnodup, hmembers⟩ := tree_obj.1 h
    have hfree : ∀ w, KeysAre p w → expand base w = (w, false) := fun w hw =>
      expand_eq_self base w (mentions_of_keysAre (fun k hk => by
        rw [mem_singleton.1 hk]
        exact hfits.noMarker) w hw)
    rw [expand, expandFields_eq]
    refine expandObject_tree hfits ?_ fun f hf => ?_
    · rw [Fields.keys, map_map]
      exact hnodup rfl
    · obtain ⟨g, hg, rfl⟩ := mem_map.1 hf
      rcases hmembers g hg with ⟨hop, hkeys⟩ | ⟨hlogic, hlist⟩ | ⟨-, hmarker, markers, heq, hne, hms⟩
      · rw [hfree g.2 hkeys]
        exact .inl (.inl ⟨hop, hkeys⟩)
      · obtain ⟨items, heq, hne, hitems⟩ := hlist.exists_arr
        refine .inl (.inr (.inl ⟨hlogic, ?_⟩))
        rw [heq, expand, expandItems_eq]
        refine treeList_arr.2 ⟨by simpa using hne, fun w hw => ?_⟩
        obtain ⟨x, hx, rfl⟩ := mem_map.1 hw
        exact expand_tree hfits x (hitems x hx)
      · have hself : mentions [marker] (.obj markers) = false := by
          refine mentions_obj.2 fun m hm => ⟨?_, ?_⟩
          · simpa using ne_marker_of_field (hms m hm).1
          · exact mentions_of_keysAre (fun k hk => by
              rw [mem_singleton.1 hk]
              exact hfits.noMarker) m.2 (hms m hm).2
        rw [heq, expand_eq_self base _ hself]
        exact .inr ⟨hmarker, markers, rfl, hne, hms⟩
  | .null, h => nomatch h
  | .bool _, h | .int _, h | .double _, h | .str _, h | .arr _, h => False.elim h
termination_by v => sizeOf v
decreasing_by exact (sizeOf_item_lt hx).trans (heq ▸ sizeOf_field_lt hg)

/-- **The finished index query is a tree** without gaps and markers. -/
lemma finish_tree (hfits : Fits p e.baseFind) (hroot : Tree true true p (.obj e.root))
    {index : IndexQuery} (h : e.finish = some index) : Tree false false p (.obj index.query) := by
  have htree := expand_tree hfits _ (prune_tree _ hroot (by simp))
  unfold IndexEntries.finish at h
  dsimp only at h
  split at h
  · cases h
  · next query _ heq =>
    cases h
    rwa [heq] at htree
  · cases h

end IndexEntries

end Conduit
