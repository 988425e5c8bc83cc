import Conduit.Proofs.Lifting
import Conduit.Proofs.MatchConditions
import Mathlib.Data.List.Perm.Basic

/-!
# The order of keys

Two values may differ only in the order of the keys of their objects.  Reading a match keeps that:
what is read differs only in the order of keys again, and reading fails for both or for none
(`parse_reordered`).

What stands below `$elemMatch` and `$all` is the same on both sides.
-/

namespace Conduit

open List Fields

/-! ## Lists up to order -/

section

variable {α β γ δ : Type} {R : α → β → Prop} {S : γ → δ → Prop} {f : γ → Except CompileError α}
  {xs : List γ} {g : δ → Except CompileError β} {ys : List δ}

/-- The lists have related members, in any order. -/
def Paired (R : α → β → Prop) (xs : List α) (ys : List β) : Prop :=
  ∃ mid, Forall₂ R xs mid ∧ mid ~ ys

namespace Paired

variable {xs : List α} {ys : List β} (h : Paired R xs ys)

include h

lemma length_eq : xs.length = ys.length := by
  obtain ⟨mid, hmid, hperm⟩ := h
  rw [hmid.length_eq, hperm.length_eq]

lemma exists_perm : ∃ xs', xs ~ xs' ∧ Forall₂ R xs' ys := by
  have h' : Relation.Comp (Forall₂ R) (· ~ ·) xs ys := h
  rwa [forall₂_comp_perm_eq_perm_comp_forall₂] at h'

lemma symm : Paired (fun y x => R x y) ys xs := by
  obtain ⟨mid, hmid, hperm⟩ := h
  exact perm_comp_forall₂ hperm.symm hmid.flip

lemma mono {R' : α → β → Prop} (hR : ∀ x ∈ xs, ∀ y ∈ ys, R x y → R' x y) : Paired R' xs ys := by
  obtain ⟨mid, hmid, hperm⟩ := h
  exact ⟨mid, forall₂_mem_mono hmid fun x hx y hy => hR x hx y (hperm.mem_iff.1 hy), hperm⟩

lemma exists_right {x : α} (hx : x ∈ xs) : ∃ y ∈ ys, R x y := by
  obtain ⟨mid, hmid, hperm⟩ := h
  exact (exists_mem_left hmid.flip hx).imp fun y hy => ⟨hperm.mem_iff.1 hy.1, hy.2⟩

/-- What is the same of related members is the same up to order. -/
lemma map_perm {f : α → γ} {g : β → γ} (hfg : ∀ x y, R x y → f x = g y) : xs.map f ~ ys.map g := by
  obtain ⟨mid, hmid, hperm⟩ := h
  rw [map_eq_of_forall₂ (hmid.imp hfg)]
  exact hperm.map g

lemma zipIdx : Paired (fun p q => R p.1 q.1) xs.zipIdx ys.zipIdx := by
  obtain ⟨mid, hmid, hperm⟩ := h
  -- the positions of `ys` follow its members back to where `mid` has them
  have hback : Forall₂ (fun y (q : β × Nat) => y = q.1) ys ys.zipIdx := by
    rw [← forall₂_map_right_iff, zipIdx_map_fst, forall₂_eq_eq_eq]
  obtain ⟨mid', hmid', hperm'⟩ := perm_comp_forall₂ hperm hback
  refine ⟨mid', ?_, hperm'⟩
  have hsame : mid = mid'.map Prod.fst := by
    rw [← forall₂_eq_eq_eq, forall₂_map_right_iff]
    exact hmid'
  refine forall₂_map_left_iff.1 (forall₂_map_right_iff.1 ?_)
  rw [zipIdx_map_fst, ← hsame]
  exact hmid

end Paired

lemma mapM_ok_iff {as : List α} : xs.mapM f = .ok as ↔ Forall₂ (fun x a => f x = .ok a) xs as := by
  induction xs generalizing as with
  | nil =>
    rw [mapM_nil, forall₂_nil_left_iff]
    exact ⟨fun h => by cases h; rfl, fun h => by rw [h]; rfl⟩
  | cons x rest ih =>
    simp only [mapM_cons, except_bind_ok_iff, forall₂_cons_left_iff, ih]
    constructor
    · rintro ⟨a, ha, as', has, ⟨⟩⟩
      exact ⟨a, as', ha, has, rfl⟩
    · rintro ⟨a, as', ha, has, rfl⟩
      exact ⟨a, ha, as', has, rfl⟩

/-- **Lifting goes through a list in any order**, where it does so for each member. -/
lemma Lifts.mapM_paired (h : Paired S xs ys)
    (hfg : ∀ x ∈ xs, ∀ y ∈ ys, S x y → Lifts R (f x) (g y)) :
    Lifts (Paired R) (xs.mapM f) (ys.mapM g) := by
  intro as has
  rw [mapM_ok_iff] at has
  obtain ⟨mid, hmid, hperm⟩ := h.mono hfg
  have hvalues : Forall₂ (fun a y => ∃ b, g y = .ok b ∧ R a b) as mid := by
    clear hperm hfg h
    induction has generalizing mid with
    | nil =>
      cases hmid
      exact .nil
    | cons hx _ ih =>
      obtain ⟨y, rest, hy, hrest, rfl⟩ := forall₂_cons_left_iff.1 hmid
      exact .cons (hy _ hx) (ih _ hrest)
  obtain ⟨as', hperm', hvalues'⟩ := Paired.exists_perm ⟨mid, hvalues, hperm⟩
  obtain ⟨bs, hbs, hrelated⟩ : ∃ bs, Forall₂ (fun y b => g y = .ok b) ys bs ∧ Forall₂ R as' bs := by
    clear hperm' hperm hvalues hmid hfg h
    induction hvalues' with
    | nil => exact ⟨[], .nil, .nil⟩
    | cons hab _ ih =>
      obtain ⟨b, hb, hr⟩ := hab
      obtain ⟨bs, hbs, hrs⟩ := ih
      exact ⟨b :: bs, .cons hb hbs, .cons hr hrs⟩
  exact ⟨bs, mapM_ok_iff.2 hbs, perm_comp_forall₂ hperm' hrelated⟩

lemma Lifts.mapM_forall₂ (h : Forall₂ (fun x y => Lifts R (f x) (g y)) xs ys) :
    Lifts (Forall₂ R) (xs.mapM f) (ys.mapM g) := by
  induction h with
  | nil => exact .ok .nil
  | cons hxy _ ih =>
    rw [mapM_cons, mapM_cons]
    exact .bindBy hxy fun a b hab => .bindBy ih fun as bs habs => .ok (.cons hab habs)

lemma Lifts.knowing {x : Except CompileError α} {y : Except CompileError β} (h : Lifts R x y) :
    Lifts (fun a b => x = .ok a ∧ R a b) x y := fun a ha =>
  (h a ha).imp fun _ hb => ⟨hb.1, ha, hb.2⟩

lemma Lifts.bindOk {x : Except CompileError γ} {g : γ → Except CompileError β}
    (h : ∀ a, x = .ok a → Lifts R (f a) (g a)) : Lifts R (x >>= f) (x >>= g) := by
  refine (Lifts.refl x).knowing.bindBy ?_
  rintro a _ ⟨ha, rfl⟩
  exact h a ha

variable {ν μ : Type} {f : γ → Journaled ν α}

lemma Lifts.resultBind {x : Journaled ν γ} {y : Journaled μ δ} {g : δ → Journaled μ β}
    (hxy : Lifts S x.result y.result) (hfg : ∀ a b, S a b → Lifts R (f a).result (g b).result) :
    Lifts R (x >>= f).result (y >>= g).result := by
  rw [Journaled.result_bind, Journaled.result_bind]
  exact hxy.bindBy hfg

lemma Lifts.resultBindEq {x : Journaled ν γ} {y : Journaled μ γ} {g : γ → Journaled μ β}
    (hxy : Lifts Eq x.result y.result) (hfg : ∀ a, Lifts R (f a).result (g a).result) :
    Lifts R (x >>= f).result (y >>= g).result :=
  .resultBind hxy fun a _ h => h ▸ hfg a

lemma Lifts.resultGuard {c : Prop} [Decidable c] {e e' : CompileError} {x : Journaled ν α}
    {y : Journaled μ β} {g : δ → Journaled μ β} (h : Lifts R x.result y.result) :
    Lifts R (if c then (throw e : Journaled ν γ) >>= f else x).result
      (if c then (throw e' : Journaled μ δ) >>= g else y).result := by
  split
  · exact .error _ _
  · exact h

end

/-! ## Values up to the order of keys -/

namespace Json

mutual

/-- Whether two values differ only in the order of keys, outside `$elemMatch` and `$all`.  The keys
of each object are distinct. -/
def Reordered : Json → Json → Prop
  | .obj fs, w => ∃ mid gs, w = .obj gs ∧ (Fields.keys fs).Nodup ∧ ReorderedFields fs mid ∧ mid ~ gs
  | .arr items, w => ∃ items', w = .arr items' ∧ ReorderedItems items items'
  | v, w => w = v

def ReorderedItems : List Json → List Json → Prop
  | [], items => items = []
  | v :: rest, items => ∃ w rest', items = w :: rest' ∧ Reordered v w ∧ ReorderedItems rest rest'

def ReorderedFields : Fields → Fields → Prop
  | [], fs => fs = []
  | (key, v) :: rest, fs => ∃ w rest', fs = (key, w) :: rest' ∧ Reordered v w ∧
    (key = "$elemMatch" ∨ key = "$all" → w = v) ∧ ReorderedFields rest rest'

end

/-- A member of an object has the same key and, up to the order of keys, the same value. -/
def SameMember (f g : String × Json) : Prop :=
  f.1 = g.1 ∧ Reordered f.2 g.2 ∧ (f.1 = "$elemMatch" ∨ f.1 = "$all" → g.2 = f.2)

lemma reorderedItems_iff {vs ws : List Json} : ReorderedItems vs ws ↔ Forall₂ Reordered vs ws := by
  induction vs generalizing ws with
  | nil => rw [ReorderedItems, forall₂_nil_left_iff]
  | cons v rest ih =>
    rw [ReorderedItems, forall₂_cons_left_iff]
    constructor
    · rintro ⟨w, rest', rfl, hv, hrest⟩
      exact ⟨w, rest', hv, ih.1 hrest, rfl⟩
    · rintro ⟨w, rest', hv, hrest, rfl⟩
      exact ⟨w, rest', rfl, hv, ih.2 hrest⟩

variable {fs gs : Fields} {w v : Json}

lemma reorderedFields_iff : ReorderedFields fs gs ↔ Forall₂ SameMember fs gs := by
  induction fs generalizing gs with
  | nil => rw [ReorderedFields, forall₂_nil_left_iff]
  | cons f rest ih =>
    rw [ReorderedFields, forall₂_cons_left_iff]
    constructor
    · rintro ⟨w, rest', rfl, hv, hkey, hrest⟩
      exact ⟨(f.1, w), rest', ⟨rfl, hv, hkey⟩, ih.1 hrest, rfl⟩
    · rintro ⟨⟨_, w⟩, rest', ⟨rfl, hv, hkey⟩, hrest, rfl⟩
      exact ⟨w, rest', rfl, hv, hkey, ih.2 hrest⟩

lemma reordered_arr {items : List Json} :
    Reordered (.arr items) w ↔ ∃ items', w = .arr items' ∧ Forall₂ Reordered items items' := by
  simp only [Reordered, reorderedItems_iff]

lemma reordered_obj : Reordered (.obj fs) w ↔
      ∃ gs, w = .obj gs ∧ (Fields.keys fs).Nodup ∧ Paired SameMember fs gs := by
  simp only [Reordered, reorderedFields_iff]
  constructor
  · rintro ⟨mid, gs, rfl, hnodup, hmid, hperm⟩
    exact ⟨gs, rfl, hnodup, mid, hmid, hperm⟩
  · rintro ⟨gs, rfl, hnodup, mid, hmid, hperm⟩
    exact ⟨mid, gs, rfl, hnodup, hmid, hperm⟩

lemma keys_perm (h : Paired SameMember fs gs) :
    Fields.keys fs ~ Fields.keys gs := h.map_perm fun _ _ h => h.1

/-- The two cases of values that hold others, and what is left of the rest. -/
lemma Reordered.cases (h : Reordered v w) :
    (∃ fs gs, v = .obj fs ∧ w = .obj gs ∧ (Fields.keys fs).Nodup ∧ Paired SameMember fs gs) ∨
    (∃ items items', v = .arr items ∧ w = .arr items' ∧ Forall₂ Reordered items items') ∨
    Rule.isStructured v = false ∧ w = v := by
  cases v with
  | obj fs =>
    obtain ⟨gs, rfl, hnodup, hfs⟩ := reordered_obj.1 h
    exact .inl ⟨fs, gs, rfl, rfl, hnodup, hfs⟩
  | arr items =>
    obtain ⟨items', rfl, hitems⟩ := reordered_arr.1 h
    exact .inr (.inl ⟨items, items', rfl, rfl, hitems⟩)
  | _ => exact .inr (.inr ⟨rfl, h⟩)

section

variable {P : Json → Json → Prop} (leaf : ∀ v, Rule.isStructured v = false → P v v)
  (arr : ∀ vs ws, Forall₂ (fun v w => Reordered v w ∧ P v w) vs ws → P (.arr vs) (.arr ws))
  (obj : ∀ fs gs, (Fields.keys fs).Nodup →
    Paired (fun f g => SameMember f g ∧ P f.2 g.2) fs gs → P (.obj fs) (.obj gs))

include leaf arr obj

/-- **Induction along two values that differ in the order of keys.** -/
lemma Reordered.induction : ∀ v w, Reordered v w → P v w
  | .obj fs, w, h => by
    obtain ⟨gs, rfl, hnodup, hfs⟩ := reordered_obj.1 h
    exact obj fs gs hnodup (hfs.mono fun f hf g _ hsame =>
      ⟨hsame, Reordered.induction f.2 g.2 hsame.2.1⟩)
  | .arr vs, w, h => by
    obtain ⟨ws, rfl, hvs⟩ := reordered_arr.1 h
    exact arr vs ws (forall₂_mem_mono hvs fun v hv w _ hsame =>
      ⟨hsame, Reordered.induction v w hsame⟩)
  | .null, w, h | .bool _, w, h | .int _, w, h | .double _, w, h | .str _, w, h => by
    cases h
    exact leaf _ rfl
termination_by v => v
decreasing_by
  · have := sizeOf_lt_of_mem hf
    have : sizeOf f = 1 + sizeOf f.1 + sizeOf f.2 := rfl
    simp only [Json.obj.sizeOf_spec]
    omega
  · have := sizeOf_lt_of_mem hv
    simp only [Json.arr.sizeOf_spec]
    omega

end

lemma Reordered.symm (h : Reordered v w) : Reordered w v := by
  refine Reordered.induction (P := fun v w => Reordered w v) (fun v hv => ?_) (fun vs ws hvs => ?_)
    (fun fs gs hnodup hfs => ?_) v w h
  · cases v <;> first | rfl | cases hv
  · exact reordered_arr.2 ⟨vs, rfl, (hvs.imp fun _ _ h => h.2).flip⟩
  · have hkeys := (keys_perm (hfs.mono fun _ _ _ _ h => h.1)).nodup_iff.1 hnodup
    refine reordered_obj.2 ⟨fs, rfl, hkeys, hfs.symm.mono fun g _ f _ hsame => ?_⟩
    obtain ⟨⟨hkey, -, helem⟩, hback⟩ := hsame
    exact ⟨hkey.symm, hback, fun h => (helem (hkey ▸ h)).symm⟩

end Json

/-! ## Read values up to the order of keys -/

namespace Operand

/-- Whether a key is that of an operator that holds no list of conditions. -/
def isFixed (key : String) : Bool := Path.isOperator key && key != "$and" && key != "$or"

mutual

/-- Whether two parsed values differ only in the order of keys.  Operators, apart from `$and` and
`$or`, have the same value, and the keys of each expression are distinct. -/
def Reordered : Operand → Operand → Prop
  | .expression cs, w => ∃ mid ds, w = .expression ds ∧ (cs.map Prod.fst).Nodup ∧
    ReorderedBelow cs mid ∧ mid ~ ds
  | .array elements, w => ∃ elements', w = .array elements' ∧ ReorderedAmong elements elements'
  | v, w => w = v

def ReorderedAmong : List Operand → List Operand → Prop
  | [], elements => elements = []
  | v :: rest, elements => ∃ w rest', elements = w :: rest' ∧ Reordered v w ∧
    ReorderedAmong rest rest'

def ReorderedBelow : Children → Children → Prop
  | [], cs => cs = []
  | (key, v) :: rest, cs => ∃ w rest', cs = (key, w) :: rest' ∧ Reordered v w ∧
    (isFixed key = true → w = v) ∧ ReorderedBelow rest rest'

end

/-- A component has the same key and, up to the order of keys, the same value. -/
def SameMember (c d : String × Operand) : Prop :=
  c.1 = d.1 ∧ Reordered c.2 d.2 ∧ (isFixed c.1 = true → d.2 = c.2)

lemma reorderedAmong_iff : ∀ {vs ws : List Operand}, ReorderedAmong vs ws ↔ Forall₂ Reordered vs ws
  | [], ws => by rw [ReorderedAmong, forall₂_nil_left_iff]
  | v :: rest, ws => by
    rw [ReorderedAmong, forall₂_cons_left_iff]
    constructor
    · rintro ⟨w, rest', rfl, hv, hrest⟩
      exact ⟨w, rest', hv, reorderedAmong_iff.1 hrest, rfl⟩
    · rintro ⟨w, rest', hv, hrest, rfl⟩
      exact ⟨w, rest', rfl, hv, reorderedAmong_iff.2 hrest⟩

lemma reorderedBelow_iff : ∀ {cs ds : Children}, ReorderedBelow cs ds ↔ Forall₂ SameMember cs ds
  | [], ds => by rw [ReorderedBelow, forall₂_nil_left_iff]
  | (key, v) :: rest, ds => by
    rw [ReorderedBelow, forall₂_cons_left_iff]
    constructor
    · rintro ⟨w, rest', rfl, hv, hkey, hrest⟩
      exact ⟨(key, w), rest', ⟨rfl, hv, hkey⟩, reorderedBelow_iff.1 hrest, rfl⟩
    · rintro ⟨⟨_, w⟩, rest', ⟨rfl, hv, hkey⟩, hrest, rfl⟩
      exact ⟨w, rest', rfl, hv, hkey, reorderedBelow_iff.2 hrest⟩

variable {w : Operand}

lemma reordered_array {vs : List Operand} :
    Reordered (.array vs) w ↔ ∃ ws, w = .array ws ∧ Forall₂ Reordered vs ws := by
  simp only [Reordered, reorderedAmong_iff]

lemma reordered_expression {cs : Children} : Reordered (.expression cs) w ↔
      ∃ ds, w = .expression ds ∧ (cs.map Prod.fst).Nodup ∧ Paired SameMember cs ds := by
  simp only [Reordered, reorderedBelow_iff]
  constructor
  · rintro ⟨mid, ds, rfl, hnodup, hmid, hperm⟩
    exact ⟨ds, rfl, hnodup, mid, hmid, hperm⟩
  · rintro ⟨ds, rfl, hnodup, mid, hmid, hperm⟩
    exact ⟨mid, ds, rfl, hnodup, hmid, hperm⟩

/-- A value that holds no others. -/
def isAtom : Operand → Bool
  | .expression _ | .array _ => false
  | _ => true

lemma children_of_isAtom {v : Operand} (h : isAtom v = true) : v.children = [] := by
  cases v <;> first | rfl | cases h

section

variable {P : Operand → Operand → Prop} (atom : ∀ v, isAtom v = true → P v v)
  (array : ∀ vs ws, Forall₂ (fun v w => Reordered v w ∧ P v w) vs ws → P (.array vs) (.array ws))
  (expression : ∀ cs ds, (cs.map Prod.fst).Nodup →
    Paired (fun c d => SameMember c d ∧ P c.2 d.2) cs ds → P (.expression cs) (.expression ds))

include atom array expression

/-- **Induction along two parsed values that differ in the order of keys.** -/
lemma Reordered.induction : ∀ v w, Reordered v w → P v w
  | .expression cs, w, h => by
    obtain ⟨ds, rfl, hnodup, hcs⟩ := reordered_expression.1 h
    exact expression cs ds hnodup (hcs.mono fun c hc d _ hsame =>
      ⟨hsame, Reordered.induction c.2 d.2 hsame.2.1⟩)
  | .array vs, w, h => by
    obtain ⟨ws, rfl, hvs⟩ := reordered_array.1 h
    exact array vs ws (forall₂_mem_mono hvs fun v hv w _ hsame =>
      ⟨hsame, Reordered.induction v w hsame⟩)
  | .simple _, w, h | .property _, w, h | .variable _, w, h | .raw _, w, h => by
    cases h
    exact atom _ rfl
termination_by v => v
decreasing_by
  · have := sizeOf_lt_of_mem hc
    have : sizeOf c = 1 + sizeOf c.1 + sizeOf c.2 := rfl
    simp only [Operand.expression.sizeOf_spec]
    omega
  · have := sizeOf_lt_of_mem hv
    simp only [Operand.array.sizeOf_spec]
    omega

end

end Operand

/-! ## Reading -/

namespace Json

lemma get?_paired {fs gs : Fields} (hfs : (Fields.keys fs).Nodup) (h : Paired SameMember fs gs)
    (key : String) : Option.Rel Reordered (get? fs key) (get? gs key) := by
  have hgs := (keys_perm h).nodup_iff.1 hfs
  cases hf : get? fs key with
  | none =>
    have hnone : get? gs key = none := by
      rw [get?_eq_none_iff] at hf ⊢
      rwa [← (keys_perm h).mem_iff]
    rw [hnone]
    exact .none
  | some v =>
    obtain ⟨⟨_, w⟩, hw, hkey, hvw, -⟩ := h.exists_right (mem_of_get? hf)
    cases hkey
    rw [(get?_eq_some_iff hgs).2 hw]
    exact .some hvw

variable {v w : Json}

lemma Reordered.eq (h : Reordered v w) (hv : Rule.isStructured v = false) : w = v := by
  rcases h.cases with ⟨_, _, rfl, _⟩ | ⟨_, _, rfl, _⟩ | ⟨_, rfl⟩
  · cases hv
  · cases hv
  · rfl

lemma Reordered.isObj_eq (h : Reordered v w) : v.isObj = w.isObj := by
  rcases h.cases with ⟨_, _, rfl, rfl, _⟩ | ⟨_, _, rfl, rfl, _⟩ | ⟨_, rfl⟩ <;> rfl

end Json

open Json

variable {v w : Json}

lemma Rule.fault?_reordered (h : Reordered v w) (r : Rule) (site : Site) (op : String)
    (isVariable : Bool) (limits : Limits) :
    r.fault? site op v isVariable limits = r.fault? site op w isVariable limits := by
  rcases h.cases with ⟨fs, gs, rfl, rfl, -, hfs⟩ | ⟨vs, ws, rfl, rfl, hvs⟩ | ⟨_, rfl⟩
  · have hempty : isEmptyStructure (.obj fs) = isEmptyStructure (.obj gs) := by
      have hlength := hfs.length_eq
      cases fs <;> cases gs <;> first | rfl | cases hlength
    cases r <;> simp only [fault?, hempty] <;> rfl
  · have hlength := hvs.length_eq
    have hempty : isEmptyStructure (.arr vs) = isEmptyStructure (.arr ws) := by
      cases vs <;> cases ws <;> first | rfl | cases hlength
    have hobjects : (vs.any fun v => !v.isObj) = ws.any fun v => !v.isObj := by
      clear hempty hlength h
      induction hvs with
      | nil => rfl
      | cons hv _ ih => rw [any_cons, any_cons, hv.isObj_eq, ih]
    have hnil : vs.isEmpty = ws.isEmpty := by
      cases vs <;> cases ws <;> first | rfl | cases hlength
    cases r <;> simp only [fault?, hempty, lengthBetween, valueListFault, conditionsFault, hlength,
      hobjects, hnil] <;> rfl
  · rfl

lemma Context.placeholder?_reordered (ctx : Context) (h : Reordered v w) :
    ctx.placeholder? v = ctx.placeholder? w := by
  rcases h.cases with ⟨_, _, rfl, rfl, _⟩ | ⟨_, _, rfl, rfl, _⟩ | ⟨_, rfl⟩ <;> rfl

lemma Pattern.ofJson?_obj (fs : Fields) : Pattern.ofJson? (.obj fs) =
      if fs.length ≤ 2 then
        match (get? fs "$regex").map Json.str?, (get? fs "$options").map Json.str? with
        | some (some body), some (some options) => some ⟨body, options⟩
        | some (some body), none => some ⟨body, ""⟩
        | _, _ => none
      else none := by
  rw [ofJson?]
  congr 1
  cases get? fs "$regex" with
  | none => rfl
  | some v =>
    cases v with
    | str body =>
      cases get? fs "$options" with
      | none => rfl
      | some w => cases w <;> rfl
    | _ => rfl

lemma Pattern.ofJson?_reordered (h : Reordered v w) : Pattern.ofJson? v = Pattern.ofJson? w := by
  rcases h.cases with ⟨fs, gs, rfl, rfl, hnodup, hfs⟩ | ⟨_, _, rfl, rfl, _⟩ | ⟨_, rfl⟩
  · have hstr : ∀ key, (get? fs key).map Json.str? = (get? gs key).map Json.str? := by
      intro key
      have hrel := get?_paired hnodup hfs key
      generalize get? fs key = x, get? gs key = y at hrel
      cases hrel with
      | none => rfl
      | some hvw =>
        rcases hvw.cases with ⟨_, _, rfl, rfl, _⟩ | ⟨_, _, rfl, rfl, _⟩ | ⟨_, rfl⟩ <;> rfl
    rw [ofJson?_obj, ofJson?_obj, hfs.length_eq, hstr, hstr]
  · rfl
  · rfl

lemma Pattern.validate_reordered (h : Reordered v w) (cache : Pattern.Cache) (limits : Limits)
    (path : String) : Lifts Eq (cache.validate v limits path) (cache.validate w limits path) := by
  rcases h.cases with ⟨fs, gs, rfl, rfl, -⟩ | ⟨_, _, rfl, rfl, _⟩ | ⟨_, rfl⟩
  · unfold Pattern.Cache.validate
    rw [Pattern.ofJson?_reordered h]
    cases Pattern.ofJson? (.obj gs) with
    | some p => exact .refl _
    | none => exact .error _ _
  · exact .error _ _
  · exact .refl _

namespace Match

variable (ctx : Context) {w v : Json} {site : Site} {ws vs : List Json} {op : MatchOp}
  {fs gs : Fields}

lemma isPosition_eq (h : Reordered v w) (hv : isPosition v = true) : w = v := by
  have hnumber : ∀ {x y : Json} {p : Binary64 → Bool}, Reordered x y → x.double?.any p = true →
      y = x := by
    intro x y p hxy hx
    cases x with
    | int n => exact hxy.eq rfl
    | double d => exact hxy.eq rfl
    | _ => cases hx
  unfold isPosition at hv
  split at hv
  · next lng lat =>
    rw [Bool.and_eq_true] at hv
    obtain ⟨ws, rfl, hws⟩ := reordered_arr.1 h
    simp only [forall₂_cons_left_iff, forall₂_nil_left_iff] at hws
    obtain ⟨lng', _, hlng, ⟨lat', _, hlat, rfl, rfl⟩, rfl⟩ := hws
    rw [hnumber hlng hv.1, hnumber hlat hv.2]
  · cases hv

lemma radius?_reordered (h : Reordered v w) : radius? v = radius? w := by
  rcases h.cases with ⟨_, _, rfl, rfl, _⟩ | ⟨_, _, rfl, rfl, _⟩ | ⟨_, rfl⟩ <;> rfl

lemma circle_reordered (h : Reordered v w) (path : String) :
    Lifts Eq (circle path v) (circle path w) := by
  intro x hx
  rcases h.cases with ⟨fs, gs, rfl, rfl, hnodup, hfs⟩ | ⟨_, _, rfl, rfl, _⟩ | ⟨_, rfl⟩
  · have hcenter := get?_paired hnodup hfs "$center"
    have hradius : (get? fs "$radius").bind radius? = (get? gs "$radius").bind radius? := by
      have hrel := get?_paired hnodup hfs "$radius"
      generalize get? fs "$radius" = a, get? gs "$radius" = b at hrel
      cases hrel with
      | none => rfl
      | some h => exact radius?_reordered h
    have hsame : get? gs "$center" = get? fs "$center" := by
      have hx := (except_guard_ok_iff.1 hx).1
      simp only [field?] at hx
      generalize get? fs "$center" = a, get? gs "$center" = b at hcenter hx ⊢
      cases hcenter with
      | none => rfl
      | some h => rw [isPosition_eq h (by simpa using hx)]
    refine ⟨x, ?_, rfl⟩
    simp only [circle, field?, ← hradius, hsame] at hx ⊢
    exact hx
  · cases hx
  · exact ⟨x, hx, rfl⟩

lemma listElements_reordered (site : Site) (h : Forall₂ Reordered vs ws) :
    Lifts Eq (listElements ctx site vs) (listElements ctx site ws) := by
  induction h with
  | nil => exact .refl _
  | @cons v w vs ws hv _ ih =>
    -- values that hold others are refused, but for a pattern
    have hrefused : ∀ {x : Json} {y : Except CompileError (List Operand)},
        Rule.isStructured x = true → (∀ literal, x ≠ .obj [("$regex", literal)]) →
        Lifts Eq (listElements ctx site (x :: vs)) y := by
      intro x y hx hregex
      rw [listElements.eq_3 _ _ _ _ hregex]
      cases x with
      | arr _ | obj _ => exact .error _ _
      | _ => cases hx
    rcases hv.cases with ⟨fs, gs, rfl, rfl, -, hfs⟩ | ⟨_, _, rfl, rfl, _⟩ | ⟨_, rfl⟩
    · by_cases hregex : ∃ literal, fs = [("$regex", literal)]
      · obtain ⟨literal, rfl⟩ := hregex
        obtain ⟨mid, hmid, hperm⟩ := hfs
        simp only [forall₂_cons_left_iff, forall₂_nil_left_iff] at hmid
        obtain ⟨⟨_, literal'⟩, _, ⟨rfl, hliteral, -⟩, rfl, rfl⟩ := hmid
        cases perm_singleton.1 hperm.symm
        exact .bind (Pattern.validate_reordered hliteral _ _ _) fun _ => .bind (.refl _) fun _ =>
          .bind ih fun _ => .refl _
      · exact hrefused rfl fun literal hliteral => hregex ⟨literal, Json.obj.inj hliteral⟩
    · refine hrefused rfl fun literal hliteral => ?_
      cases hliteral
    · simp only [listElements]
      split
      · exact .bind (.refl _) fun _ => .bind (.refl _) fun _ => .bind ih fun _ => .refl _
      · split
        · exact .bind (.refl _) fun _ => .bind ih fun _ => .refl _
        · exact .bind (.refl _) fun _ => .bind (.refl _) fun _ => .bind ih fun _ => .refl _

lemma checkOperator_reordered (h : Reordered v w) (site : Site) :
    checkOperator ctx site v = checkOperator ctx site w := by
  unfold checkOperator Rule.checkAll
  simp only [Rule.fault?_reordered h, ctx.placeholder?_reordered h]

lemma eq_of_isEmptyStructure (h : Reordered v w) (hv : Rule.isEmptyStructure v = true) : w = v := by
  unfold Rule.isEmptyStructure at hv
  split at hv
  · obtain ⟨ws, rfl, hws⟩ := reordered_arr.1 h
    rw [forall₂_nil_left_iff.1 hws]
  · obtain ⟨gs, rfl, -, hgs⟩ := reordered_obj.1 h
    rw [length_eq_zero_iff.1 hgs.length_eq.symm]
  · cases hv

/-- The value of an operator that holds no conditions has no keys. -/
lemma ReadsLeaf.same {x : Operand} (h : ReadsLeaf ctx site op v x) : Operand.Reordered x x := by
  cases h with
  | values _ _ helements =>
    refine Operand.reordered_array.2 ⟨_, rfl, forall₂_same.2 (forall_mem_right helements
      fun _ _ e he => ?_)⟩
    cases he <;> rfl
  | _ => rfl

/-- The keys of operators with conditions below them. -/
def branchKeys : List String := ["$and", "$or", "$elemMatch", "$all"]

lemma key_mem_branchKeys (h : checkOperator ctx site v = .ok op) (hop : op.key ∈ branchKeys) :
    site.key ∈ branchKeys := by
  rwa [← MatchOp.key_of_ofKey? (checkOperator_ok h).1]

/-- The value of an operator that holds no conditions is read the same. -/
lemma leafOperand_reordered (h : Reordered v w) (hv : ctx.placeholder? v = none)
    (hop : checkOperator ctx site v = .ok op)
    (hleaf : (op ≠ .and ∧ op ≠ .or) ∧ op ≠ .all ∧ op ≠ .elemMatch) :
    Lifts (fun x y => Operand.Reordered x y ∧ (site.key ∉ branchKeys → y = x))
      (leafOperand ctx site op v) (leafOperand ctx site op w) := by
  intro x hx
  have hreads := leafOperand_reads hv hop hleaf.1 hleaf.2 hx
  suffices hy : leafOperand ctx site op w = .ok x from ⟨x, hy, hreads.same ctx, fun _ => rfl⟩
  have hlift : Lifts Eq (leafOperand ctx site op v) (leafOperand ctx site op w) →
      leafOperand ctx site op w = .ok x := fun h => by
    obtain ⟨_, hy, rfl⟩ := h x hx
    exact hy
  cases hreads with
  | scalar _ harr hobj => rwa [h.eq (by rw [Rule.isStructured, harr, hobj]; rfl)]
  | compared _ hv =>
    rcases hv with hv | hv
    · rwa [h.eq hv]
    · rwa [eq_of_isEmptyStructure h hv]
  | pattern => exact hlift (.bind (Pattern.validate_reordered h _ _ _) fun _ => .refl _)
  | circle => exact hlift (.bind (circle_reordered h _) fun _ => .refl _)
  | values hlist =>
    obtain ⟨ws, rfl, hws⟩ := reordered_arr.1 h
    rcases hlist with rfl | rfl
    all_goals exact hlift (.bind (listElements_reordered ctx site hws) fun _ => .refl _)

/-- One condition. -/
def parseMember (site : Site) (f : String × Json) : Except CompileError (String × Operand) :=
  (f.1, ·) <$> parseChild ctx (site.child f.1) f.2

lemma parseFields_eq_mapM (site : Site) (fs : Fields) :
    parseFields ctx site fs = fs.mapM (parseMember ctx site) := by
  induction fs with
  | nil => rfl
  | cons f rest ih =>
    rw [parseFields, mapM_cons, ih, parseMember, parseChild, show (site.child f.1).key = f.1 from rfl]
    split <;> simp

lemma keys_parseFields {cs : Children} (h : parseFields ctx site fs = .ok cs) :
    cs.map Prod.fst = Fields.keys fs := by
  exact map_eq_of_forall₂ ((parseFields_eq_ok h).imp fun _ _ hc => hc.1).flip

/-- Reading a value in any place keeps it the same up to the order of keys. -/
def ReadsSame (v w : Json) : Prop :=
  ∀ site, Lifts Operand.Reordered (parseField ctx site v) (parseField ctx site w) ∧
    Lifts (fun x y => Operand.Reordered x y ∧ (site.key ∉ branchKeys → y = x))
      (parseOperator ctx site v) (parseOperator ctx site w) ∧
    Lifts Operand.Reordered (parseExpression ctx site v) (parseExpression ctx site w)

lemma parseFields_reordered (hnodup : (Fields.keys fs).Nodup)
    (h : Paired (fun f g => SameMember f g ∧ ReadsSame ctx f.2 g.2) fs gs) (site : Site) :
    Lifts Operand.Reordered (Operand.expression <$> parseFields ctx site fs)
      (Operand.expression <$> parseFields ctx site gs) := by
  intro x hx
  obtain ⟨cs, hcs, rfl⟩ := except_functor_map_ok_iff.1 hx
  have hnodup' : (cs.map Prod.fst).Nodup := by rwa [keys_parseFields ctx hcs]
  have hlift : Lifts (Paired Operand.SameMember) (fs.mapM (parseMember ctx site))
      (gs.mapM (parseMember ctx site)) := by
    refine .mapM_paired h ?_
    rintro ⟨key, v⟩ - ⟨_, w⟩ - ⟨⟨rfl, -, helem⟩, hreads⟩ c hc
    obtain ⟨x, hx, rfl⟩ := except_functor_map_ok_iff.1 hc
    have hread : Lifts (fun x y => Operand.Reordered x y ∧
          (Path.isOperator key = true → key ∉ branchKeys → y = x))
        (parseChild ctx (site.child key) v) (parseChild ctx (site.child key) w) := by
      unfold parseChild
      split
      · exact fun x hx => ((hreads _).2.1 x hx).imp fun y hy => ⟨hy.1, hy.2.1, fun _ => hy.2.2⟩
      · next hkey =>
        exact fun x hx => ((hreads _).1 x hx).imp fun y hy => ⟨hy.1, hy.2, fun h => absurd h hkey⟩
    obtain ⟨y, hy, hxy, hleaf⟩ := hread x hx
    refine ⟨(key, y), except_functor_map_ok_iff.2 ⟨y, hy, rfl⟩, rfl, hxy, fun hfixed => ?_⟩
    simp only [Operand.isFixed, Bool.and_eq_true, bne_iff_ne] at hfixed
    by_cases hkey : key = "$elemMatch" ∨ key = "$all"
    · cases helem hkey
      rw [hx] at hy
      cases hy
      rfl
    · exact hleaf hfixed.1.1 (by simp [branchKeys, hfixed, not_or.1 hkey])
  rw [parseFields_eq_mapM] at hcs
  obtain ⟨ds, hds, hpaired⟩ := hlift cs hcs
  refine ⟨.expression ds, ?_, Operand.reordered_expression.2 ⟨ds, rfl, hnodup', hpaired⟩⟩
  rw [parseFields_eq_mapM, hds]
  rfl

lemma checkExpression_obj {limits : Limits} (h : fs.length = gs.length) {α : Type}
    {R : α → α → Prop} {x y : Except CompileError α} (hxy : Lifts R x y) :
    Lifts R (checkExpression limits site (.obj fs) >>= fun _ => x)
      (checkExpression limits site (.obj gs) >>= fun _ => y) := by
  have hempty : fs.isEmpty = gs.isEmpty := by
    cases fs <;> cases gs <;> first | rfl | cases h
  refine .bindBy (S := fun _ _ => True) ?_ fun _ _ _ => hxy
  unfold checkExpression
  simp only [h, hempty]
  exact .guard id (.guard id (.guard id (.ok trivial)))

lemma parseConditions_reordered (site : Site)
    (h : Forall₂ (fun v w => Reordered v w ∧ ReadsSame ctx v w) vs ws) :
    Lifts (Forall₂ Operand.Reordered) (parseConditions ctx site vs)
      (parseConditions ctx site ws) := by
  induction h with
  | nil => exact .ok .nil
  | cons hv _ ih =>
    rw [parseConditions, parseConditions, ctx.placeholder?_reordered hv.1]
    split
    · exact .bindBy (S := Operand.Reordered) (.ok rfl) fun _ _ hfirst =>
        .bindBy ih fun _ _ hmore => .ok (.cons hfirst hmore)
    · exact .bindBy (hv.2 site).2.2 fun _ _ hfirst =>
        .bindBy ih fun _ _ hmore => .ok (.cons hfirst hmore)

lemma simpleOrVariable_same (v : Json) :
    Operand.Reordered (simpleOrVariable ctx v) (simpleOrVariable ctx v) := by
  unfold simpleOrVariable
  split <;> rfl

lemma parseAllElements_reordered (site : Site)
    (h : Forall₂ (fun v w => Reordered v w ∧ ReadsSame ctx v w) vs ws) :
    Lifts (Forall₂ Operand.Reordered) (parseAllElements ctx site vs)
      (parseAllElements ctx site ws) := by
  induction h with
  | nil => exact .ok .nil
  | @cons _ w _ _ hv _ ih =>
    rcases hv.1.cases with ⟨fs, gs, rfl, rfl, -, hfs⟩ | ⟨_, _, rfl, rfl, _⟩ | ⟨hflat, rfl⟩
    · rw [parseAllElements, parseAllElements]
      refine .bindBy (hv.2 site).2.2 fun _ _ hfirst => .guard (fun hkeys => ?_)
        (.bindBy ih fun _ _ hmore => .ok (.cons hfirst hmore))
      intro hsingle
      refine hkeys (perm_singleton.1 ?_)
      rw [← hsingle]
      exact (keys_perm hfs).symm
    · exact .error _ _
    · cases w with
      | arr _ | obj _ => cases hflat
      | _ =>
        exact .bindBy ih fun _ _ hmore => .ok (.cons (simpleOrVariable_same ctx _) hmore)

lemma checkUnmixed_reordered {vs ws : List Operand} (h : Forall₂ Operand.Reordered vs ws)
    (path : String) : checkUnmixed path vs = checkUnmixed path ws := by
  -- what kind of value an element is does not change
  have hany : ∀ {p : Operand → Bool}, (∀ cs ds, p (.expression cs) = p (.expression ds)) →
      (∀ vs ws, p (.array vs) = p (.array ws)) → vs.any p = ws.any p := by
    intro p hexpression harray
    induction h with
    | nil => rfl
    | @cons v w _ _ hv _ ih =>
      rw [any_cons, any_cons, ih]
      congr 1
      cases v with
      | expression cs =>
        obtain ⟨ds, rfl, -⟩ := Operand.reordered_expression.1 hv
        exact hexpression cs ds
      | array vs =>
        obtain ⟨ws, rfl, -⟩ := Operand.reordered_array.1 hv
        exact harray vs ws
      | _ => rw [show w = _ from hv]
  dsimp only [checkUnmixed]
  congr 2
  refine congrArg₂ _ (hany ?_ ?_) (hany ?_ ?_)
  all_goals exact fun _ _ => rfl

lemma readsSame_flat (hv : Rule.isStructured v = false) : ReadsSame ctx v v := by
  intro site
  cases v with
  | arr _ | obj _ => cases hv
  | _ =>
    refine ⟨fun x hx => ⟨x, hx, ?_⟩, fun x hx => ⟨x, hx, ?_, fun _ => rfl⟩, fun x hx => ⟨x, hx, ?_⟩⟩
    · unfold parseField at hx
      obtain ⟨_, -, ⟨⟩⟩ := except_bind_ok_iff.1 hx
      exact simpleOrVariable_same ctx _
    · cases parseOperator_reads hx with
      | literal => exact simpleOrVariable_same ctx _
      | placeholder => rfl
      | leaf _ hleaf => exact hleaf.same ctx
    · obtain ⟨_, _, heq, -⟩ := parseExpression_eq_ok hx
      cases heq

lemma checkExpression_arr (limits : Limits) (site : Site) (vs : List Json) :
    ∃ e, checkExpression limits site (.arr vs) = .error e := by
  simp only [checkExpression]
  split <;> exact ⟨_, rfl⟩

/-- **Reading keeps the order of keys the only difference.** -/
lemma readsSame (h : Reordered v w) : ReadsSame ctx v w := by
  refine Reordered.induction (P := ReadsSame ctx) (fun v => readsSame_flat ctx)
    (fun vs ws hvs site => ?_) (fun fs gs hnodup hfs site => ?_) v w h
  · have hsame : Reordered (.arr vs) (.arr ws) :=
      reordered_arr.2 ⟨ws, rfl, hvs.imp fun _ _ h => h.1⟩
    obtain ⟨e, he⟩ := checkExpression_arr ctx.limits site vs
    refine ⟨?_, ?_, ?_⟩
    · rw [parseField, parseField]
      exact .bind (.refl _) fun _ => .error _ _
    · rw [parseOperator, parseOperator, ← checkOperator_reordered ctx hsame]
      refine .bindOk fun op hop => ?_
      cases op with
      | and | or =>
        exact .bindBy (parseConditions_reordered ctx site hvs) fun _ _ hes =>
          .ok ⟨Operand.reordered_array.2 ⟨_, rfl, hes⟩,
            fun hkey => absurd (key_mem_branchKeys ctx hop (by decide)) hkey⟩
      | all =>
        rw [hvs.length_eq]
        refine .guard id (.bindBy (parseAllElements_reordered ctx site hvs) fun es es' hes => ?_)
        rw [checkUnmixed_reordered hes]
        exact .bind (.refl _) fun _ => .ok ⟨Operand.reordered_array.2 ⟨_, rfl, hes⟩,
          fun hkey => absurd (key_mem_branchKeys ctx hop (by decide)) hkey⟩
      | elemMatch =>
        rw [he]
        exact .error _ _
      | _ => exact leafOperand_reordered ctx hsame rfl hop (by decide)
    · rw [parseExpression, he]
      · exact .error _ _
      · rintro _ ⟨⟩
  · have hsame : Reordered (.obj fs) (.obj gs) :=
      reordered_obj.2 ⟨gs, rfl, hnodup, hfs.mono fun _ _ _ _ h => h.1⟩
    have hfields := parseFields_reordered ctx hnodup hfs
    refine ⟨?_, ?_, ?_⟩
    · rw [parseField, parseField]
      have hany : (fs.any fun f => !Path.isOperator f.1) = gs.any fun f => !Path.isOperator f.1 := by
        have hkeys := (keys_perm (hfs.mono fun _ _ _ _ h => h.1)).any_eq (f := fun k => !Path.isOperator k)
        rwa [Fields.keys, Fields.keys, any_map, any_map] at hkeys
      rw [hany]
      exact .bind (.refl _) fun _ => .guard id (checkExpression_obj hfs.length_eq (hfields site))
    · rw [parseOperator, parseOperator, ← checkOperator_reordered ctx hsame]
      refine .bindOk fun op hop => ?_
      cases op with
      | elemMatch =>
        refine checkExpression_obj hfs.length_eq fun x hx => ?_
        exact (hfields site x hx).imp fun y hy => ⟨hy.1, hy.2,
          fun hkey => absurd (key_mem_branchKeys ctx hop (by decide)) hkey⟩
      | all => exact .error _ _
      | and | or => exact .ok ⟨Operand.reordered_array.2 ⟨[], rfl, .nil⟩, fun _ => rfl⟩
      | _ => exact leafOperand_reordered ctx hsame rfl hop (by decide)
    · rw [parseExpression, parseExpression]
      exact checkExpression_obj hfs.length_eq (hfields site)

/-- **A match is read the same up to the order of keys.** -/
lemma parse_reordered (h : Reordered (.obj fs) (.obj gs)) :
    Lifts Operand.Reordered (parse ctx (.obj fs)) (parse ctx (.obj gs)) :=
  (readsSame ctx h _).2.2

end Match

end Conduit
