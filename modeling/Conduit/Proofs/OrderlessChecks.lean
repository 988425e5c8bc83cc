import Conduit.Proofs.OrderlessNarrowing
import Conduit.Proofs.ReferenceMarks

/-!
# Checks and the order of keys

Two matches that differ in the order of keys have the same components at different addresses.  A
component is known by the keys on the way to it (`Reaches`), and two addresses meet where these are
the same.  The trails of such components find the same candidates, so that the same checks are made
of them, and the components found to be stored by reference meet (`sameChecks`).
-/

namespace Conduit.Match

open List

/-! ## Two trails -/

/-- A component by its address, with the keys on the way.  These are distinct in each object, so
that the keys tell the address. -/
inductive Reaches (v : Operand) : List Nat → List (Nat × String) → Operand → Prop
  | here : Reaches v [] [] v
  | child {a : List Nat} {keys : List (Nat × String)} {x y : Operand} {element index : Nat}
      {key : String} : Reaches v a keys x → ((childrenAt x element).map Prod.fst).Nodup →
      (childrenAt x element)[index]? = some (key, y) →
      Reaches v (a ++ [element, index]) (keys ++ [(element, key)]) y

variable {a b : List Nat} {v x y : Operand}

lemma Reaches.unique {keys keys' : List (Nat × String)} (h : Reaches v a keys x)
    (h' : Reaches v b keys' y) : (a = b ↔ keys = keys') ∧ (a = b → x = y) := by
  induction h generalizing b keys' y with
  | here => cases h' <;> simp
  | @child a keys x z element index key _ hnodup hget ih =>
    cases h' with
    | here => simp
    | @child b keys' x' _ element' index' key' hreach _ hget' =>
      obtain ⟨hkeys, hvalue⟩ := ih hreach
      have hboth : a = b → element = element' → (index = index' ↔ key = key') ∧
          (index = index' → z = y) := by
        rintro rfl rfl
        cases hvalue rfl
        have hkey : ∀ {i : Nat} {k u}, (childrenAt x element)[i]? = some (k, u) →
            ((childrenAt x element).map Prod.fst)[i]? = some k := by
          intro i k u h
          rw [getElem?_map, h]
          rfl
        refine ⟨⟨?_, ?_⟩, ?_⟩
        · rintro rfl
          rw [hget] at hget'
          cases hget'
          rfl
        · rintro rfl
          have hlt := (List.getElem?_eq_some_iff.1 (hkey hget)).1
          exact (getElem?_inj hlt hnodup).1 ((hkey hget).trans (hkey hget').symm)
        · rintro rfl
          rw [hget] at hget'
          cases hget'
          rfl
      have hsplit : a ++ [element, index] = b ++ [element', index'] ↔
          a = b ∧ element = element' ∧ index = index' := by
        constructor
        · intro h
          obtain ⟨hab, hlast⟩ := append_inj' h rfl
          cases hlast
          exact ⟨hab, rfl, rfl⟩
        · rintro ⟨rfl, rfl, rfl⟩
          rfl
      rw [hsplit]
      refine ⟨⟨?_, ?_⟩, fun ⟨hab, he, hi⟩ => (hboth hab he).2 hi⟩
      · rintro ⟨hab, he, hi⟩
        rw [hkeys.1 hab, he, ((hboth hab he).1).1 hi]
      · intro h
        obtain ⟨hk, hlast⟩ := append_inj' h rfl
        cases hlast
        exact ⟨hkeys.2 hk, rfl, (hboth (hkeys.2 hk) rfl).1.2 rfl⟩

/-- Two addresses of one component, before and after its keys change their order. -/
def Meets (v w : Operand) (a b : List Nat) : Prop :=
  ∃ keys x y, Reaches v a keys x ∧ Reaches w b keys y

lemma Meets.unique {w : Operand} {a' b' : List Nat} (h : Meets v w a b) (h' : Meets v w a' b') :
    a = a' ↔ b = b' := by
  obtain ⟨keys, x, y, ha, hb⟩ := h
  obtain ⟨keys', x', y', ha', hb'⟩ := h'
  rw [(ha.unique ha').1, (hb.unique hb').1]

/-- Components of two matches at the same keys, with what is left for them. -/
structure Frame.Twin (v w : Operand) (f g : Frame) : Prop where
  site : f.site = g.site
  address : Meets v w f.address g.address
  models : Lifts (fun ms ns => ms = ns ∧ ms.Nodup) f.models.get g.models.get
  properties : Lifts Alike f.properties.get.result g.properties.get.result

/-- Trails to the same keys of two matches. -/
structure Trail.Twin (v w : Operand) (t u : Trail) : Prop where
  ne_nil : t ≠ []
  frames : Forall₂ (Frame.Twin v w) t u

/-- The values `x` and `y` of a component stand at the same keys of two matches. -/
structure Beside (v w : Operand) (t u : Trail) (x y : Operand) : Prop extends Trail.Twin v w t u where
  reached : ∃ keys, Reaches v t.address keys x ∧ Reaches w u.address keys y

lemma componentModels_reordered (ctx : Context) (h : Operand.Reordered x y)
    {site : Site} {inOr : Bool} (hsteady : isSteady site inOr x = true) {models : List ModelId}
    (hnodup : models.Nodup) :
    Lifts (fun ms ns => ms = ns ∧ ms.Nodup) (componentModels ctx site x models)
      (componentModels ctx site y models) := by
  unfold componentModels
  split
  · exact .ok ⟨rfl, nodup_nil⟩
  · cases x with
    | expression cs =>
      obtain ⟨ds, rfl, -⟩ := Operand.reordered_expression.1 h
      rw [isSteady, Bool.and_eq_true] at hsteady
      intro ms hms
      obtain ⟨ns, hns, rfl, ⟨p, rfl⟩, -⟩ := (sameModels ctx h site models inOr hnodup).2 hsteady.2 ms hms
      exact ⟨_, hns, rfl, hnodup.filter p⟩
    | array vs =>
      obtain ⟨ws, rfl, hvs⟩ := Operand.reordered_array.1 h
      rw [isSteady, Bool.and_eq_true] at hsteady
      intro ms hms
      obtain ⟨groups, hgroups, rfl⟩ := except_functor_map_ok_iff.1 hms
      obtain ⟨groups', hgroups', hsame⟩ := elementsModels_reordered ctx hnodup
        (hvs.imp fun _ _ h => ⟨h, sameModels ctx h⟩) hsteady.2 groups hgroups
      refine ⟨_, except_functor_map_ok_iff.2 ⟨groups', hgroups', rfl⟩, ?_, nodup_unionModels _⟩
      rw [show groups = groups' from forall₂_eq_eq_eq ▸ hsame.imp fun _ _ h => h.1]
    | _ =>
      rw [show y = _ from h]
      exact .ok ⟨rfl, hnodup⟩

section

variable {ctx : Context} {v w x y : Operand} {t u : Trail} {cs ds : Children} {inOr : Bool}
  {f g : Findings} {n element : Nat} {vs : List Operand}

namespace Trail.Twin

variable (h : Trail.Twin v w t u)

include h

lemma site : t.site = u.site := by
  obtain ⟨hne, _ | ⟨hf, -⟩⟩ := h
  · exact absurd rfl hne
  · exact hf.site

lemma fullpath : t.fullpath = u.fullpath := by
  rw [Trail.fullpath, Trail.fullpath, h.site]

lemma address : Meets v w t.address u.address := by
  obtain ⟨hne, _ | ⟨hf, -⟩⟩ := h
  · exact absurd rfl hne
  · exact hf.address

lemma ne_nil_right : u ≠ [] := by
  obtain ⟨hne, _ | _⟩ := h
  · exact absurd rfl hne
  · exact cons_ne_nil _ _

lemma property : Lifts Eq t.property.result u.property.result := by
  obtain ⟨hne, _ | ⟨hf, -⟩⟩ := h
  · exact absurd rfl hne
  · refine .resultBind hf.properties fun ps qs halike => .ok ?_
    rw [hf.site, halike.find?]

lemma parent : Trail.Twin v w t.parent u.parent := by
  obtain ⟨hne, _ | ⟨hf, _ | ⟨hg, hrest⟩⟩⟩ := h
  · exact absurd rfl hne
  · exact ⟨hne, .cons hf .nil⟩
  · exact ⟨cons_ne_nil _ _, .cons hg hrest⟩

end Trail.Twin

/-- The components of the objects at the same position stand beside each other again. -/
lemma Beside.child (hsets : ctx.catalog.SetFree) (h : Beside v w t u x y)
    (hx : childrenAt x element = cs) (hy : childrenAt y element = ds)
    (hcs : (cs.map Prod.fst).Nodup) (hds : (ds.map Prod.fst).Nodup) {c d : (String × Operand) × Nat}
    (hc : c ∈ cs.zipIdx) (hd : d ∈ ds.zipIdx) (hsame : Operand.SameMember c.1 d.1)
    (hsteady : isSteady (t.site.child c.1.1) inOr c.1.2 = true) :
    Beside v w (t.child ctx element c.2 c.1.1 c.1.2) (u.child ctx element d.2 d.1.1 d.1.2)
      c.1.2 d.1.2 := by
  obtain ⟨⟨key, a⟩, i⟩ := c
  obtain ⟨⟨_, b⟩, j⟩ := d
  obtain ⟨rfl, hreordered, -⟩ := hsame
  rw [mem_zipIdx_iff_getElem?] at hc hd
  obtain ⟨⟨hne, hframes⟩, keys, hv, hw⟩ := h
  cases hframes with
  | nil => exact absurd rfl hne
  | @cons f g _ _ hf hrest =>
    have hv' : Reaches v (f.address ++ [element, i]) (keys ++ [(element, key)]) a :=
      hv.child (by rwa [hx]) (by rwa [hx])
    have hw' : Reaches w (g.address ++ [element, j]) (keys ++ [(element, key)]) b :=
      hw.child (by rwa [hy]) (by rwa [hy])
    refine ⟨⟨cons_ne_nil _ _, .cons ?_ (.cons hf hrest)⟩, _, hv', hw'⟩
    have hmodels : Lifts (fun ms ns => ms = ns ∧ ms.Nodup)
        (do componentModels ctx (f.site.child key) a (← f.models.get))
        (do componentModels ctx (g.site.child key) b (← g.models.get)) := by
      refine .bindBy hf.models fun ms ns hms => ?_
      rw [← hms.1, ← hf.site]
      exact componentModels_reordered ctx hreordered hsteady hms.2
    refine ⟨by rw [hf.site], ⟨_, _, _, hv', hw'⟩, hmodels, ?_⟩
    dsimp only
    rw [hf.site] at hmodels ⊢
    exact narrowTwice_alike hsets _ _ _ hreordered
      (fun ms hms => (hmodels ms hms).imp fun _ h => ⟨h.1, h.2.1⟩) hf.properties

lemma keys_perm_of_sameMember (h : Paired Operand.SameMember cs ds) :
    cs.map Prod.fst ~ ds.map Prod.fst := h.map_perm fun _ _ h => h.1

lemma Beside.mapM (hsets : ctx.catalog.SetFree)
    (h : Beside v w t u x y) (hx : childrenAt x element = cs)
    (hy : childrenAt y element = ds) (hnodup : (cs.map Prod.fst).Nodup)
    {P : Operand → Operand → Prop}
    (hcs : Paired (fun c d => Operand.SameMember c d ∧ P c.2 d.2) cs ds)
    (hsteady : isSteadyBelow t.site inOr cs = true) {α β : Type} {R : α → β → Prop}
    {f : (String × Operand) × Nat → Except CompileError α}
    {g : (String × Operand) × Nat → Except CompileError β}
    (hfg : ∀ {c d}, c ∈ cs.zipIdx → Operand.SameMember c.1 d.1 → P c.1.2 d.1.2 →
      let t' := t.child ctx element c.2 c.1.1 c.1.2
      t'.site = t.site.child c.1.1 → isSteady t'.site inOr c.1.2 = true →
      Beside v w t' (u.child ctx element d.2 d.1.1 d.1.2) c.1.2 d.1.2 → Lifts R (f c) (g d)) :
    Lifts (Paired R) (cs.zipIdx.mapM f) (ds.zipIdx.mapM g) := by
  have hnodup' : (ds.map Prod.fst).Nodup :=
    (keys_perm_of_sameMember (hcs.mono fun _ _ _ _ h => h.1)).nodup_iff.1 hnodup
  rw [isSteadyBelow_iff] at hsteady
  refine .mapM_paired hcs.zipIdx fun c hc d hd hsame => ?_
  have hmem : c.1 ∈ cs := mem_of_getElem? (mem_zipIdx_iff_getElem?.1 hc)
  have hsite : (t.child ctx element c.2 c.1.1 c.1.2).site = t.site.child c.1.1 :=
    site_child h.ne_nil _ _ _ _
  refine hfg hc hsame.1 hsame.2 hsite ?_ (h.child hsets hx hy hnodup hnodup' hc hd hsame.1
    (hsteady c.1 hmem))
  rw [hsite]
  exact hsteady c.1 hmem

/-! ## Checks -/

/-- The same components are stored by reference. -/
def SameMarks (v w : Operand) (f g : Findings) : Prop :=
  (∀ a ∈ f.references, ∃ b ∈ g.references, Meets v w a b) ∧
    ∀ b ∈ g.references, ∃ a ∈ f.references, Meets v w a b

lemma sameMarks_empty : SameMarks v w {} {} := ⟨fun _ h => (by cases h), fun _ h => (by cases h)⟩

lemma SameMarks.append {f' g' : Findings} (h : SameMarks v w f g) (h' : SameMarks v w f' g') :
    SameMarks v w (f ++ f') (g ++ g') := by
  refine ⟨fun a ha => ?_, fun b hb => ?_⟩
  · rcases mem_append.1 ha with ha | ha
    · exact (h.1 a ha).imp fun b hb => ⟨mem_append_left _ hb.1, hb.2⟩
    · exact (h'.1 a ha).imp fun b hb => ⟨mem_append_right _ hb.1, hb.2⟩
  · rcases mem_append.1 hb with hb | hb
    · exact (h.2 b hb).imp fun a ha => ⟨mem_append_left _ ha.1, ha.2⟩
    · exact (h'.2 b hb).imp fun a ha => ⟨mem_append_right _ ha.1, ha.2⟩

lemma SameMarks.mem_iff (h : SameMarks v w f g) (hab : Meets v w a b) :
    a ∈ f.references ↔ b ∈ g.references := by
  constructor
  · intro ha
    obtain ⟨b', hb', hmeets⟩ := h.1 a ha
    rwa [(hab.unique hmeets).1 rfl]
  · intro hb
    obtain ⟨a', ha', hmeets⟩ := h.2 b hb
    rwa [(hab.unique hmeets).2 rfl]

lemma referenced_meets (h : Forall₂ (Frame.Twin v w) t u) :
    Forall₂ (Meets v w) t.referenced u.referenced := by
  induction h with
  | nil => exact .nil
  | cons hf hrest ih =>
    cases hrest with
    | nil => exact .cons hf.address .nil
    | cons hg hrest =>
      rw [Trail.referenced, Trail.referenced, ← hf.site, ← hg.site]
      refine .cons hf.address ?_
      split
      · exact ih
      · exact .nil

lemma checkNodes_sameMarks (ctx : Context) (h : Trail.Twin v w t u) (ids : List NodeId) :
    Lifts (SameMarks v w) (checkNodes ctx t ids).result (checkNodes ctx u ids).result := by
  induction ids with
  | nil => exact .ok sameMarks_empty
  | cons id rest ih =>
    rw [checkNodes, checkNodes, ← h.fullpath]
    refine .resultBind (.refl _) fun _ _ _ => .resultGuard (.resultBind ih fun f g hfg =>
      .ok (.append ⟨fun a ha => ?_, fun b hb => ?_⟩ hfg))
    · dsimp only at ha ⊢
      split at ha
      · next href =>
        rw [if_pos href]
        exact Paired.exists_right ⟨_, referenced_meets h.frames, .refl _⟩ ha
      · cases ha
    · dsimp only at hb ⊢
      split at hb
      · next href =>
        rw [if_pos href]
        exact Paired.exists_right (Paired.symm ⟨_, referenced_meets h.frames, .refl _⟩) hb
      · cases hb

lemma checkProperty_sameMarks (ctx : Context) (h : Trail.Twin v w t u) :
    Lifts (SameMarks v w) (checkProperty ctx t).result (checkProperty ctx u).result := by
  refine .resultBindEq h.property fun found => ?_
  cases found with
  | none => exact .error _ _
  | some c =>
    exact .resultBind (checkNodes_sameMarks ctx h c.nodes) fun _ _ hmarks => .resultGuard (.ok hmarks)

lemma checkStrings_same (h : Trail.Twin v w t u) :
    Lifts Eq (checkStrings ctx t).result (checkStrings ctx u).result := by
  unfold checkStrings
  rw [h.fullpath]
  exact .resultBindEq h.property fun _ => .refl _

lemma checkChildren_result (ctx : Context) (t : Trail) (element : Nat)
    (cs : Children) (index : Nat) : (checkChildren ctx t element index cs).result =
      (fun fs => fs.foldr (· ++ ·) {}) <$> (cs.zipIdx index).mapM fun c =>
        (checkComponent ctx (t.child ctx element c.2 c.1.1 c.1.2) c.1.2).result := by
  induction cs generalizing index with
  | nil => rfl
  | cons c rest ih =>
    rw [checkChildren, zipIdx_cons, mapM_cons, Journaled.result_bind]
    simp only [Journaled.result_bind, ih, map_bind, bind_map_left, map_pure]
    rfl

lemma sameMarks_foldr {fs gs : List Findings} (h : Paired (SameMarks v w) fs gs) :
    SameMarks v w (fs.foldr (· ++ ·) {}) (gs.foldr (· ++ ·) {}) := by
  have hmem : ∀ {fs : List Findings} {a : List Nat},
      a ∈ (fs.foldr (· ++ ·) ({} : Findings)).references ↔ ∃ f ∈ fs, a ∈ f.references := by
    intro fs a
    induction fs with
    | nil => simp
    | cons f rest ih =>
      simp only [foldr_cons, mem_cons, exists_eq_or_imp, ← ih]
      exact mem_append
  refine ⟨fun a ha => ?_, fun b hb => ?_⟩
  · obtain ⟨f, hf, ha⟩ := hmem.1 ha
    obtain ⟨g, hg, hfg⟩ := h.exists_right hf
    obtain ⟨b, hb, hab⟩ := hfg.1 a ha
    exact ⟨b, hmem.2 ⟨g, hg, hb⟩, hab⟩
  · obtain ⟨g, hg, hb⟩ := hmem.1 hb
    obtain ⟨f, hf, hfg⟩ := h.symm.exists_right hg
    obtain ⟨a, ha, hab⟩ := hfg.2 b hb
    exact ⟨a, hmem.2 ⟨f, hf, ha⟩, hab⟩

/-- The objects of a list stand in a value from a position on. -/
def HoldsFrom (x : Operand) (n : Nat) (vs : List Operand) : Prop :=
  ∀ i v, vs[i]? = some v → childrenAt x (n + i) = v.children

lemma holdsFrom_array (vs : List Operand) : HoldsFrom (.array vs) 0 vs := by
  intro i v hv
  rw [Nat.zero_add, childrenAt, hv]
  cases v <;> rfl

lemma HoldsFrom.tail {z : Operand} (h : HoldsFrom x n (z :: vs)) :
    HoldsFrom x (n + 1) vs := fun i v hv => by
  rw [Nat.add_right_comm, Nat.add_assoc]
  exact h (i + 1) v hv

/-- Checking a component, and checking an object of conditions, finds the same. -/
def SameChecks (ctx : Context) (v w x y : Operand) : Prop := ∀ {t u : Trail} (inOr : Bool),
    (Beside v w t u x y → isSteady t.site inOr x = true →
      Lifts (SameMarks v w) (checkComponent ctx t x).result (checkComponent ctx u y).result) ∧
    ∀ {x₀ y₀ : Operand} (element : Nat), Beside v w t u x₀ y₀ →
      childrenAt x₀ element = x.children → childrenAt y₀ element = y.children →
      isSteadyBelow t.site inOr x.children = true →
      Lifts (SameMarks v w) (checkChildren ctx t element 0 x.children).result
        (checkChildren ctx u element 0 y.children).result

lemma checkElements_sameMarks (h : Beside v w t u x y) {ws : List Operand}
    (hvs : Forall₂ (fun a b => Operand.Reordered a b ∧ SameChecks ctx v w a b) vs ws)
    (hx : HoldsFrom x n vs) (hy : HoldsFrom y n ws)
    (hsteady : isSteadyAmong t.site inOr vs = true) :
    Lifts (SameMarks v w) (checkElements ctx t n vs).result (checkElements ctx u n ws).result ∧
      Lifts (SameMarks v w) (checkAllElements ctx t n vs).result
        (checkAllElements ctx u n ws).result := by
  induction hvs generalizing n with
  | nil => exact ⟨.ok sameMarks_empty, .ok sameMarks_empty⟩
  | @cons a b _ _ hab _ ih =>
    have hchildren := (hab.2 (t := t) (u := u) inOr).2 n h (hx 0 a rfl) (hy 0 b rfl)
      (isSteadyAmong_children hsteady mem_cons_self)
    cases a with
    | expression cs =>
      obtain ⟨ds, rfl, -⟩ := Operand.reordered_expression.1 hab.1
      rw [isSteadyAmong, Bool.and_eq_true] at hsteady
      obtain ⟨hlogic, hall⟩ := ih hx.tail hy.tail hsteady.2
      exact ⟨.resultBind hchildren fun _ _ hf => .resultBind hlogic fun _ _ hg => .ok (hf.append hg),
        .resultBind hchildren fun _ _ hf => .resultBind hall fun _ _ hg => .ok (hf.append hg)⟩
    | simple z =>
      rw [show b = .simple z from hab.1]
      obtain ⟨hlogic, -⟩ := ih hx.tail hy.tail hsteady
      exact ⟨hlogic, checkProperty_sameMarks ctx h.toTwin⟩
    | array _ =>
      obtain ⟨_, rfl, -⟩ := Operand.reordered_array.1 hab.1
      exact ih hx.tail hy.tail hsteady
    | _ =>
      rw [show b = _ from hab.1]
      exact ih hx.tail hy.tail hsteady

/-- **Checks do not depend on the order of keys.** -/
lemma sameChecks (hsets : ctx.catalog.SetFree) (h : Operand.Reordered x y) :
    SameChecks ctx v w x y := by
  refine Operand.Reordered.induction (P := SameChecks ctx v w) ?_ ?_ ?_ x y h
  · intro x hatom t u inOr
    refine ⟨fun hbeside _ => ?_, fun _ _ _ _ _ => ?_⟩
    · have hproperty := checkProperty_sameMarks ctx hbeside.toTwin
      cases x with
      | expression _ | array _ => cases hatom
      | «variable» _ =>
        rw [checkComponent, checkComponent, ← hbeside.site]
        split
        · exact .ok sameMarks_empty
        · exact hproperty
      | _ =>
        unfold checkComponent
        rw [← hbeside.site]
        cases t.site.matchOp? with
        | none => exact hproperty
        | some op =>
          cases op with
          | pattern =>
            exact .resultBind hproperty fun _ _ hmarks =>
              .resultBindEq (checkStrings_same hbeside.toTwin) fun _ => .ok hmarks
          | all | and | or | elemMatch | oneOf | noneOf => exact .ok sameMarks_empty
          | _ => exact hproperty
    · rw [Operand.children_of_isAtom hatom]
      exact .ok sameMarks_empty
  · intro vs ws hvs t u inOr
    refine ⟨fun hbeside hsteady => ?_, fun _ _ _ _ _ => .ok sameMarks_empty⟩
    have hproperty := checkProperty_sameMarks ctx hbeside.toTwin
    rw [isSteady, Bool.and_eq_true] at hsteady
    have helements := checkElements_sameMarks hbeside hvs (holdsFrom_array vs) (holdsFrom_array ws)
      hsteady.2
    have hempty : vs.isEmpty = ws.isEmpty := by cases hvs <;> rfl
    rw [checkComponent, checkComponent, ← hbeside.site, hempty]
    cases t.site.matchOp? with
    | none => exact .error _ _
    | some op =>
      cases op with
      | oneOf | noneOf =>
        dsimp only
        split
        · exact .ok sameMarks_empty
        · exact hproperty
      | all => exact helements.2
      | and | or => exact helements.1
      | elemMatch => exact .ok sameMarks_empty
      | _ => exact hproperty
  · intro cs ds hnodup hcs t u inOr
    have hbelow : ∀ {x₀ y₀ : Operand} (element : Nat), Beside v w t u x₀ y₀ →
        childrenAt x₀ element = cs → childrenAt y₀ element = ds →
        isSteadyBelow t.site inOr cs = true →
        Lifts (SameMarks v w) (checkChildren ctx t element 0 cs).result
          (checkChildren ctx u element 0 ds).result := by
      intro x₀ y₀ element hbeside hx hy hsteady
      rw [checkChildren_result, checkChildren_result]
      have hall := hbeside.mapM hsets hx hy hnodup hcs hsteady (R := SameMarks v w)
        fun _ _ hsame _ hsteady hchild => (hsame inOr).1 hchild hsteady
      intro out hout
      obtain ⟨fs, hfs, rfl⟩ := except_functor_map_ok_iff.1 hout
      obtain ⟨gs, hgs, hpaired⟩ := hall fs hfs
      exact ⟨_, except_functor_map_ok_iff.2 ⟨gs, hgs, rfl⟩, sameMarks_foldr hpaired⟩
    refine ⟨fun hbeside hsteady => ?_, fun element => hbelow element⟩
    rw [isSteady, Bool.and_eq_true] at hsteady
    rw [checkComponent, checkComponent]
    exact hbelow 0 hbeside rfl rfl hsteady.2

end

end Conduit.Match
