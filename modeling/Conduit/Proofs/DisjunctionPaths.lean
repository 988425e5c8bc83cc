import Conduit.Proofs.OrderlessChecks
import Conduit.Proofs.PatternSources

/-!
# Disjunctions in the index query

The steps to the entries of a component tell the logical operators above it and the positions in
their lists; fields are left out, and `$elemMatch` and `$all` count as `$and`.  Entries of two
components meet in one `$or` of the index query if their steps share a prefix that ends there.  The
`$or` of the match is then the same for both, or a field stands above one of them
(`disjunctions_apart`).

The second case is real: in `elements_share_disjunction` the conditions on the elements of two
fields hold an `$or` each, and both are entered into one.
-/

namespace Conduit.Match

open List

/-- A component of a match, with its trail and the positions and keys on the way to it.  Keys are
distinct in each object. -/
inductive Leads (ctx : Context) (v : Operand) : Trail → List (Nat × String) → Operand → Prop
  | root : Leads ctx v (Trail.root ctx v) [] v
  | child {t : Trail} {keys : List (Nat × String)} {x y : Operand} {element index : Nat}
      {key : String} : Leads ctx v t keys x → ((childrenAt x element).map Prod.fst).Nodup →
      (childrenAt x element)[index]? = some (key, y) →
      Leads ctx v (t.child ctx element index key y) (keys ++ [(element, key)]) y

/-- The `$or` above a component that gives the step after `before`. -/
structure GivesOr (t : Trail) (before : List IndexStep) (u : Trail) : Prop where
  above : u <:+ t
  key : u.site.key = "$or"
  inside : u.site.isRoot = false
  steps : u.steps = before

/-- Whether a field stands above a component. -/
def belowField (u : Trail) : Bool := u.site.enclosing.any fun key => !Path.isOperator key

variable {ctx : Context} {value : Json} {v x y x₁ x₂ : Operand} {t t₁ t₂ u u₁ u₂ : Trail}
  {keys keys₁ keys₂ : List (Nat × String)} {element index e₁ e₂ : Nat} {key : String}
  {before : List IndexStep} {width : Nat} {cs : Children} {c : String × Operand}

section

variable (h : Leads ctx v t keys x)

include h

lemma Leads.ne_nil : t ≠ [] := by
  induction h with
  | root => exact root_ne_nil ctx v
  | child _ _ _ ih => exact child_ne_nil ih _ _ _ _

lemma Leads.reaches : Reaches v t.address keys x := by
  induction h with
  | root => exact .here
  | child h hnodup hget ih =>
    rw [address_child h.ne_nil]
    exact .child ih hnodup hget

lemma Leads.above (hu : u <:+ t) (hne : u ≠ []) : ∃ keys y, Leads ctx v u keys y := by
  induction h with
  | root =>
    rcases suffix_cons_iff.1 hu with rfl | hu
    · exact ⟨_, _, .root⟩
    · exact absurd (suffix_nil.1 hu) hne
  | @child t _ _ _ _ _ _ h hnodup hget ih =>
    cases t with
    | nil => exact absurd rfl h.ne_nil
    | cons f rest =>
      rcases suffix_cons_iff.1 hu with rfl | hu
      · exact ⟨_, _, .child h hnodup hget⟩
      · exact ih hu

lemma Leads.names :
    t.site.key :: t.site.enclosing = (keys.map Prod.snd).reverse ++ [ctx.kind.key] := by
  induction h with
  | root => rfl
  | child h _ _ ih =>
    rw [site_child h.ne_nil]
    simp [Site.child, ih]

/-! ## What may hold an object -/

/-- The closest key above the objects of a component. -/
def holder (keys : List (Nat × String)) : String := (keys.getLast?.map Prod.snd).getD "$match"

lemma Leads.vetted (hparse : parse ctx value = .ok v)
    (hget : (childrenAt x element)[index]? = some (key, y)) :
    VettedKey ctx (holder keys) key ∧ Vetted ctx key y := by
  have hmem := mem_of_getElem? hget
  induction h generalizing element index key y with
  | root =>
    obtain ⟨cs, rfl, hcs⟩ := parse_vetted hparse
    cases element with
    | zero => exact vettedBelow_iff.1 hcs _ hmem
    | succ n => exact absurd hmem not_mem_nil
  | child _ _ hget' ih =>
    have hbelow := vettedBelow_childrenAt (ih hget' (mem_of_getElem? hget')).2 element
    simpa [holder] using vettedBelow_iff.1 hbelow _ hmem

end

lemma position_of_expression (h : (childrenAt (.expression cs) element)[index]? = some c) :
    element = 0 := by
  cases element with
  | zero => rfl
  | succ n => simp [childrenAt] at h

lemma position_of_vetted (h : Vetted ctx key x) (hkey : MatchOp.isLogicalKey key = false)
    (hget : (childrenAt x element)[index]? = some c) : element = 0 := by
  cases x with
  | expression cs => exact position_of_expression hget
  | array elements =>
    have hnot := h.1.not_expression fun hmem => by
      simp only [mem_cons, not_mem_nil, or_false] at hmem
      rcases hmem with rfl | rfl | rfl <;> exact absurd hkey (by decide)
    have hempty : childrenAt (.array elements) element = [] := by
      rw [childrenAt]
      split
      · next hcs => exact absurd (hnot _ (mem_of_getElem? hcs)) (by simp [Operand.isExpression])
      · rfl
    simp [hempty] at hget
  | _ => simp [childrenAt] at hget

/-- Where no field is above, an operator is `$and` or `$or`. -/
lemma VettedKey.logical {above : String}
    (habove : above = "$match" ∨ above = "$and" ∨ above = "$or") (h : VettedKey ctx above key)
    (hop : Path.isOperator key = true) : key = "$and" ∨ key = "$or" := by
  obtain ⟨op, hkey, -, hstands⟩ := h.operator hop
  have habove : Path.isOperator above = true ∧ above ≠ "$elemMatch" ∧ above ≠ "$all" := by
    rcases habove with rfl | rfl | rfl <;> decide +kernel
  rw [← MatchOp.key_of_ofKey? hkey]
  cases op <;> simp_all [Stands, MatchOp.key]

/-- Every name on the way is an operator. -/
def Fieldless (keys : List (Nat × String)) : Prop := ∀ k ∈ keys, Path.isOperator k.2 = true

lemma Leads.logical (h : Leads ctx v t keys x) (hparse : parse ctx value = .ok v)
    (hkeys : Fieldless keys) : ∀ k ∈ keys, k.2 = "$and" ∨ k.2 = "$or" := by
  induction h with
  | root => exact nofun
  | @child _ keys _ _ _ _ _ h _ hget ih =>
    obtain ⟨hfront, hlast⟩ := forall_mem_append.1 hkeys
    refine forall_mem_append.2 ⟨ih hfront, forall_mem_singleton.2 ?_⟩
    refine VettedKey.logical ?_ (h.vetted hparse hget).1 (hlast _ (mem_singleton_self _))
    cases hcase : keys.getLast? with
    | none => exact .inl (by simp [holder, hcase])
    | some k => exact .inr (by simpa [holder, hcase] using ih hfront k (mem_of_getLast? hcase))

/-! ## Steps -/

/-- **The steps to an object tell the way to it**, if no field is on it or the names on it are known.
The induction is on one way; the last keys are the same by name, or by the step that they give. -/
lemma Leads.way_unique (hparse : parse ctx value = .ok v) (h₁ : Leads ctx v t₁ keys₁ x₁)
    (h₂ : Leads ctx v t₂ keys₂ x₂)
    (hnames : Fieldless keys₁ ∧ Fieldless keys₂ ∨ keys₁.map Prod.snd = keys₂.map Prod.snd)
    {c₁ c₂ : String × Operand} {i₁ i₂ : Nat} (hc₁ : (childrenAt x₁ e₁)[i₁]? = some c₁)
    (hc₂ : (childrenAt x₂ e₂)[i₂]? = some c₂) (hsteps : objectSteps t₁ e₁ = objectSteps t₂ e₂) :
    keys₁ = keys₂ ∧ e₁ = e₂ := by
  -- below a fieldless way there is a step for the last operator, so that it cannot be the whole match
  have hnonempty : ∀ {t keys x element index key y position}, Leads ctx v t keys x → t ≠ [] →
      Leads ctx v (t.child ctx element index key y) (keys ++ [(element, key)]) y →
      Fieldless (keys ++ [(element, key)]) →
      objectSteps (t.child ctx element index key y) position ≠ [] := by
    intro t keys x element index key y position _ hne hchild hkeys
    rw [objectSteps_child hne, stepsOf_logical (hchild.logical hparse hkeys _
      (mem_append_right _ (mem_singleton_self _)))]
    simp
  induction h₁ generalizing t₂ keys₂ x₂ e₁ e₂ c₁ c₂ i₁ i₂ with
  | root =>
    cases h₂ with
    | root =>
      obtain ⟨cs, rfl, -⟩ := parse_vetted hparse
      exact ⟨rfl, (position_of_expression hc₁).trans (position_of_expression hc₂).symm⟩
    | child h₂ hnodup hget =>
      rcases hnames with ⟨-, hkeys⟩ | hnames
      · exact absurd hsteps.symm (hnonempty h₂ h₂.ne_nil (.child h₂ hnodup hget) hkeys)
      · simp at hnames
  | @child t₁ front₁ _ y₁ f₁ _ key₁ h₁ hnodup₁ hget₁ ih =>
    cases h₂ with
    | root =>
      rcases hnames with ⟨hkeys, -⟩ | hnames
      · exact absurd hsteps (hnonempty h₁ h₁.ne_nil (.child h₁ hnodup₁ hget₁) hkeys)
      · simp at hnames
    | @child t₂ front₂ _ _ f₂ _ key₂ h₂ hnodup₂ hget₂ =>
      rw [objectSteps_child h₁.ne_nil, objectSteps_child h₂.ne_nil] at hsteps
      obtain ⟨rfl, hfront⟩ : key₁ = key₂ ∧ (Fieldless front₁ ∧ Fieldless front₂ ∨
          front₁.map Prod.snd = front₂.map Prod.snd) := by
        rcases hnames with ⟨hkeys₁, hkeys₂⟩ | hnames
        · have hkey₁ := (Leads.child h₁ hnodup₁ hget₁).logical hparse hkeys₁ _
            (mem_append_right _ (mem_singleton_self _))
          have hkey₂ := (Leads.child h₂ hnodup₂ hget₂).logical hparse hkeys₂ _
            (mem_append_right _ (mem_singleton_self _))
          rw [stepsOf_logical hkey₁, stepsOf_logical hkey₂] at hsteps
          have hlast := (append_inj' hsteps rfl).2
          refine ⟨?_, .inl ⟨(forall_mem_append.1 hkeys₁).1, (forall_mem_append.1 hkeys₂).1⟩⟩
          rcases hkey₁ with rfl | rfl <;> rcases hkey₂ with rfl | rfl <;> simp at hlast ⊢
        · rw [map_append, map_append] at hnames
          obtain ⟨hfront, hlast⟩ := append_inj' hnames rfl
          exact ⟨(cons.inj hlast).1, .inr hfront⟩
      obtain ⟨hfirst, hlast⟩ := append_inj' hsteps (by unfold stepsOf; split <;> rfl)
      obtain ⟨rfl, rfl⟩ := ih h₂ hfront hget₁ hget₂ hfirst
      refine ⟨rfl, ?_⟩
      cases hlogical : MatchOp.isLogicalKey key₁ with
      | true =>
        simp only [stepsOf, hlogical, if_true, cons.injEq, IndexStep.position.injEq] at hlast
        exact hlast.2.1
      | false =>
        exact (position_of_vetted (h₁.vetted hparse hget₁).2 hlogical hc₁).trans
          (position_of_vetted (h₂.vetted hparse hget₂).2 hlogical hc₂).symm

lemma exists_givesOr (h : before ++ [.or width] <+: t.steps) : ∃ u, GivesOr t before u := by
  fun_induction Trail.steps t with
  | case1 f g rest ih =>
    have hup : (∃ u, GivesOr (g :: rest) before u) → ∃ u, GivesOr (f :: g :: rest) before u :=
      fun ⟨u, hu⟩ => ⟨u, { hu with above := hu.above.trans (suffix_cons ..) }⟩
    split at h
    · next hlogical =>
      simp only [Bool.and_eq_true, Bool.not_eq_true'] at hlogical
      rw [append_cons (Trail.steps _), prefix_concat_iff, prefix_concat_iff] at h
      rcases h with h | h | h
      · cases (cons.inj (append_inj' h rfl).2).1
      · obtain ⟨hbefore, hstep⟩ := append_inj' h rfl
        refine ⟨g :: rest, suffix_cons .., ?_, hlogical.1, hbefore.symm⟩
        by_contra hkey
        change g.site.key ≠ "$or" at hkey
        simp [hkey] at hstep
      · exact hup (ih h)
    · rw [append_nil] at h
      exact hup (ih h)
  | case2 => exact absurd (prefix_nil.1 h) (by simp)

/-- The `$or` that gives a step is a key in an object, and the step comes after those to it. -/
lemma Leads.of_givesOr (h : Leads ctx v t keys x) (hu : GivesOr t before u) :
    ∃ t' front x' element index y, Leads ctx v t' front x' ∧
      (childrenAt x' element)[(index : Nat)]? = some ("$or", y) ∧
      Leads ctx v u (front ++ [(element, "$or")]) y ∧ objectSteps t' element = before := by
  have hne : u ≠ [] := by
    rintro rfl
    exact absurd hu.key (by decide)
  obtain ⟨keys', y, hleads⟩ := h.above hu.above hne
  cases hleads with
  | root => exact absurd hu.inside (by simp [Trail.root, Trail.site, Site.root, Site.isRoot])
  | child h' hnodup hget =>
    have hkey := hu.key
    rw [site_child h'.ne_nil] at hkey
    cases hkey
    exact ⟨_, _, _, _, _, _, h', hget, .child h' hnodup hget, (steps_child ..).symm.trans hu.steps⟩

lemma Leads.enclosing (h : Leads ctx v t (keys ++ [(element, key)]) x) :
    t.site.enclosing = (keys.map Prod.snd).reverse ++ [ctx.kind.key] := by
  have hnames := h.names
  rw [map_append, reverse_append] at hnames
  exact (cons.inj hnames).2

lemma Leads.fieldless (h : Leads ctx v t (keys ++ [(element, key)]) x)
    (hfield : belowField t = false) : Fieldless keys := by
  rw [belowField, h.enclosing, any_eq_false] at hfield
  intro k hk
  simpa using hfield k.2 (mem_append_left _ (mem_reverse.2 (mem_map_of_mem hk)))

/-- **Entries that meet in one `$or` come from one `$or`, or from below fields.**  If the steps of two
components share a prefix that ends in an `$or`, each has an `$or` above it that gives the step.
They are the same component, unless their places differ and a field stands above one of them. -/
theorem disjunctions_apart (hparse : parse ctx value = .ok v) (h₁ : Leads ctx v t₁ keys₁ x₁)
    (h₂ : Leads ctx v t₂ keys₂ x₂) (hsteps₁ : before ++ [.or width] <+: t₁.steps)
    (hsteps₂ : before ++ [.or width] <+: t₂.steps) :
    (∃ u₁, GivesOr t₁ before u₁) ∧ (∃ u₂, GivesOr t₂ before u₂) ∧
      ∀ u₁ u₂, GivesOr t₁ before u₁ → GivesOr t₂ before u₂ → u₁.address = u₂.address ∨
        u₁.site ≠ u₂.site ∧ (belowField u₁ = true ∨ belowField u₂ = true) := by
  refine ⟨exists_givesOr hsteps₁, exists_givesOr hsteps₂, fun u₁ u₂ hu₁ hu₂ => ?_⟩
  obtain ⟨_, front₁, _, e₁, _, _, hup₁, hget₁, hl₁, hs₁⟩ := h₁.of_givesOr hu₁
  obtain ⟨_, front₂, _, e₂, _, _, hup₂, hget₂, hl₂, hs₂⟩ := h₂.of_givesOr hu₂
  have hsame : (Fieldless front₁ ∧ Fieldless front₂ ∨
      front₁.map Prod.snd = front₂.map Prod.snd) → u₁.address = u₂.address := fun hnames => by
    obtain ⟨rfl, rfl⟩ := hup₁.way_unique hparse hup₂ hnames hget₁ hget₂ (hs₁.trans hs₂.symm)
    exact (hl₁.reaches.unique hl₂.reaches).1.2 rfl
  refine or_iff_not_imp_left.2 fun hne => ⟨fun hsite => hne (hsame (.inr ?_)), ?_⟩
  · have hnames := congrArg Site.enclosing hsite
    rw [hl₁.enclosing, hl₂.enclosing] at hnames
    exact reverse_injective (append_cancel_right hnames)
  · by_contra hfields
    simp only [not_or, Bool.not_eq_true] at hfields
    exact hne (hsame (.inl ⟨hl₁.fieldless hfields.1, hl₂.fieldless hfields.2⟩))

/-! ## Choices about elements -/

/-- Conditions on the elements of two fields, each with a choice. -/
def elementChoices : Json :=
  let choice (a b : Int) := Json.obj [("$elemMatch", .obj [("$or", .arr [.obj [("c_x", .int a)],
    .obj [("c_y", .int b)]])])]
  .obj [("c_a", choice 1 2), ("c_b", choice 3 4)]

def choice (a b : Int) : Operand :=
  .array [.expression [("c_x", .simple (.int a))], .expression [("c_y", .simple (.int b))]]

def parsedChoice (a b : Int) : Operand :=
  .expression [("$elemMatch", .expression [("$or", choice a b)])]

def parsedChoices : Operand := .expression [("c_a", parsedChoice 1 2), ("c_b", parsedChoice 3 4)]

lemma parse_elementChoices : parse plainContext elementChoices = .ok parsedChoices := by
  with_unfolding_all rfl

/-- The trail of the `$or` in a choice. -/
def choiceTrail (index : Nat) (name : String) (a b : Int) : Trail :=
  (((Trail.root plainContext parsedChoices).child plainContext 0 index name (parsedChoice a b)).child
    plainContext 0 0 "$elemMatch" (.expression [("$or", choice a b)])).child
    plainContext 0 0 "$or" (choice a b)

/-- Some component has the `$or` above it and is entered there, after the steps `before`. -/
def EntersOr (ctx : Context) (v : Operand) (before : List IndexStep) (width : Nat) (u : Trail) :
    Prop :=
  ∃ t keys x, Leads ctx v t keys x ∧ before ++ [.or width] <+: t.steps ∧ GivesOr t before u

/-- A choice about elements is entered into an `$or` at the same place for all fields. -/
lemma enters_choice {i : Nat} {name : String} {a b : Int}
    (hget : (childrenAt parsedChoices 0)[i]? = some (name, parsedChoice a b))
    (hsteps : (choiceTrail i name a b).steps = [.and, .position 0]) :
    EntersOr plainContext parsedChoices [.and, .position 0] 2 (choiceTrail i name a b) := by
  have hfield : Leads plainContext parsedChoices (Trail.child plainContext _ 0 i name _)
      _ (parsedChoice a b) := .child .root (by simp [parsedChoices, childrenAt]) hget
  have helements : Leads plainContext parsedChoices (Trail.child plainContext _ 0 0 _ _) _ _ :=
    .child hfield (nodup_singleton _) rfl
  have hchoice : Leads plainContext parsedChoices (choiceTrail i name a b) _ _ :=
    .child helements (nodup_singleton _) rfl
  have hbranch : objectSteps (choiceTrail i name a b) 0 =
      (choiceTrail i name a b).steps ++ [.or 2, .position 0] :=
    objectSteps_child helements.ne_nil 0 0 0 "$or" _
  refine ⟨Trail.child plainContext _ 0 0 "c_x" (.simple (.int a)), _, _,
    .child hchoice (nodup_singleton _) rfl, ⟨[.position 0], ?_⟩, suffix_cons _ _, rfl, rfl, hsteps⟩
  rw [steps_child, hbranch, hsteps]
  rfl

lemma choices_enter : ∃ u₁ u₂, EntersOr plainContext parsedChoices [.and, .position 0] 2 u₁ ∧
    EntersOr plainContext parsedChoices [.and, .position 0] 2 u₂ ∧ u₁.address ≠ u₂.address :=
  ⟨_, _, enters_choice (i := 0) rfl (by rfl), enters_choice (i := 1) rfl (by rfl), by
    simp [choiceTrail, Trail.child, Trail.root, Trail.address]⟩

/-- The choices of two fields enter one `$or` from different places, below these fields. -/
theorem choices_below_fields : ∃ u₁ u₂, parse plainContext elementChoices = .ok parsedChoices ∧
    EntersOr plainContext parsedChoices [.and, .position 0] 2 u₁ ∧
    EntersOr plainContext parsedChoices [.and, .position 0] 2 u₂ ∧
    u₁.site ≠ u₂.site ∧ (belowField u₁ = true ∨ belowField u₂ = true) := by
  obtain ⟨u₁, u₂, henters₁, henters₂, hne⟩ := choices_enter
  obtain ⟨t₁, _, _, h₁, hs₁, hu₁⟩ := id henters₁
  obtain ⟨t₂, _, _, h₂, hs₂, hu₂⟩ := id henters₂
  have hapart := (disjunctions_apart parse_elementChoices h₁ h₂ hs₁ hs₂).2.2 u₁ u₂ hu₁ hu₂
  exact ⟨u₁, u₂, parse_elementChoices, henters₁, henters₂, hapart.resolve_left hne⟩

/-- **Two different `$or` operators can enter one**: it is not so that entries which meet in an
`$or` always come from the same one. -/
theorem elements_share_disjunction : ¬∀ ctx value v before width u₁ u₂, parse ctx value = .ok v →
    EntersOr ctx v before width u₁ → EntersOr ctx v before width u₂ → u₁.address = u₂.address := by
  intro hall
  obtain ⟨u₁, u₂, h₁, h₂, hne⟩ := choices_enter
  exact hne (hall _ _ _ _ _ u₁ u₂ parse_elementChoices h₁ h₂)

end Conduit.Match
