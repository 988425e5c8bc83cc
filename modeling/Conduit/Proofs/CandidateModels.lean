import Conduit.Proofs.MatchConditions
import Conduit.Proofs.TrailSteps
import Conduit.Schema.Load

/-!
# The models a match leaves

A match is a formula about the models it runs against: its conditions on `object` and `type` are
tests of names, objects and `$and` mean all of them and `$or` some, and whatever else it says
holds of every model.  The candidate models are the ones that satisfy the formula
(`candidates_satisfy_match`).
-/

namespace Conduit

open List

namespace Operand

mutual

/-- Whether no `$all` inside is empty. -/
def noEmptyAll : Operand → Bool
  | .expression cs => noEmptyAllBelow cs
  | .array elements => noEmptyAllAmong elements
  | _ => true

def noEmptyAllBelow : Children → Bool
  | [] => true
  | (key, v) :: rest => (key != "$all" || !v.elements.isEmpty) && noEmptyAll v && noEmptyAllBelow rest

def noEmptyAllAmong : List Operand → Bool
  | [] => true
  | v :: rest => noEmptyAll v && noEmptyAllAmong rest

end

end Operand

namespace Match

/-! ## Formulas -/

/-- Whether a model passes a test of its object or type.  A model without types fails every test
of the type. -/
def Passes (c : Catalog) (m : ModelId) (field : Selector) (filter : NameFilter) : Prop :=
  match field with
  | .object => filter.accepts (some (c.model m).object) = true
  | .type => (c.model m).isTyped = true ∧ filter.accepts (c.model m).type = true

/-- Whether a model passes the comparison of a selector with a literal. -/
def PassesLiteral (c : Catalog) (m : ModelId) (field : Selector) (op : CompareOp) (v : Json) :
    Prop :=
  ∃ t, NameTest.ofJson? v op (field == .type) = some t ∧ Passes c m field (.test t)

/-- Whether a model equals an element of a list; it may equal a placeholder. -/
def PassesElement (c : Catalog) (m : ModelId) (field : Selector) : Operand → Prop
  | .simple v => PassesLiteral c m field .eq v
  | _ => True

/-- Whether a model passes an operator on a selector. -/
def PassesOperator (c : Catalog) (m : ModelId) (field : Selector) (op : MatchOp) : Operand → Prop
  | .simple v =>
    match op with
    | .eq | .pattern => PassesLiteral c m field .eq v
    | .ne => PassesLiteral c m field .ne v
    | .gt => PassesLiteral c m field .gt v
    | .gte => PassesLiteral c m field .gte v
    | .lt => PassesLiteral c m field .lt v
    | .lte => PassesLiteral c m field .lte v
    | _ => True
  | .array elements =>
    match op with
    | .oneOf => ∃ e ∈ elements, PassesElement c m field e
    | .noneOf => (∃ e ∈ elements, e.isVariable = true) ∨
      (field = .type → (c.model m).isTyped = true) ∧ ∀ e ∈ elements, ¬PassesElement c m field e
    | _ => True
  | _ => True

/-- Whether a model passes the condition on a selector. -/
def PassesField (c : Catalog) (m : ModelId) (field : Selector) : Operand → Prop
  | .simple v => PassesLiteral c m field .eq v
  | .expression ops =>
    ∀ o ∈ ops, ∀ op, MatchOp.ofKey? o.1 = some op → PassesOperator c m field op o.2
  | _ => True

mutual

/-- Whether a model satisfies a condition. -/
def Satisfies (c : Catalog) (m : ModelId) (key : String) : Operand → Prop
  | .array elements =>
    if key = "$and" then SatisfiesEach c m elements
    else if key = "$or" then SatisfiesSome c m elements
    else True
  | v =>
    match Selector.ofPath? key with
    | some field => PassesField c m field v
    | none => True

/-- Whether a model satisfies an object of conditions. -/
def SatisfiesAll (c : Catalog) (m : ModelId) : Children → Prop
  | [] => True
  | (key, v) :: rest => Satisfies c m key v ∧ SatisfiesAll c m rest

def SatisfiesEach (c : Catalog) (m : ModelId) : List Operand → Prop
  | [] => True
  | .expression cs :: rest => SatisfiesAll c m cs ∧ SatisfiesEach c m rest
  | _ :: rest => SatisfiesEach c m rest

def SatisfiesSome (c : Catalog) (m : ModelId) : List Operand → Prop
  | [] => False
  | .expression cs :: rest => SatisfiesAll c m cs ∨ SatisfiesSome c m rest
  | _ :: _ => True

end

/-- Whether a model satisfies an element of a logical operator. -/
def SatisfiesElement (c : Catalog) (m : ModelId) : Operand → Prop
  | .expression cs => SatisfiesAll c m cs
  | _ => True

section

variable {c : Catalog} {m : ModelId} {elements : List Operand}

lemma satisfiesAll_iff {cs : Children} : SatisfiesAll c m cs ↔ ∀ x ∈ cs, Satisfies c m x.1 x.2 := by
  induction cs with
  | nil => simp [SatisfiesAll]
  | cons x rest ih => simp [SatisfiesAll, ih]

lemma satisfiesEach_iff : SatisfiesEach c m elements ↔ ∀ e ∈ elements, SatisfiesElement c m e := by
  induction elements with
  | nil => simp [SatisfiesEach]
  | cons e rest ih => cases e <;> simp [SatisfiesEach, SatisfiesElement, ih]

lemma satisfiesSome_iff : SatisfiesSome c m elements ↔ ∃ e ∈ elements, SatisfiesElement c m e := by
  induction elements with
  | nil => simp [SatisfiesSome]
  | cons e rest ih => cases e <;> simp [SatisfiesSome, SatisfiesElement, ih]

end

/-! ## Sets of models -/

/-- `found` are the models that have a property, each once. -/
def Selects (models found : List ModelId) (P : ModelId → Prop) : Prop :=
  found.Nodup ∧ ∀ m, m ∈ found ↔ m ∈ models ∧ P m

section

variable {models found : List ModelId} {P Q : ModelId → Prop}

lemma Selects.congr (h : Selects models found P) (hPQ : ∀ m, P m ↔ Q m) : Selects models found Q :=
  ⟨h.1, fun m => by rw [h.2, hPQ]⟩

lemma selects_all (hnodup : models.Nodup) (hP : ∀ m, P m) : Selects models models P :=
  ⟨hnodup, fun m => (and_iff_left (hP m)).symm⟩

lemma selects_filter (hnodup : models.Nodup) {p : ModelId → Bool} (hp : ∀ m, p m = true ↔ P m) :
    Selects models (models.filter p) P :=
  ⟨hnodup.filter p, fun m => by rw [mem_filter, hp]⟩

lemma Selects.inter {other : List ModelId} (h : Selects models found P)
    (h' : Selects models other Q) :
    Selects models (found.filter other.contains) fun m => P m ∧ Q m := by
  refine ⟨h.1.filter _, fun m => ?_⟩
  rw [mem_filter, contains_iff_mem, h.2, h'.2]
  constructor
  · rintro ⟨⟨hm, hP⟩, -, hQ⟩
    exact ⟨hm, hP, hQ⟩
  · rintro ⟨hm, hP, hQ⟩
    exact ⟨⟨hm, hP⟩, hm, hQ⟩

variable {groups : List (List ModelId)} {α : Type} {R : α → ModelId → Prop} {xs : List α}

/-- **The intersection of sets** selects what has all their properties. -/
lemma intersectModels_selects (hne : xs ≠ [])
    (h : List.Forall₂ (fun x g => Selects models g (R x)) xs groups) :
    Selects models (intersectModels groups) fun m => ∀ x ∈ xs, R x m := by
  have hfold : ∀ {P : ModelId → Prop} {acc : List ModelId} {ys : List α}
      {gs : List (List ModelId)}, Selects models acc P →
      List.Forall₂ (fun x g => Selects models g (R x)) ys gs →
      Selects models (gs.foldl (fun acc group => acc.filter group.contains) acc)
        fun m => P m ∧ ∀ x ∈ ys, R x m := by
    intro P acc ys gs hacc hall
    induction hall generalizing acc P with
    | nil => exact hacc.congr fun m => by simp
    | cons hfirst _ ih => exact (ih (hacc.inter hfirst)).congr fun m => by simp [and_assoc]
  cases h with
  | nil => exact absurd rfl hne
  | cons hfirst hrest => exact (hfold hfirst hrest).congr fun m => by simp

lemma mem_foldl_addNew {x : Nat} : ∀ xs acc : List Nat,
    x ∈ xs.foldl (fun acc y => if acc.contains y then acc else acc ++ [y]) acc ↔ x ∈ acc ∨ x ∈ xs
  | [], acc => by simp
  | y :: rest, acc => by
    rw [foldl_cons, mem_foldl_addNew rest, mem_cons]
    split
    · next hy =>
      have hy : y ∈ acc := contains_iff_mem.1 hy
      constructor
      · exact fun h => h.imp id .inr
      · rintro (h | rfl | h)
        · exact .inl h
        · exact .inl hy
        · exact .inr h
    · rw [mem_append, mem_singleton, or_assoc]

lemma nodup_foldl_addNew : ∀ xs acc : List Nat, acc.Nodup →
    (xs.foldl (fun acc y => if acc.contains y then acc else acc ++ [y]) acc).Nodup
  | [], acc, hacc => hacc
  | y :: rest, acc, hacc => by
    refine nodup_foldl_addNew rest _ ?_
    dsimp only
    split
    · exact hacc
    · next hy =>
      have hy : y ∉ acc := fun hmem => hy (contains_iff_mem.2 hmem)
      rw [nodup_append]
      exact ⟨hacc, nodup_singleton y, fun x hx z hz => by
        rw [mem_singleton.1 hz]
        rintro rfl
        exact hy hx⟩

lemma mem_unionModels {m : ModelId} : m ∈ unionModels groups ↔ ∃ g ∈ groups, m ∈ g := by
  rw [unionModels, mem_foldl_addNew]
  simp

lemma nodup_unionModels (groups : List (List ModelId)) : (unionModels groups).Nodup :=
  nodup_foldl_addNew _ _ nodup_nil

/-- **The union of sets** selects what has one of their properties. -/
lemma unionModels_selects (h : List.Forall₂ (fun x g => Selects models g (R x)) xs groups) :
    Selects models (unionModels groups) fun m => ∃ x ∈ xs, R x m := by
  refine ⟨nodup_unionModels groups, fun m => ?_⟩
  rw [mem_unionModels]
  induction h with
  | nil => simp
  | cons hfirst _ ih =>
    simp only [mem_cons, exists_eq_or_imp, hfirst.2 m, ih]
    rw [← and_or_left]

end

/-! ## Tests -/

section

variable {ctx : Context} {site : Site} {field : Selector} {models found : List ModelId}

lemma modelsMatching_selects {filter : NameFilter} (hnodup : models.Nodup)
    (h : modelsMatching ctx site field filter models = .ok found) :
    Selects models found fun m => Passes ctx.catalog m field filter := by
  cases field with
  | object =>
    simp only [modelsMatching, except_guard_ok_iff] at h
    cases h.2
    exact selects_filter hnodup fun m => Iff.rfl
  | type =>
    have hfound : (models.filter fun m => (ctx.catalog.model m).isTyped).filter
        (fun m => filter.accepts (ctx.catalog.model m).type) = found := by
      simp only [modelsMatching] at h
      split at h
      · simp only [except_guard_ok_iff] at h
        cases h.2.2
        rfl
      · cases h
        rfl
    rw [← hfound, filter_filter]
    exact selects_filter hnodup fun m => by simp [Passes, and_comm]

variable {t : NameTest} {op : CompareOp} {v : Json} {groups : List (List ModelId)}
  {elements : List Operand} {vars : Bool} {key : String} {c : Catalog} {m : ModelId}
  {ts : List NameTest} {ops : Children}

lemma nameTest_ok (h : nameTest site field v op = .ok t) :
    NameTest.ofJson? v op (field == .type) = some t := by
  unfold nameTest at h
  dsimp only at h
  split at h
  · next t' ht =>
    cases h
    exact ht
  · cases h

lemma passesLiteral_iff (h : NameTest.ofJson? v op (field == .type) = some t) :
    PassesLiteral c m field op v ↔ Passes c m field (.test t) := by
  unfold PassesLiteral
  rw [h]
  simp

lemma literal_selects (hnodup : models.Nodup) (ht : nameTest site field v op = .ok t)
    (h : modelsMatching ctx site field (.test t) models = .ok found) :
    Selects models found fun m => PassesLiteral ctx.catalog m field op v :=
  (modelsMatching_selects hnodup h).congr fun _ => (passesLiteral_iff (nameTest_ok ht)).symm

lemma modelsOneOf_selects (hnodup : models.Nodup)
    (h : modelsOneOf ctx site field models elements = .ok groups) :
    List.Forall₂ (fun e g => Selects models g fun m => PassesElement ctx.catalog m field e)
      elements groups := by
  induction elements generalizing groups with
  | nil =>
    cases h
    exact .nil
  | cons e rest ih =>
    cases e with
    | simple v =>
      simp only [modelsOneOf, except_bind_ok_iff] at h
      obtain ⟨t, ht, first, hfirst, tail, htail, h⟩ := h
      cases h
      exact .cons (literal_selects hnodup ht hfirst) (ih htail)
    | _ =>
      simp only [modelsOneOf, except_bind_ok_iff] at h
      obtain ⟨tail, htail, h⟩ := h
      cases h
      exact .cons (selects_all hnodup fun m => trivial) (ih htail)

lemma exclusions_none (h : exclusions site field elements = .ok none) :
    ∃ e ∈ elements, e.isSimple = false := by
  induction elements with
  | nil => cases h
  | cons e rest ih =>
    cases e with
    | simple v =>
      simp only [exclusions, except_bind_ok_iff] at h
      obtain ⟨t, -, more, hmore, h⟩ := h
      cases more with
      | none =>
        obtain ⟨e, he, hsimple⟩ := ih hmore
        exact ⟨e, mem_cons_of_mem _ he, hsimple⟩
      | some ts => cases h
    | _ => exact ⟨_, mem_cons_self, rfl⟩

lemma exclusions_some (h : exclusions site field elements = .ok (some ts)) :
    List.Forall₂ (fun e t => ∃ v, e = .simple v ∧
      NameTest.ofJson? v .eq (field == .type) = some t) elements ts := by
  induction elements generalizing ts with
  | nil =>
    cases h
    exact .nil
  | cons e rest ih =>
    cases e with
    | simple v =>
      simp only [exclusions, except_bind_ok_iff] at h
      obtain ⟨t, ht, more, hmore, h⟩ := h
      cases more with
      | none => cases h
      | some ts =>
        cases h
        exact .cons ⟨v, rfl, nameTest_ok ht⟩ (ih hmore)
    | _ => cases h

/-- Models that a list of tests leaves equal none of its elements. -/
lemma passes_exclude_iff
    (h : List.Forall₂ (fun e t => ∃ v, e = .simple v ∧ NameTest.ofJson? v .eq (field == .type) = some t)
      elements ts) :
    Passes c m field (.exclude ts) ↔ (field = .type → (c.model m).isTyped = true) ∧
      ∀ e ∈ elements, ¬PassesElement c m field e := by
  have helements : ∀ name, (field = .type → (c.model m).isTyped = true) →
      (∀ t, Passes c m field (.test t) ↔ t.accepts name = true) →
      (NameFilter.accepts (.exclude ts) name = true ↔ ∀ e ∈ elements, ¬PassesElement c m field e) := by
    intro name _ hname
    induction h with
    | nil => simp [NameFilter.accepts]
    | @cons e t es ts hfirst _ ih =>
      obtain ⟨v, rfl, ht⟩ := hfirst
      simp only [NameFilter.accepts, any_cons, Bool.not_or, Bool.and_eq_true,
        Bool.not_eq_true', forall_mem_cons] at ih ⊢
      rw [ih, PassesElement, passesLiteral_iff ht, hname, Bool.not_eq_true]
  cases field with
  | object =>
    rw [Passes, helements (some (c.model m).object) nofun fun t => Iff.rfl]
    simp
  | type =>
    rw [Passes]
    by_cases htyped : (c.model m).isTyped = true
    · rw [helements (c.model m).type (fun _ => htyped) fun t => and_iff_right htyped]
      simp [htyped]
    · simp [htyped]

/-- **An operator on a selector** leaves the models that pass it. -/
lemma leafModels_selects {op : MatchOp} {v : Operand} (hnodup : models.Nodup)
    (hvalue : OpenValue vars op v)
    (hkind : (∃ w, v = .simple w) ∧ (op.compareOp?.isSome = true ∨ op = .pattern) ∨ op = .oneOf ∨ op = .noneOf)
    (h : leafModels ctx site field op v models = .ok found) :
    Selects models found fun m => PassesOperator ctx.catalog m field op v := by
  rcases hkind with ⟨⟨w, rfl⟩, hop⟩ | rfl | rfl
  · cases op <;> simp only [MatchOp.compareOp?, Option.isSome_none, Bool.false_eq_true, reduceCtorEq,
      or_self, or_false] at hop
    all_goals
      simp only [leafModels, except_bind_ok_iff] at h
      obtain ⟨t, ht, h⟩ := h
      exact literal_selects hnodup ht h
  · cases v with
    | array elements =>
      simp only [leafModels, except_functor_map_ok_iff] at h
      obtain ⟨groups, hgroups, rfl⟩ := h
      exact unionModels_selects (modelsOneOf_selects hnodup hgroups)
    | simple => exact False.elim hvalue
    | _ => cases h
  · cases v with
    | array elements =>
      simp only [leafModels, except_bind_ok_iff] at h
      obtain ⟨ts, hts, h⟩ := h
      cases ts with
      | none =>
        cases h
        obtain ⟨e, he, hsimple⟩ := exclusions_none hts
        refine selects_all hnodup fun m => .inl ⟨e, he, ?_⟩
        rcases hvalue with ⟨-, helements⟩ | ⟨hop, -⟩
        · rcases helements e he with ⟨w, rfl, -⟩ | ⟨-, hvar⟩
          · cases hsimple
          · exact hvar
        · cases hop
      | some ts =>
        have hexcluded := exclusions_some hts
        refine (modelsMatching_selects hnodup h).congr fun m => ?_
        rw [passes_exclude_iff hexcluded, PassesOperator]
        refine (or_iff_right ?_).symm
        have hclosed : ∀ e ∈ elements, e.isVariable = false := by
          clear hts hvalue h
          induction hexcluded with
          | nil => simp
          | cons hfirst _ ih =>
            obtain ⟨v, rfl, -⟩ := hfirst
            exact forall_mem_cons.2 ⟨rfl, ih⟩
        rintro ⟨e, he, hvar⟩
        rw [hclosed e he] at hvar
        cases hvar
    | simple => exact False.elim hvalue
    | _ => cases h

/-! ## Conditions -/

lemma propertyPath_operator (hroot : site.isRoot = false) {op : MatchOp}
    (hop : MatchOp.ofKey? key = some op) : (site.child key).propertyPath = site.propertyPath := by
  have hnone : (Path.segments key).filter Path.namesProperty = [] := by
    rw [← MatchOp.key_of_ofKey? hop]
    cases op <;> decide +kernel
  simp only [Site.propertyPath, Site.child, hroot, Bool.false_eq_true, if_false, Path.property,
    Path.segments_append, filter_append, hnone, append_nil]

section

variable (hnodup : models.Nodup)

include hnodup

lemma elementsModels_all (helements : ∀ e ∈ elements, OpenElement vars e)
    (h : elementsModels ctx site models elements = .ok groups) :
    List.Forall₂ (fun _ g => Selects models g fun _ => True) elements groups := by
  have hall : Selects models models fun _ => True := selects_all hnodup fun _ => trivial
  induction elements generalizing groups with
  | nil =>
    cases h
    exact .nil
  | cons e rest ih =>
    obtain ⟨hfirst, hrest⟩ := forall_mem_cons.1 helements
    cases e with
    | expression cs =>
      obtain ⟨v, rfl, hv⟩ := hfirst
      have hchild : childModels ctx (site.child "$elemMatch") models v = .ok models := by
        have hop : (site.child "$elemMatch").matchOp? = some .elemMatch := by
          rw [matchOp?_child]
          decide
        cases v with
        | expression => simp only [childModels, hop]
        | «variable» => rfl
        | _ => rcases hv with hv | hv <;> cases hv
      simp only [elementsModels, childrenModels, hchild, except_bind_ok_iff] at h
      obtain ⟨_, ⟨_, hmodels, _, hnil, hgroup⟩, tail, htail, h⟩ := h
      cases hmodels
      cases hnil
      cases hgroup
      cases h
      exact .cons hall (ih hrest htail)
    | _ =>
      simp only [elementsModels, except_bind_ok_iff] at h
      obtain ⟨tail, htail, h⟩ := h
      cases h
      exact .cons hall (ih hrest htail)

/-- **An operator below a selector** leaves the models that pass it. -/
lemma childModels_operator {op : MatchOp} {v : Operand} (hop : site.matchOp? = some op)
    (hfield : Selector.ofPath? site.propertyPath = some field) (hvalue : OpenValue vars op v)
    (hall : op = .all → v.elements ≠ []) (h : childModels ctx site models v = .ok found) :
    Selects models found fun m => PassesOperator ctx.catalog m field op v := by
  cases v with
  | «variable» =>
    cases h
    exact selects_all hnodup fun m => trivial
  | simple w =>
    simp only [childModels, hop, hfield] at h
    cases op
    case hasType | present | size | within =>
      cases h
      exact selects_all hnodup fun m => trivial
    case oneOf | noneOf | and | or | all | elemMatch => exact False.elim hvalue
    all_goals exact leafModels_selects hnodup hvalue (.inl ⟨⟨w, rfl⟩, by decide⟩) h
  | array elements =>
    simp only [childModels, hop, hfield] at h
    rcases hvalue with ⟨rfl | rfl, helements⟩ | ⟨rfl, helements⟩
    · exact leafModels_selects hnodup (.inl ⟨.inl rfl, helements⟩) (.inr (.inl rfl)) h
    · exact leafModels_selects hnodup (.inl ⟨.inr rfl, helements⟩) (.inr (.inr rfl)) h
    · rw [except_functor_map_ok_iff] at h
      obtain ⟨groups, hgroups, rfl⟩ := h
      exact (intersectModels_selects (hall rfl) (elementsModels_all hnodup helements hgroups)).congr
        fun m => iff_of_true (fun _ _ => trivial) trivial
  | expression cs =>
    simp only [childModels, hop] at h
    cases h
    exact selects_all hnodup fun m => trivial
  | _ => exact False.elim hvalue

lemma childrenModels_operators (hroot : site.isRoot = false)
    (hfield : Selector.ofPath? site.propertyPath = some field)
    (hops : ∀ o ∈ ops, ∃ op, MatchOp.ofKey? o.1 = some op ∧ OpenValue vars op o.2)
    (hall : Operand.noEmptyAllBelow ops = true)
    (h : childrenModels ctx site models ops = .ok groups) :
    List.Forall₂ (fun o g => Selects models g fun m => ∀ op, MatchOp.ofKey? o.1 = some op →
      PassesOperator ctx.catalog m field op o.2) ops groups := by
  induction ops generalizing groups with
  | nil =>
    cases h
    exact .nil
  | cons o rest ih =>
    obtain ⟨key, v⟩ := o
    simp only [childrenModels, except_bind_ok_iff] at h
    obtain ⟨first, hfirst, tail, htail, h⟩ := h
    cases h
    obtain ⟨⟨op, hkey, hvalue⟩, hrest⟩ := forall_mem_cons.1 hops
    simp only [Operand.noEmptyAllBelow, Bool.and_eq_true, Bool.or_eq_true, bne_iff_ne,
      Bool.not_eq_true', isEmpty_eq_false_iff] at hall
    refine .cons ?_ (ih hrest hall.2 htail)
    have hnonempty : op = .all → v.elements ≠ [] := by
      rintro rfl
      exact hall.1.1.resolve_left fun hne => hne (MatchOp.key_of_ofKey? hkey).symm
    have hop : (site.child key).matchOp? = some op := hkey
    have hpath := propertyPath_operator hroot hkey
    have hselects := childModels_operator hnodup hop (hpath ▸ hfield) hvalue hnonempty hfirst
    refine hselects.congr fun m => ⟨fun hpasses op' hop' => ?_, fun hpasses => hpasses op hkey⟩
    cases hkey.symm.trans hop'
    exact hpasses

/-- A field with a literal or with operators leaves the models that satisfy it. -/
lemma childModels_field {v : Operand} (hclear : Clear site) (hkey : IsFieldKey key)
    (hv : (∃ w, v = .simple w ∧ w.isArr = false ∧ w.isObj = false) ∨ ∃ ops, v = .expression ops ∧
      ops ≠ [] ∧ ∀ o ∈ ops, ∃ op, MatchOp.ofKey? o.1 = some op ∧ OpenValue vars op o.2)
    (hall : v.noEmptyAll = true) (h : childModels ctx (site.child key) models v = .ok found) :
    Selects models found fun m => Satisfies ctx.catalog m key v := by
  have hop : (site.child key).matchOp? = none := MatchOp.ofKey?_of_not_isOperator hkey.1
  have hpath : (site.child key).propertyPath = key := by
    rw [propertyPath_child hclear, hkey.2]
  rcases hv with ⟨w, rfl, harr, hobj⟩ | ⟨ops, rfl, hne, hops⟩
  all_goals
    simp only [childModels, hop, hpath] at h
    simp only [Satisfies]
    rcases hfield : Selector.ofPath? key with _ | field
    · rw [hfield] at h
      cases h
      exact selects_all hnodup fun m => trivial
  · rw [hfield] at h
    have hvalue : OpenValue false .eq (.simple w) := isLiteral_of_scalar harr hobj
    exact leafModels_selects hnodup hvalue (.inl ⟨⟨w, rfl⟩, .inl rfl⟩) h
  · simp only [hfield, except_functor_map_ok_iff] at h
    obtain ⟨groups, hgroups, rfl⟩ := h
    exact intersectModels_selects hne
      (childrenModels_operators hnodup rfl (hpath.symm ▸ hfield) hops hall hgroups)

end

mutual

/-- **A condition** leaves the models that satisfy it. -/
lemma childModels_selects {vars : Bool} (hnodup : models.Nodup) {site : Site}
    (hclear : Clear site) {key : String} {found : List ModelId} : ∀ v : Operand,
    OpenCondition vars key v → v.noEmptyAll = true →
    childModels ctx (site.child key) models v = .ok found →
    Selects models found fun m => Satisfies ctx.catalog m key v
  | .array elements, hcondition, hall, h => by
    obtain ⟨hkey, hne, hamong⟩ := hcondition
    rcases hkey with rfl | rfl
    · have hop : (site.child "$and").matchOp? = some .and := by
        rw [matchOp?_child]
        decide
      simp only [childModels, hop, except_functor_map_ok_iff] at h
      obtain ⟨groups, hgroups, rfl⟩ := h
      refine (intersectModels_selects hne (elementsModels_selects hnodup (hclear.child (.inl rfl))
        elements hamong hall hgroups)).congr fun m => ?_
      rw [Satisfies, if_pos rfl, satisfiesEach_iff]
    · have hop : (site.child "$or").matchOp? = some .or := by
        rw [matchOp?_child]
        decide
      simp only [childModels, hop, except_functor_map_ok_iff] at h
      obtain ⟨groups, hgroups, rfl⟩ := h
      refine (unionModels_selects (elementsModels_selects hnodup (hclear.child (.inr rfl))
        elements hamong hall hgroups)).congr fun m => ?_
      rw [Satisfies, if_neg (by decide), if_pos rfl, satisfiesSome_iff]
  | .simple w, hcondition, hall, h => by
    obtain ⟨hkey, hliteral⟩ := hcondition
    exact @childModels_field _ _ _ _ vars _ hnodup _ hclear hkey (.inl ⟨w, rfl, hliteral⟩) hall h
  | .expression ops, hcondition, hall, h => by
    obtain ⟨hkey, hops⟩ := hcondition
    exact childModels_field hnodup hclear hkey (.inr ⟨ops, rfl, hops⟩) hall h
  | .variable name, _, _, h => by
    cases h
    refine selects_all hnodup fun m => ?_
    simp only [Satisfies]
    split <;> trivial
  | .property _, hcondition, _, _ => False.elim hcondition
  | .raw _, hcondition, _, _ => False.elim hcondition

lemma childrenModels_selects {vars : Bool} (hnodup : models.Nodup) {site : Site}
    (hclear : Clear site) {groups : List (List ModelId)} : ∀ cs : Children,
    OpenBelow vars cs → Operand.noEmptyAllBelow cs = true →
    childrenModels ctx site models cs = .ok groups →
    List.Forall₂ (fun x g => Selects models g fun m => Satisfies ctx.catalog m x.1 x.2) cs groups
  | [], _, _, h => by
    cases h
    exact .nil
  | (key, v) :: rest, hcs, hall, h => by
    simp only [Operand.noEmptyAllBelow, Bool.and_eq_true] at hall
    simp only [childrenModels, except_bind_ok_iff] at h
    obtain ⟨first, hfirst, tail, htail, h⟩ := h
    cases h
    exact .cons (childModels_selects hnodup hclear v hcs.1 hall.1.2 hfirst)
      (childrenModels_selects hnodup hclear rest hcs.2 hall.2 htail)

lemma elementsModels_selects {vars : Bool} (hnodup : models.Nodup) {site : Site}
    (hclear : Clear site) {groups : List (List ModelId)} : ∀ elements : List Operand,
    OpenAmong vars elements → Operand.noEmptyAllAmong elements = true →
    elementsModels ctx site models elements = .ok groups →
    List.Forall₂ (fun e g => Selects models g fun m => SatisfiesElement ctx.catalog m e)
      elements groups
  | [], _, _, h => by
    cases h
    exact .nil
  | .expression cs :: rest, hes, hall, h => by
    simp only [Operand.noEmptyAllAmong, Operand.noEmptyAll, Bool.and_eq_true] at hall
    simp only [elementsModels, except_bind_ok_iff] at h
    obtain ⟨groups, hgroups, tail, htail, h⟩ := h
    cases h
    refine .cons ?_ (elementsModels_selects hnodup hclear rest hes.2 hall.2 htail)
    exact (intersectModels_selects hes.1.1 (childrenModels_selects hnodup hclear cs hes.1.2 hall.1
      hgroups)).congr fun m => satisfiesAll_iff.symm
  | .variable _ :: rest, hes, hall, h => by
    simp only [Operand.noEmptyAllAmong, Bool.and_eq_true] at hall
    simp only [elementsModels, except_bind_ok_iff] at h
    obtain ⟨tail, htail, h⟩ := h
    cases h
    exact .cons (selects_all hnodup fun m => trivial)
      (elementsModels_selects hnodup hclear rest hes.2 hall.2 htail)
  | .simple _ :: _, hes, _, _ => False.elim hes
  | .array _ :: _, hes, _, _ => False.elim hes
  | .property _ :: _, hes, _, _ => False.elim hes
  | .raw _ :: _, hes, _, _ => False.elim hes

end

/-- **An object of conditions** leaves the models that satisfy it. -/
lemma expressionModels_selects (hnodup : models.Nodup) (hclear : Clear site) {cs : Children}
    (hne : cs ≠ []) (hcs : OpenBelow vars cs) (hall : Operand.noEmptyAllBelow cs = true)
    (h : expressionModels ctx site cs models = .ok found) :
    Selects models found fun m => SatisfiesAll ctx.catalog m cs := by
  rw [expressionModels, except_functor_map_ok_iff] at h
  obtain ⟨groups, hgroups, rfl⟩ := h
  exact (intersectModels_selects hne (childrenModels_selects hnodup hclear cs hcs hall
    hgroups)).congr fun m => satisfiesAll_iff.symm

end

/-! ## Candidate models -/

/-- **The candidate models of a match are those that satisfy it.**  So those of `$and` over two
objects are the common ones, and those of `$or` the ones of either. -/
theorem candidates_satisfy_match {ctx : Context} {value : Json} {v : Operand}
    {models found : List ModelId} (hparse : parse ctx value = .ok v)
    (hall : v.noEmptyAll = true) (hnodup : models.Nodup)
    (h : expressionModels ctx (Site.root ctx.kind.key) v.children models = .ok found) :
    found.Nodup ∧ (∀ m, m ∈ found ↔ m ∈ models ∧ SatisfiesAll ctx.catalog m v.children) ∧
      ∀ a b as bs, expressionModels ctx (Site.root ctx.kind.key) a models = .ok as →
        expressionModels ctx (Site.root ctx.kind.key) b models = .ok bs →
        (v.children = [("$and", .array [.expression a, .expression b])] →
          ∀ m, m ∈ found ↔ m ∈ as ∧ m ∈ bs) ∧
        (v.children = [("$or", .array [.expression a, .expression b])] →
          ∀ m, m ∈ found ↔ m ∈ as ∨ m ∈ bs) := by
  have hclear : Clear (Site.root ctx.kind.key) := .inl rfl
  obtain ⟨cs, rfl, hne, hcs⟩ := parse_open hparse
  have hselects := expressionModels_selects hnodup hclear hne hcs hall h
  have hmem : ∀ m, m ∈ found ↔
      m ∈ models ∧ SatisfiesAll ctx.catalog m (Operand.expression cs).children := hselects.2
  refine ⟨hselects.1, hmem, fun a b as bs ha hb => ?_⟩
  -- both objects are conditions of their own, wherever they stand
  have hparts : ∀ key, cs = [(key, .array [.expression a, .expression b])] →
      (∀ m, m ∈ as ↔ m ∈ models ∧ SatisfiesAll ctx.catalog m a) ∧
        ∀ m, m ∈ bs ↔ m ∈ models ∧ SatisfiesAll ctx.catalog m b := by
    rintro key rfl
    simp only [OpenBelow, OpenCondition, OpenAmong, and_true] at hcs
    simp only [Operand.noEmptyAll, Operand.noEmptyAllBelow, Operand.noEmptyAllAmong, Bool.and_true,
      Bool.and_eq_true] at hall
    obtain ⟨-, -, ⟨hane, ha'⟩, hbne, hb'⟩ := hcs
    obtain ⟨-, hall⟩ := hall
    exact ⟨(expressionModels_selects hnodup hclear hane ha' hall.1 ha).2,
      (expressionModels_selects hnodup hclear hbne hb' hall.2 hb).2⟩
  constructor
  · intro heq m
    obtain ⟨has, hbs⟩ := hparts _ heq
    rw [hmem, has, hbs, heq]
    simp only [SatisfiesAll, Satisfies, SatisfiesEach, if_true, and_true]
    exact and_and_left
  · intro heq m
    obtain ⟨has, hbs⟩ := hparts _ heq
    have hne : ("$or" : String) ≠ "$and" := by decide
    rw [hmem, has, hbs, heq]
    simp only [SatisfiesAll, Satisfies, SatisfiesSome, if_neg hne, if_true, and_true, or_false]
    exact and_or_left

/-- A schema of pets, which have types, and toys, which have none. -/
def toySchema : Json := .obj [("objects", .arr [
    .obj [("name", .str "c_pet"), ("properties", .arr []), ("types", .arr [
      .obj [("name", .str "c_cat"), ("properties", .arr [])],
      .obj [("name", .str "c_dog"), ("properties", .arr [])]])],
    .obj [("name", .str "c_toy"), ("properties", .arr [])]])]

def toyContext : Context where
  catalog := ((Catalog.load toySchema).toOption).getD {}
  options := { object := "c_pet", withVariables := true, allowedRestrictedOps := ["*"] }
  indexes := fun _ => []
  kind := .match

/-- A match of cats and of whatever is called a toy. -/
def toyMatch : Json := .obj [("object", .obj [("$nin", .arr [.str "c_gone"])]),
    ("$or", .arr [.obj [("type", .str "c_cat")],
      .obj [("object", .obj [("$regex", .str "/toy/")])]])]

/-- Of all models, the cats and the toys are left. -/
theorem cats_and_toys_satisfy : ∃ v, parse toyContext toyMatch = .ok v ∧
    ∀ m, m ∈ [1, 3] ↔ m ∈ [0, 1, 2, 3] ∧ SatisfiesAll toyContext.catalog m v.children := by
  obtain ⟨v, hparse, hall, hfound⟩ : ∃ v, parse toyContext toyMatch = .ok v ∧ v.noEmptyAll = true ∧
      (expressionModels toyContext (Site.root toyContext.kind.key) v.children
        [0, 1, 2, 3]).toOption = some [1, 3] := exists_eq_ok_and (by decide +kernel)
  exact ⟨v, hparse, (candidates_satisfy_match hparse hall (by decide) (eq_ok_of_mem hfound)).2.1⟩

end Match

end Conduit
