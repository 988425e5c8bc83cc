import Conduit.Proofs.BuiltKeys

/-!
# The shape of a query

A query is a tree of conditions: each object holds fields and, under `$and` and `$or`, lists of
further objects.  Operators stand below fields.

An operator that fans out over several casts, or that compares a localized property, stands for the
whole object around it.  Another operator of that object would be left beside the replacement and
out of its field, so that the shape holds for matches in which all operators of a field do so or
none does (`query_well_formed`).
-/

namespace Conduit.Match

open Fields Json IndexEntries Match.Builder List Journaled

/-! ## Replacements -/

/-- Whether a component, built on its own, stands for the whole object around it. -/
def Builder.replaces (b : Builder) (trail : Trail) (v : Operand) : Bool :=
  match (b.buildComponent trail {} v).result with
  | .ok (some (.replace _)) => true
  | _ => false

/-- Whether the components of an object replace it, in order. -/
def Builder.replacements (b : Builder) (trail : Trail) (element index : Nat) : Children → List Bool
  | [] => []
  | (key, v) :: rest => b.replaces (trail.child b.ctx element index key v) v ::
    b.replacements trail element (index + 1) rest

/-- Whether a key stands beside fields: a field, or a logical operator. -/
def standsBesideFields (key : String) : Bool :=
  !Path.isOperator key || key == "$and" || key == "$or"

mutual

/-- Whether the operators of each field replace its object all or not at all, and no `$elemMatch`
that stands for the object around it holds operators. -/
def Builder.tidyComponent (b : Builder) (trail : Trail) : Operand → Bool
  | .expression cs =>
    (match trail.site.matchOp? with
      | none => (b.replacements trail 0 0 cs).all id || !(b.replacements trail 0 0 cs).any id
      | some _ => !b.replaces trail (.expression cs) || cs.all fun c => standsBesideFields c.1) &&
    b.tidyChildren trail 0 0 cs
  | .array elements => b.tidyElements trail 0 elements
  | _ => true

def Builder.tidyChildren (b : Builder) (trail : Trail) (element index : Nat) : Children → Bool
  | [] => true
  | (key, v) :: rest => b.tidyComponent (trail.child b.ctx element index key v) v &&
    b.tidyChildren trail element (index + 1) rest

def Builder.tidyElements (b : Builder) (trail : Trail) (element : Nat) : List Operand → Bool
  | [] => true
  | .expression cs :: rest =>
    b.tidyChildren trail element 0 cs && b.tidyElements trail (element + 1) rest
  | _ :: rest => b.tidyElements trail (element + 1) rest

end

/-- What a match is built from once it is checked. -/
def checkedBuilder (ctx : Context) (v : Operand) : Builder where
  ctx
  references := match (validate ctx (Trail.root ctx v) v).result with
    | .ok findings => findings.references
    | .error _ => []

/-- Whether no operator of a match is left beside the replacement of its object. -/
def isTidy (ctx : Context) (v : Operand) : Bool :=
  (checkedBuilder ctx v).tidyChildren (Trail.root ctx v) 0 0 v.children

variable {ctx : Context} {b : Builder} {p : String → Prop}

variable {op : MatchOp} {built : Option Built} {trail : Trail} {around : Enclosing}
  {parentKey key : String} {journal : List Step} {fs : Fields} {values : List Json}

/-- A simple operator replaces its object if its casts differ, whatever stands there. -/
lemma buildSimple_replaces {v : Operand}
    (h : b.buildSimple trail op v around = ⟨.ok built, journal⟩) :
    ∃ alone notes, b.buildSimple trail op v {} = ⟨.ok alone, notes⟩ ∧
      ((∃ r, built = some (.replace r)) ↔ ∃ r, alone = some (.replace r)) := by
  obtain ⟨values, m, n, hcast, -, -, hbuilt⟩ := buildSimple_cases h
  have halone : ∃ alone notes, b.buildSimple trail op v {} = ⟨.ok alone, notes⟩ ∧
      ((∃ r, alone = some (.replace r)) ↔ ∀ w, values ≠ [w]) := by
    match values, hcast with
    | [], hcast =>
      exact ⟨_, _, bind_ok_iff.2 ⟨[], m, [], hcast, rfl, rfl⟩, by simp⟩
    | [w], hcast =>
      exact ⟨_, _, bind_ok_iff.2 ⟨[w], m, [], hcast, rfl, rfl⟩, by simp⟩
    | w :: w' :: rest, hcast =>
      exact ⟨_, _, bind_ok_iff.2 ⟨w :: w' :: rest, m, [], hcast, rfl, rfl⟩, by simp⟩
  obtain ⟨alone, notes, halone, hreplaces⟩ := halone
  refine ⟨alone, notes, halone, Iff.trans ?_ hreplaces.symm⟩
  rcases hbuilt with ⟨w, rfl, rfl⟩ | ⟨hmany, -, rfl | ⟨_, _, _, _, rfl⟩⟩
  · simp
  · simpa using hmany
  · simpa using hmany

/-- **Only simple operators look at the object around them**; other components at most fail in one
that is replaced. -/
lemma buildComponent_around (b : Builder) (t : Trail) (v : Operand) :
    (∃ op, t.site.matchOp? = some op ∧ op.isSimple = true ∧
      ∀ around, b.buildComponent t around v = b.buildSimple t op v around) ∨
    ∀ around, b.buildComponent t around v = b.buildComponent t {} v ∨
      around.replacement.isSome = true ∧ ∃ e, (b.buildComponent t around v).result = .error e := by
  have hguard : ∀ {x : Build (Option Built)} {e : CompileError} {around : Enclosing},
      (if around.replacement.isSome = true then throw e >>= fun _ : PUnit => x else x) = x ∨
        around.replacement.isSome = true ∧
          ∃ e', (if around.replacement.isSome = true then throw e >>= fun _ : PUnit => x
            else x).result = .error e' := by
    intro x e around
    split
    · next hsome => exact .inr ⟨hsome, _, rfl⟩
    · exact .inl rfl
  cases v with
  | «variable» name => exact .inr fun around => .inl rfl
  | expression cs =>
    refine .inr fun around => ?_
    rw [buildComponent, buildComponent]
    cases t.site.matchOp? with
    | none => exact .inl rfl
    | some op => exact hguard
  | array elements =>
    refine .inr fun around => ?_
    rw [buildComponent, buildComponent]
    cases t.site.matchOp? with
    | none => exact .inl rfl
    | some op =>
      cases op with
      | and | or => exact .inl rfl
      | _ => exact hguard
  | _ =>
    unfold buildComponent
    cases hop : t.site.matchOp? with
    | none => exact .inr fun around => .inl rfl
    | some op =>
      cases hsimple : op.isSimple with
      | true => exact .inl ⟨op, rfl, hsimple, fun around => by simp only [hsimple, if_true]⟩
      | false =>
        simp only [hsimple, Bool.false_eq_true, if_false]
        exact .inr fun around => hguard

/-- **Whether a component replaces its object does not depend on what stands there.** -/
lemma replaces_iff {v : Operand} (h : b.buildComponent trail around v = ⟨.ok built, journal⟩) :
    b.replaces trail v = true ↔ ∃ r, built = some (.replace r) := by
  have halone : ∀ {alone n}, b.buildComponent trail {} v = ⟨.ok alone, n⟩ →
      (b.replaces trail v = true ↔ ∃ r, alone = some (.replace r)) := by
    intro alone n h
    rw [replaces, h]
    cases alone with
    | none => simp
    | some x => cases x <;> simp
  rcases buildComponent_around b trail v with ⟨op, -, -, hsimple⟩ | hsame
  · rw [hsimple] at h
    obtain ⟨alone, notes, hbuilt, heq⟩ := buildSimple_replaces h
    exact (halone (by rw [hsimple, hbuilt])).trans heq.symm
  · rcases hsame around with heq | ⟨-, e, he⟩
    · exact halone (heq ▸ h)
    · rw [h] at he
      cases he

/-! ## Trees from objects under construction -/

lemma tree_merge {gs : Fields} (hfs : Tree false false p (.obj fs))
    (hgs : Tree false false p (.obj gs)) : Tree false false p (.obj (Built.merge fs gs)) := by
  have hfs' := tree_unmarked.1 hfs
  unfold Built.merge
  split
  · split
    · exact tree_unmarked.2 (forall_mem_insert hfs' (.inr (.inl ⟨.inl rfl,
        treeList_arr.2 ⟨cons_ne_nil _ _, forall_mem_singleton.2 hgs⟩⟩)))
    · next items hget =>
      obtain ⟨-, hitems⟩ := treeList_arr.1 ((hfs' _ (mem_of_get? hget)).list (.inl rfl))
      exact tree_unmarked.2 (forall_mem_insert hfs' (.inr (.inl ⟨.inl rfl, treeList_arr.2
        ⟨by simp, forall_mem_append.2 ⟨hitems, forall_mem_singleton.2 hgs⟩⟩⟩)))
    · exact hfs
  · exact tree_unmarked.2 (forall_mem_extend hfs' (tree_unmarked.1 hgs))

section

variable (hparent : Path.isOperator parentKey = false)

include hparent

lemma tree_fanOut (hkey : p key) (hne : values ≠ []) (hvalues : ∀ w ∈ values, KeysAre p w) :
    Tree false false p (fanOut parentKey key values) := by
  refine tree_logic (.inr rfl) (by simpa using hne) fun v hv => ?_
  obtain ⟨w, hw, rfl⟩ := mem_map.1 hv
  exact tree_single hparent (keysAre_single hkey (hvalues w hw))

lemma tree_addToBranch (hkey : p key) {branch w : Json} (hbranch : Tree false false p branch)
    (hw : KeysAre p w) : Tree false false p (addToBranch parentKey key branch w) := by
  rcases addToBranch_cases parentKey key branch w with heq | ⟨gs, hs, rfl, hhs, heq⟩ <;> rw [heq]
  · exact hbranch
  · have hgs := tree_unmarked.1 hbranch
    refine tree_unmarked.2 (forall_mem_insert hgs (.inl ⟨hparent, keysAre_insert ?_ hkey hw⟩))
    rcases hhs with rfl | hget
    · exact enclosingIs_empty.fields
    · exact ((hgs _ (mem_of_get? hget)).onField hparent).2

/-- A further condition goes into each branch of a fan-out. -/
lemma tree_fanOutAgain (hkey : p key)
    {branches : List Json} (hne : values ≠ []) (hvalues : ∀ w ∈ values, KeysAre p w)
    (hfs : Tree false false p (.obj fs)) (hget : Fields.get? fs "$or" = some (.arr branches)) :
    Tree false false p (.obj (Fields.insert fs "$or"
      (.arr (zipWith (addToBranch parentKey key) branches values)))) := by
  have hfs' := tree_unmarked.1 hfs
  obtain ⟨hbranches, htrees⟩ := treeList_arr.1 ((hfs' _ (mem_of_get? hget)).list (.inr rfl))
  refine tree_unmarked.2 (forall_mem_insert hfs' (.inr (.inl ⟨.inr rfl, treeList_arr.2
    ⟨?_, fun v hv => ?_⟩⟩)))
  · rw [Ne, zipWith_eq_nil_iff, not_or]
    exact ⟨hbranches, hne⟩
  · obtain ⟨branch, hbranch, w, hw, rfl⟩ := mem_zipWith hv
    exact tree_addToBranch hparent hkey (htrees branch hbranch) (hvalues w hw)

end

/-! ## Parts of a query -/

/-- An object of operators that, if something stands for it, is replaced by a tree. -/
structure OperatorsAre (p : String → Prop) (around : Enclosing) : Prop where
  keys : EnclosingIs p around
  tree : ∀ v, around.replacement = some v → Tree false false p v

/-- A part of an object of conditions. -/
def ConditionIs (p : String → Prop) (built : Option Built) : Prop :=
  ∀ x, built = some x → ∃ fs, x = .value (.obj fs) ∧ Tree false false p (.obj fs)

/-- An object of conditions. -/
structure ConditionsAre (p : String → Prop) (around : Enclosing) : Prop where
  kept : around.replacement = none
  tree : Tree false false p (.obj around.fields)

lemma conditionIs_value {v : Json} (h : Tree false false p v) :
    ConditionIs p (some (.value v)) := by
  rintro x ⟨⟩
  obtain ⟨fs, rfl⟩ := h.exists_obj
  exact ⟨fs, rfl, h⟩

lemma conditionsAre_empty : ConditionsAre p {} where
  kept := rfl
  tree := tree_unmarked.2 nofun

lemma ConditionsAre.addBuilt (h : ConditionsAre p around) (hbuilt : ConditionIs p built) :
    ConditionsAre p (addBuilt around built) := by
  cases built with
  | none => exact h
  | some x =>
    obtain ⟨fs, rfl, hfs⟩ := hbuilt x rfl
    simp only [Builder.addBuilt, h.kept]
    exact ⟨rfl, tree_merge h.tree hfs⟩

lemma ConditionsAre.objectOrEmpty (h : ConditionsAre p around) :
    Tree false false p (objectOrEmpty (enclosed around)) := by
  rw [enclosed, h.kept]
  dsimp only
  split
  · exact conditionsAre_empty.tree
  · exact h.tree

lemma OperatorsAre.enclosed (h : OperatorsAre p around) : ReplacesBy p (enclosed around) := by
  intro r hr
  unfold Builder.enclosed at hr
  split at hr
  · next v hv =>
    cases hr
    exact h.tree v hv
  · split at hr <;> cases hr

lemma buildField_shape (hp : Permits b.ctx p) (htrail : Path.isOperator trail.site.key = false)
    (hkeys : BuiltIs p built) (htree : ReplacesBy p built) :
    Yields (OnField p) (b.buildField trail built) (ConditionIs p) := by
  unfold buildField
  split
  · exact yields_pure nofun
  · next inner => exact yields_pure (conditionIs_value (htree inner rfl))
  · next v =>
    have hv : KeysAre p v := hkeys (.value v) rfl
    refine (localized_yields hp (hp.free .oneOf rfl) (forall_mem_singleton.2 hv)).bind
      fun found hfound => ?_
    cases found with
    | some w => exact yields_pure (conditionIs_value (hfound w rfl))
    | none => exact yields_pure (conditionIs_value (tree_single (isOperator_buildKey htrail) hv))

lemma buildValue_shape (hp : Permits b.ctx p) (htrail : Path.isOperator trail.site.key = false)
    {x : Operand} (hx : IsLeaf x) : Yields (OnField p) (do
      let values ← b.castIntoQuery trail x id .stored
      match ← b.localized trail values "$in" with
      | some w => return some (.value w)
      | none => return some (.value (single (b.buildKey trail) (oneOrMany "$in" values))))
      (ConditionIs p) := by
  have hin : p "$in" := hp.free .oneOf rfl
  refine (castIntoQuery_yields hp hx (fun w hw => hw) _).bind fun values hvalues => ?_
  have hkeys : ∀ w ∈ values, KeysAre p w := fun w hw => hp.keysAre (hvalues.literal w hw)
  refine (localized_yields hp hin hkeys).bind fun found hfound => ?_
  cases found with
  | some w => exact yields_pure (conditionIs_value (hfound w rfl))
  | none => exact yields_pure (conditionIs_value (tree_single (isOperator_buildKey htrail)
      (oneOrMany_keysAre hin hkeys)))

/-- A comparison of a field that fans out does so into a tree. -/
lemma buildSimple_shape (hp : Permits b.ctx p) (hop : p op.key) {x : Json}
    (hx : IsLeaf (.simple x)) (haround : OperatorsAre p around)
    (hparent : Path.isOperator (b.buildKey trail.parent) = false) :
    Yields (OnField p) (b.buildSimple trail op (.simple x) around) (ReplacesBy p) := by
  intro built journal h
  have henters := (buildSimple_yields hp hop hx haround.keys (fun _ _ _ _ => hp.field hparent)
    built journal h).2
  refine ⟨?_, henters⟩
  obtain ⟨values, m, n, hcast, -, -, hbuilt⟩ := buildSimple_cases h
  have hvalues := (castIntoQuery_yields hp hx (fun w hw => keysAre_single hop hw) _ _ _ hcast).1
  have hkeys : ∀ w ∈ values, KeysAre p w := fun w hw => hp.keysAre (hvalues.literal w hw)
  rcases hbuilt with ⟨w, -, rfl⟩ | ⟨-, -, rfl | ⟨fs, branches, hr, hget, rfl⟩⟩
  · exact replacesBy_value
  · rintro r ⟨⟩
    exact tree_fanOut hparent hop hvalues.ne_nil hkeys
  · rintro r ⟨⟩
    exact tree_fanOutAgain hparent hop hvalues.ne_nil hkeys (haround.tree _ hr) hget

lemma buildElemMatch_shape {conditions : Json} (h : Tree false false p conditions) :
    Yields (OnField p) (buildElemMatch trail conditions) (ReplacesBy p) := by
  unfold buildElemMatch
  dsimp only
  split
  · exact yields_pure replacesBy_value
  · split
    · exact yields_throw
    · refine yields_pure ?_
      rintro r ⟨⟩
      exact h

/-! ## Building a tree -/

lemma standsBesideFields_of_holdsFields {holder : String} (h : holdsFields holder = true)
    (hkey : VettedKey ctx holder key) : standsBesideFields key = true := by
  cases hop : Path.isOperator key with
  | false => simp [standsBesideFields, hop]
  | true =>
    obtain ⟨op, hofKey, -, hstands⟩ := hkey.operator hop
    have hlogic : op = .and ∨ op = .or := by
      by_contra hnot
      rw [not_or] at hnot
      rw [not_holdsFields hstands hnot] at h
      cases h
    rw [← MatchOp.key_of_ofKey? hofKey]
    rcases hlogic with rfl | rfl <;> decide +kernel

lemma logical_of_standsBesideFields (h : standsBesideFields key = true)
    (hop : MatchOp.ofKey? key = some op) : op = .and ∨ op = .or := by
  rw [← MatchOp.key_of_ofKey? hop] at h
  cases op <;> first | exact .inl rfl | exact .inr rfl | exact absurd h (by decide +kernel)

/-- What building puts into an object of operators leaves it one. -/
lemma OperatorsAre.addBuilt (hp : Permits ctx p)
    (h : OperatorsAre p around) (hkeys : BuiltIs p built) (htree : ReplacesBy p built)
    (hmode : (∃ r, built = some (.replace r)) ∨ around.replacement = none) :
    OperatorsAre p (addBuilt around built) := by
  refine ⟨h.keys.addBuilt hp hkeys, fun v hv => ?_⟩
  rcases hmode with ⟨r, rfl⟩ | hnone
  · cases hv
    exact htree r rfl
  · revert hv
    unfold Builder.addBuilt
    split
    · exact h.tree v
    · next inner =>
      rintro ⟨⟩
      exact htree inner rfl
    · rw [hnone]
      exact fun hv => h.tree v (hnone ▸ hv)
    · exact h.tree v

lemma replacement_addBuilt (haround : around.replacement = none)
    (hbuilt : ∀ r, built ≠ some (.replace r)) : (addBuilt around built).replacement = none := by
  unfold addBuilt
  split
  · exact haround
  · next inner => exact absurd rfl (hbuilt inner)
  · rw [haround]
  · exact haround

variable {root : Trail} {v : Operand}

mutual

/-- A field, or a logical operator, is built into a condition. -/
lemma buildCondition_shape (hp : Permits b.ctx p) (hvars : b.ctx.options.withVariables = false)
    (hmarks : ∀ a ∈ b.references, MarksReferences b.ctx root v a) :
    ∀ (x : Operand) (t : Trail) (around : Enclosing),
    Component b.ctx root v t x → standsBesideFields t.site.key = true → b.tidyComponent t x = true →
    Yields (OnField p) (b.buildComponent t around x) (ConditionIs p)
  | .expression cs, t, around, hx, hbeside, htidy => by
    rw [tidyComponent, Bool.and_eq_true] at htidy
    rw [buildComponent]
    cases hop : t.site.matchOp? with
    | some op =>
      rcases logical_of_standsBesideFields hbeside hop with rfl | rfl
      all_goals
        dsimp only
        split <;> exact yields_throw
    | none =>
      have hfield := hx.isField hop
      rw [hop, Bool.or_eq_true, Bool.not_eq_true'] at htidy
      have hbelow := buildOperators_shape hp hvars hmarks cs t 0 {} (hx.below 0)
        (by rw [hx.holder_eq]; exact hfield) htidy.2 ⟨enclosingIs_empty, nofun⟩
        (htidy.1.imp_right fun hany => ⟨hany, rfl⟩)
      exact hbelow.bind fun out hout =>
        buildField_shape hp hfield hout.keys.enclosed hout.enclosed
  | .array elements, t, around, hx, hbeside, htidy => by
    rw [tidyComponent] at htidy
    rw [buildComponent]
    cases hop : t.site.matchOp? with
    | none => exact yields_throw
    | some op =>
      have hlogic := logical_of_standsBesideFields hbeside hop
      have hname : t.site.key = "$and" ∨ t.site.key = "$or" := by
        rw [← MatchOp.key_of_ofKey? hop]
        rcases hlogic with rfl | rfl
        · exact .inl rfl
        · exact .inr rfl
      obtain ⟨hne, hconditions⟩ := hx.vetted.1.conditions hname
      have hholds : holdsFields t.holder = true := by
        rw [hx.holder_eq]
        rcases hname with h | h <;> rw [h] <;> decide
      have hbelow :=
        buildBranches_shape hp hvars hmarks elements t 0 hx.among hholds hconditions htidy
      have hbuilt : Yields (OnField p) (do
          return some (.value (single op.key (.arr (← b.buildElements t 0 elements)))))
          (ConditionIs p) := by
        refine hbelow.bind fun items hitems => yields_pure (conditionIs_value (tree_logic ?_ ?_ hitems.2))
        · rw [MatchOp.key_of_ofKey? hop]
          exact hname
        · rw [← length_pos_iff, hitems.1, length_pos_iff]
          exact hne
      rcases hlogic with rfl | rfl <;> exact hbuilt
  | .simple w, t, around, hx, hbeside, _ => by
    rw [buildComponent]
    · cases hop : t.site.matchOp? with
      | some op =>
        rcases logical_of_standsBesideFields hbeside hop with rfl | rfl
        all_goals
          dsimp only
          split
          · next hsimple => cases hsimple
          · split <;> exact yields_throw
      | none => exact buildValue_shape hp (hx.isField hop) (show IsLeaf (.simple w) from hx.vetted)
    all_goals exact nofun
  | .variable _, _, _, hx, _, _ => absurd (hvars.symm.trans hx.vetted) Bool.false_ne_true
  | .property _, _, _, hx, _, _
  | .raw _, _, _, hx, _, _ => False.elim hx.vetted

/-- An object of fields and logical operators is built into conditions. -/
lemma buildConditions_shape (hp : Permits b.ctx p) (hvars : b.ctx.options.withVariables = false)
    (hmarks : ∀ a ∈ b.references, MarksReferences b.ctx root v a) : ∀ (cs : Children) (t : Trail)
    (element index : Nat) (around : Enclosing), Below b.ctx root v t element index cs →
    (∀ c ∈ cs, standsBesideFields c.1 = true) → b.tidyChildren t element index cs = true →
    ConditionsAre p around →
    Yields (OnField p) (b.buildChildren t element index around cs) (ConditionsAre p)
  | [], _, _, _, around, _, _, _, haround => by
    rw [buildChildren]
    exact yields_pure haround
  | (key, x) :: rest, t, element, index, around, ⟨hx, hrest⟩, hbeside, htidy, haround => by
    rw [tidyChildren, Bool.and_eq_true] at htidy
    obtain ⟨hkey, hbeside⟩ := forall_mem_cons.1 hbeside
    rw [buildChildren]
    exact (buildCondition_shape hp hvars hmarks x _ around hx
      (by rw [key_of_component hx]; exact hkey) htidy.1).bind fun built hbuilt =>
        buildConditions_shape hp hvars hmarks rest t element (index + 1) _ hrest hbeside htidy.2
          (haround.addBuilt hbuilt)

lemma buildBranches_shape (hp : Permits b.ctx p) (hvars : b.ctx.options.withVariables = false)
    (hmarks : ∀ a ∈ b.references, MarksReferences b.ctx root v a) :
    ∀ (elements : List Operand) (t : Trail) (element : Nat),
    Among b.ctx root v t element elements → holdsFields t.holder = true →
    (∀ e ∈ elements, e.isExpression = true ∨ e.isVariable = true) →
    b.tidyElements t element elements = true →
    Yields (OnField p) (b.buildElements t element elements) fun items =>
      items.length = elements.length ∧ ∀ w ∈ items, Tree false false p w
  | [], _, _, _, _, _, _ => by
    rw [buildElements]
    exact yields_pure ⟨rfl, nofun⟩
  | .expression cs :: rest, t, element, ⟨⟨hcs, hvetted, _⟩, hrest⟩, hholds, hconditions, htidy => by
    rw [tidyElements, Bool.and_eq_true] at htidy
    rw [buildElements]
    refine (buildConditions_shape hp hvars hmarks cs t element 0 {} hcs (fun c hc =>
      standsBesideFields_of_holdsFields hholds (vettedBelow_iff.1 hvetted.2 c hc).1) htidy.1
      conditionsAre_empty).bind fun out hout => ?_
    exact (buildBranches_shape hp hvars hmarks rest t (element + 1) hrest hholds
      (forall_mem_cons.1 hconditions).2 htidy.2).bind fun items hitems => yields_pure
        ⟨congrArg (· + 1) hitems.1, forall_mem_cons.2 ⟨hout.objectOrEmpty, hitems.2⟩⟩
  | .variable _ :: _, _, _, ⟨⟨_, hvetted, _⟩, _⟩, _, _, _ =>
    absurd (hvars.symm.trans hvetted) Bool.false_ne_true
  | .simple _ :: _, _, _, _, _, hconditions, _
  | .array _ :: _, _, _, _, _, hconditions, _ => by
    rcases hconditions _ mem_cons_self with h | h <;> cases h
  | .property _ :: _, _, _, ⟨⟨_, hvetted, _⟩, _⟩, _, _, _
  | .raw _ :: _, _, _, ⟨⟨_, hvetted, _⟩, _⟩, _, _, _ => False.elim hvetted

/-- What an operator puts in the place of its field's object is a tree. -/
lemma buildOperator_shape (hp : Permits b.ctx p) (hvars : b.ctx.options.withVariables = false)
    (hmarks : ∀ a ∈ b.references, MarksReferences b.ctx root v a) :
    ∀ (x : Operand) (t : Trail) (around : Enclosing),
    Component b.ctx root v t x → Path.isOperator t.parent.holder = false →
    b.tidyComponent t x = true → OperatorsAre p around →
    Yields (OnField p) (b.buildComponent t around x) (ReplacesBy p)
  | .expression cs, t, around, hx, _, htidy, haround => by
    have hbelow := buildChildren_yields hp hmarks cs t 0 0 {} (hx.below 0) enclosingIs_empty
    have hkeys := buildComponent_yields hp hmarks (.expression cs) t around hx haround.keys
    rw [tidyComponent, Bool.and_eq_true] at htidy
    cases hop : t.site.matchOp? with
    | none =>
      rw [buildComponent, hop]
      exact hbelow.bind fun out hout => (buildField_yields hp (hx.isField hop)
        hout.enclosed).mono fun _ hfield => hfield.2
    | some op =>
      simp only [hop, Bool.or_eq_true, Bool.not_eq_true'] at htidy
      rcases htidy.1 with hkept | hbeside
      · intro built journal h
        refine ⟨fun r hr => ?_, (hkeys built journal h).2⟩
        rw [(replaces_iff h).2 ⟨r, hr⟩] at hkept
        cases hkept
      · have hconditions := buildConditions_shape hp hvars hmarks cs t 0 0 {} (hx.below 0)
          (by simpa using hbeside) htidy.2 conditionsAre_empty
        rw [buildComponent, hop]
        dsimp only
        split
        · exact yields_throw
        · split
          · exact yields_incomplete.bind fun _ _ => hconditions.bind fun out hout =>
              buildElemMatch_shape hout.objectOrEmpty
          · exact yields_throw
  | .array elements, t, around, hx, _, _, _ => by
    have hbelow := buildElements_yields hp hmarks elements t 0 hx.among
    rw [buildComponent]
    cases hop : t.site.matchOp? with
    | none => exact yields_throw
    | some op =>
      dsimp only
      split
      iterate 2
        · exact hbelow.bind fun _ _ => yields_pure replacesBy_value
      · next hand hor =>
        split
        · exact yields_throw
        · split
          · exact yields_incomplete.bind fun _ _ => hbelow.bind fun _ _ =>
              yields_pure replacesBy_value
          · next hall =>
            exact (buildLeaf_yields hp (hp.vetted hx.vettedKey hop) (isLeaf_of_op hop ⟨hand, hor⟩
              hx.vetted.1 hx.vetted.2 hall)).mono fun _ hleaf => hleaf.2
  | .simple w, t, around, hx, hfield, _, haround => by
    have hleaf : IsLeaf (.simple w) := hx.vetted
    rw [buildComponent]
    · cases hop : t.site.matchOp? with
      | some op =>
        have hpkey := hp.vetted hx.vettedKey hop
        dsimp only
        split
        · refine buildSimple_shape hp hpkey hleaf haround (isOperator_buildKey ?_)
          have hholds : holdsFields t.parent.holder = false := by
            cases hholds : holdsFields t.parent.holder with
            | false => rfl
            | true => rw [isOperator_of_holdsFields hholds] at hfield; cases hfield
          rw [(key_of_holder hholds).2]
          exact hfield
        · split
          · exact yields_throw
          · exact (buildLeaf_yields hp hpkey hleaf).mono fun _ hbuilt => hbuilt.2
      | none =>
        refine (buildValue_shape hp (hx.isField hop) hleaf).mono ?_
        rintro _ hcondition r rfl
        obtain ⟨fs, heq, -⟩ := hcondition _ rfl
        cases heq
    all_goals exact nofun
  | .variable _, _, _, hx, _, _, _ => absurd (hvars.symm.trans hx.vetted) Bool.false_ne_true
  | .property _, _, _, hx, _, _, _
  | .raw _, _, _, hx, _, _, _ => False.elim hx.vetted

/-- So is what all operators of a field put there together, if all do so or none does. -/
lemma buildOperators_shape (hp : Permits b.ctx p) (hvars : b.ctx.options.withVariables = false)
    (hmarks : ∀ a ∈ b.references, MarksReferences b.ctx root v a) :
    ∀ (cs : Children) (t : Trail) (index : Nat)
    (around : Enclosing), Below b.ctx root v t 0 index cs → Path.isOperator t.holder = false →
    b.tidyChildren t 0 index cs = true → OperatorsAre p around →
    (b.replacements t 0 index cs).all id = true ∨
      (b.replacements t 0 index cs).any id = false ∧ around.replacement = none →
    Yields (OnField p) (b.buildChildren t 0 index around cs) (OperatorsAre p)
  | [], _, _, around, _, _, _, haround, _ => by
    rw [buildChildren]
    exact yields_pure haround
  | (key, x) :: rest, t, index, around, ⟨hx, hrest⟩, hfield, htidy, haround, hmode => by
    rw [tidyChildren, Bool.and_eq_true] at htidy
    simp only [replacements, all_cons, any_cons, id_eq, Bool.and_eq_true,
      Bool.or_eq_false_iff] at hmode
    rw [buildChildren]
    intro out journal h
    obtain ⟨built, m, n, hbuilt, hlater, rfl⟩ := bind_ok_iff.1 h
    obtain ⟨hkeys, henters⟩ :=
      buildComponent_yields hp hmarks x _ around hx haround.keys built m hbuilt
    have htree := (buildOperator_shape hp hvars hmarks x _ around hx
      (by rw [parent_of_component hx]; exact hfield) htidy.1 haround built m hbuilt).1
    have hreplaces := replaces_iff hbuilt
    have hnow := haround.addBuilt hp hkeys htree (hmode.imp (fun h => hreplaces.1 h.1) (·.2))
    obtain ⟨hout, hrestEnters⟩ :=
      buildOperators_shape hp hvars hmarks rest t (index + 1) _ hrest hfield htidy.2
      hnow (by
        refine hmode.imp (·.2) fun ⟨⟨hkept, hnone⟩, hr⟩ => ⟨hnone, ?_⟩
        rw [Bool.eq_false_iff, Ne, hreplaces] at hkept
        exact replacement_addBuilt hr fun r hr => hkept ⟨r, hr⟩) out n hlater
    exact ⟨hout, henters.append hrestEnters⟩

end

/-! ## The query -/

lemma buildNatural_shape (hp : Permits b.ctx p) (hvars : b.ctx.options.withVariables = false)
    {cs : Children} (hmarks : ∀ a ∈ b.references,
      MarksReferences b.ctx (Trail.root b.ctx (.expression cs)) (.expression cs) a)
    (hcs : VettedBelow b.ctx "$match" cs)
    (htidy : b.tidyChildren (Trail.root b.ctx (.expression cs)) 0 0 cs = true) :
    Yields (OnField p) (b.buildNatural (Trail.root b.ctx (.expression cs)) (.expression cs))
      fun natural => Tree false false p (.obj natural) := by
  refine (buildConditions_shape hp hvars hmarks cs _ 0 0 {} (below_root hcs)
    (fun c hc => standsBesideFields_of_holdsFields (by decide) (vettedBelow_iff.1 hcs c hc).1)
    htidy conditionsAre_empty).bind fun around haround => yields_pure ?_
  have htree := haround.objectOrEmpty
  obtain ⟨fs, hfs⟩ := htree.exists_obj
  rw [hfs] at htree ⊢
  exact htree

lemma tree_emitted {native : Fields} {i : Indexing} (hnative : Tree false false p (.obj native))
    (hindex : ∀ index, i.entries.finish = some index → Tree false false p (.obj index.query)) :
    Tree false false p (emitted native i) := by
  unfold emitted
  split
  · exact hnative
  · next index hfinish =>
    split
    · refine tree_logic (.inl rfl) (cons_ne_nil _ _) ?_
      simp only [forall_mem_cons, not_mem_nil, IsEmpty.forall_iff, implies_true, and_true]
      exact ⟨hnative, hindex index hfinish⟩
    · exact hindex index hfinish

lemma permits_unmarked (ctx : Context) : Permits ctx (· ≠ marker) where
  field := ne_marker_of_field
  operator op _ := by cases op <;> decide
  literal := by decide
  geoWithin := by decide

/-- **A query is well formed**: at the top, and in each element of its `$and` and `$or` lists, an
object holds fields and non-empty lists of objects under `$and` and `$or` only, so that operators
stand below fields, and the marker of entries under construction is nowhere left. -/
theorem query_well_formed {value : Json} {w : Operand} {out : StageOutput} {notes : List Event}
    (hvars : ctx.options.withVariables = false) (hnodup : (Fields.keys ctx.options.baseFind).Nodup)
    (hbase : ∀ f ∈ ctx.options.baseFind, Path.isOperator f.1 = false ∧ marker ∉ f.2.nestedKeys)
    (hparse : parse ctx value = .ok w) (htidy : isTidy ctx w = true)
    (h : compile ctx value = ⟨.ok out, notes⟩) :
    ∃ query, out.json = single "$match" query ∧ Tree false false (· ≠ marker) query ∧
      marker ∉ query.nestedKeys := by
  have hp := permits_unmarked ctx
  have hfits : Fits (· ≠ marker) ctx.baseFind :=
    fits_of_fields hp (fun hne => hne rfl) hnodup fun f hf =>
      ⟨(hbase f hf).1, fun key hkey heq => (hbase f hf).2 (heq ▸ hkey)⟩
  obtain ⟨findings, natural, indexing, hfindings, hnatural, hjson, -, hindex⟩ :=
    compile_permits hp hfits hparse h
  obtain ⟨cs, rfl, hcs⟩ := parse_vetted hparse
  have hmarks := validate_marks hcs (eq_ok_of_result hfindings)
  have hbuilder : checkedBuilder ctx (.expression cs) = ⟨ctx, findings.references⟩ := by
    rw [checkedBuilder, hfindings]
  rw [isTidy, hbuilder] at htidy
  have htree := (buildNatural_shape (b := ⟨ctx, findings.references⟩) hp hvars hmarks hcs htidy
    natural _ (eq_ok_of_result hnatural)).1
  have hnative : Tree false false (· ≠ marker) (.obj (Fields.seed ctx.baseFind natural)) :=
    tree_unmarked.2 (forall_mem_seed (fun f hf => .inl (hfits.base f hf)) (tree_unmarked.1 htree))
  have hquery := tree_emitted hnative hindex
  exact ⟨_, hjson, hquery, fun hmem => hp.keysAre_tree _ hquery marker hmem rfl⟩

/-- Comparisons that fan out over two types, all operators of their field, leave a tree. -/
theorem tag_range_well_formed :
    let ctx := tagContext [("c_org", .int 3)]
    let value := .obj [("c_org", .obj [("$gte", .int 1)]),
      ("$or", .arr [.obj [("c_tag", .obj [("$gt", .str "5"), ("$lt", .str "7")])],
        .obj [("type", .str "c_cat")]])]
    ∃ w out query, parse ctx value = .ok w ∧ isTidy ctx w = true ∧
      (compile ctx value).result = .ok out ∧ out.json = single "$match" query ∧
      Tree false false (· ≠ marker) query ∧ marker ∉ query.nestedKeys := by
  intro ctx value
  obtain ⟨w, hparse, htidy⟩ : ∃ w, parse ctx value = .ok w ∧ isTidy ctx w = true :=
    exists_eq_ok_and (by decide +kernel)
  obtain ⟨out, hresult⟩ : ∃ out, (compile ctx value).result = .ok out :=
    exists_eq_ok (by decide +kernel)
  obtain ⟨query, hjson, hquery⟩ := query_well_formed rfl (by decide +kernel) (by decide +kernel)
    hparse htidy (eq_ok_of_result hresult)
  exact ⟨w, out, query, hparse, htidy, hresult, hjson, hquery⟩

/-- **An operator that follows a fan-out is left beside it**: the query of a match on a tag that is
there and above a bound has an `$exists` at its top, under no field. -/
theorem operator_left_beside_fan_out :
    let ctx := { tagContext [] with usesIndex := false }
    let value := .obj [("c_tag", .obj [("$gt", .str "5"), ("$exists", .bool true)])]
    ∃ out query, (compile ctx value).result = .ok out ∧ out.json = single "$match" query ∧
      query = .obj [("$or", .arr [tagMatch "$gt" (.str "5"), tagMatch "$gt" (.int 5)]),
        ("$exists", .bool true)] ∧ ¬Tree false false (· ≠ marker) query := by
  intro ctx value
  obtain ⟨out, hresult, hjson⟩ : ∃ out, (compile ctx value).result = .ok out ∧
      out.json = single "$match" (.obj [("$or", .arr [tagMatch "$gt" (.str "5"),
        tagMatch "$gt" (.int 5)]), ("$exists", .bool true)]) := exists_eq_ok_and (by decide +kernel)
  refine ⟨out, _, hresult, hjson, rfl, fun htree => ?_⟩
  have hmember := tree_unmarked.1 htree ("$exists", .bool true) (mem_cons_of_mem _ mem_cons_self)
  rcases hmember with ⟨hop, -⟩ | ⟨hlogic, -⟩ | ⟨hfalse, -⟩
  · exact absurd hop (by decide +kernel)
  · exact absurd hlogic (by decide)
  · cases hfalse

end Conduit.Match
