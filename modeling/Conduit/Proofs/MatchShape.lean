import Conduit.Proofs.MatchGrammar

/-!
# The shape of a parsed match

What reading a match promises about its operands: which kind of value stands at which place
(`parse_shaped`).

The later passes look at one component at a time and skip the combinations that are ruled out
here.
-/

namespace Conduit

namespace MatchOp

lemma ofKey?_key (op : MatchOp) : ofKey? op.key = some op := by
  cases op <;> decide

variable {key : String}

lemma key_of_ofKey? {op : MatchOp} (h : ofKey? key = some op) : op.key = key := by
  simpa using List.find?_some h

lemma isOperator_key (op : MatchOp) : Path.isOperator op.key = true := by
  cases op <;> decide +kernel

lemma ofKey?_of_not_isOperator (h : Path.isOperator key = false) : ofKey? key = none := by
  cases hk : ofKey? key with
  | none => rfl
  | some op =>
    rw [← key_of_ofKey? hk, isOperator_key] at h
    cases h

end MatchOp

namespace Operand

/-- Whether the value is a literal. -/
def isSimple : Operand → Bool
  | .simple _ => true
  | _ => false

end Operand

namespace Match

/-- The operators that hold a literal. -/
def holdsLiteral : MatchOp → Bool
  | .and | .or | .all | .elemMatch | .oneOf | .noneOf => false
  | _ => true

mutual

/-- What may stand at a place: a placeholder anywhere, literals and objects of conditions below
fields, and below operators what each of them demands. -/
def Shaped (site : Site) : Operand → Prop
  | .variable _ => True
  | .simple _ => ∀ op, site.matchOp? = some op → holdsLiteral op = true
  | .array elements =>
    (site.matchOp? = some .oneOf ∨ site.matchOp? = some .noneOf) ∧
        (∀ v ∈ elements, v.isExpression = false) ∨
      site.matchOp? = some .all ∧
        (elements.any Operand.isSimple && elements.any Operand.isExpression) = false ∧
        ShapedElements site elements ∨
      (site.matchOp? = some .and ∨ site.matchOp? = some .or) ∧ ShapedElements site elements
  | .expression cs =>
    (site.matchOp? = none ∨ site.matchOp? = some .elemMatch) ∧ ShapedChildren site cs
  | _ => False

/-- What may stand in an object of conditions. -/
def ShapedChildren (site : Site) : Children → Prop
  | [] => True
  | (key, v) :: rest => Shaped (site.child key) v ∧ ShapedChildren site rest

/-- What may stand in the list of an operator. -/
def ShapedElements (site : Site) : List Operand → Prop
  | [] => True
  | .expression cs :: rest => ShapedChildren site cs ∧ ShapedElements site rest
  | _ :: rest => ShapedElements site rest

end

variable {ctx : Context}

@[simp] lemma matchOp?_child (site : Site) (key : String) :
    (site.child key).matchOp? = MatchOp.ofKey? key := rfl

lemma simpleOrVariable_cases (ctx : Context) (v : Json) :
    simpleOrVariable ctx v = .simple v ∨ ∃ name, simpleOrVariable ctx v = .variable name := by
  unfold simpleOrVariable
  split
  · next name _ => exact .inr ⟨name, rfl⟩
  · exact .inl rfl

variable {site : Site} {v : Json} {o : Operand} {elements : List Operand} {op : MatchOp}

lemma checkUnmixed_ok {path : String} {u : Unit} (h : checkUnmixed path elements = .ok u) :
    (elements.any Operand.isSimple && elements.any Operand.isExpression) = false := by
  unfold checkUnmixed at h
  simp only at h
  split at h
  · cases h
  · next hmix =>
    rw [← Bool.not_eq_true]
    exact hmix

lemma ReadsObject.shaped {fs : Fields} {cs : Children}
    (h : ReadsObject ctx (fun site _ o => Shaped site o) site fs cs) : ShapedChildren site cs := by
  obtain ⟨-, hfields⟩ := h
  induction hfields with
  | nil => trivial
  | cons hfirst _ ih => exact ⟨hfirst.1 ▸ hfirst.2, ih⟩

lemma shapedElements_iff :
    ShapedElements site elements ↔ ∀ cs, .expression cs ∈ elements → ShapedChildren site cs := by
  induction elements with
  | nil => simp [ShapedElements]
  | cons e rest ih => cases e <;> simp [ShapedElements, ih]

lemma Reads.shaped (h : Reads ctx (fun site _ o => Shaped site o) site v o) : Shaped site o := by
  have hliteral : ∀ v, ¬(simpleOrVariable ctx v).isExpression = true := fun v => by
    rcases simpleOrVariable_cases ctx v with h | ⟨name, h⟩ <;> simp [h, Operand.isExpression]
  cases h with
  | literal hkey =>
    have hop : site.matchOp? = none := MatchOp.ofKey?_of_not_isOperator hkey
    rcases simpleOrVariable_cases ctx v with h | ⟨name, h⟩
    all_goals
      rw [h]
      simp [Shaped, hop]
  | operators hkey _ _ hfs => exact ⟨.inl (MatchOp.ofKey?_of_not_isOperator hkey), hfs.shaped⟩
  | placeholder => trivial
  | conditions hop hlogic helements =>
    refine .inr (.inr ⟨?_, shapedElements_iff.2 fun cs hcs => ?_⟩)
    · rcases hlogic with rfl | rfl <;> simp [(checkOperator_ok hop).1]
    · refine forall_mem_right (P := fun e => e = .expression cs → ShapedChildren site cs) helements
        (fun _ _ e he heq => ?_) _ hcs rfl
      cases he with
      | placeholder => cases heq
      | object hfs =>
        cases heq
        exact hfs.shaped
  | all hop _ helements hunmixed =>
    refine .inr (.inl ⟨(checkOperator_ok hop).1, checkUnmixed_ok hunmixed,
      shapedElements_iff.2 fun cs hcs => ?_⟩)
    refine forall_mem_right (P := fun e => e = .expression cs → ShapedChildren site cs) helements
      (fun item _ e he heq => ?_) _ hcs rfl
    cases he with
    | literal => exact absurd (heq ▸ rfl) (hliteral item)
    | object hfs =>
      cases heq
      exact hfs.shaped
  | elemMatch hop hfs => exact ⟨.inr (checkOperator_ok hop).1, hfs.shaped⟩
  | @leaf op _ _ hop hleaf =>
    have hsite := (checkOperator_ok hop).1
    have hsimple : holdsLiteral op = true → ∀ w, Shaped site (.simple w) := fun hlit w op' hop' => by
      cases hsite.symm.trans hop'
      exact hlit
    cases hleaf with
    | scalar hscalar => exact hsimple (by rcases hscalar with rfl | rfl | rfl <;> rfl) v
    | pattern | circle => exact hsimple rfl _
    | compared hcompare => exact hsimple (by cases op <;> first | rfl | cases hcompare) v
    | values hlist _ helements =>
      refine .inl ⟨by rcases hlist with rfl | rfl <;> simp [hsite], ?_⟩
      refine forall_mem_right helements fun _ _ e he => ?_
      cases he <;> rfl

/-- **A parsed match is shaped** from its top down. -/
lemma parse_shaped (h : parse ctx v = .ok o) :
    ShapedChildren (Site.root StageKind.match.key) o.children := by
  obtain ⟨fs, cs, -, rfl, hcs⟩ := parse_object (fun _ _ _ => Reads.shaped) h
  exact hcs.shaped

end Match

end Conduit
