import Conduit.Proofs.IndexFinish
import Conduit.Proofs.LiteralText

/-!
# Matches on fields

A parsed match has only three kinds of conditions: a field with a literal, a field with an object
of operators, and a logical operator over further objects of conditions.  The places that operators
demand rule everything else out (`parse_open`).

Where placeholders, `$all` and `$elemMatch` are left out, the operators of a field are comparisons
with literals (`parse_conditions`).
-/

namespace Conduit

open List

namespace Operand

mutual

/-- Whether no object inside has a key twice. -/
def distinctKeys : Operand → Bool
  | .expression cs => decide (cs.map Prod.fst).Nodup && distinctKeysBelow cs
  | .array elements => distinctKeysAmong elements
  | _ => true

def distinctKeysBelow : Children → Bool
  | [] => true
  | (_, v) :: rest => distinctKeys v && distinctKeysBelow rest

def distinctKeysAmong : List Operand → Bool
  | [] => true
  | v :: rest => distinctKeys v && distinctKeysAmong rest

end

mutual

/-- Whether some object inside has one of these keys. -/
def uses (ks : List String) : Operand → Bool
  | .expression cs => usesBelow ks cs
  | .array elements => usesAmong ks elements
  | _ => false

def usesBelow (ks : List String) : Children → Bool
  | [] => false
  | (key, v) :: rest => ks.contains key || uses ks v || usesBelow ks rest

def usesAmong (ks : List String) : List Operand → Bool
  | [] => false
  | v :: rest => uses ks v || usesAmong ks rest

end

end Operand

namespace Match

/-- The operators on the elements of arrays. -/
def elementKeys : List String := ["$all", "$elemMatch"]

/-- What an operator of a field compares with. -/
def Compares (op : MatchOp) : Operand → Prop
  | .simple w =>
    match op with
    | .eq | .ne | .gt | .gte | .lt | .lte => w.IsLiteral
    | .hasType | .size | .present => True
    | .pattern => ∃ p : Pattern, w = p.toJson
    | .within => ∃ lng lat radius : Json, w = .obj [("$centerSphere", .arr [.arr [lng, lat], radius])] ∧
      ∀ x ∈ [lng, lat, radius], x.isArr = false ∧ x.isObj = false
    | _ => False
  | .array elements =>
    (op = .oneOf ∨ op = .noneOf) ∧ ∀ e ∈ elements, ∃ w, e = .simple w ∧ w.IsLiteral
  | _ => False

/-- A key that names a field. -/
def IsFieldKey (key : String) : Prop := Path.isOperator key = false ∧ Path.property key = key

mutual

/-- A condition of an object at the top or inside a logical operator. -/
def Condition (key : String) : Operand → Prop
  | .simple w => IsFieldKey key ∧ w.isArr = false ∧ w.isObj = false
  | .expression cs => IsFieldKey key ∧ cs ≠ [] ∧ (cs.map Prod.fst).Nodup ∧
    ∀ c ∈ cs, ∃ op, MatchOp.ofKey? c.1 = some op ∧ Compares op c.2
  | .array elements => (key = "$and" ∨ key = "$or") ∧ elements ≠ [] ∧ ConditionsAmong elements
  | _ => False

def ConditionsBelow : Children → Prop
  | [] => True
  | (key, v) :: rest => Condition key v ∧ ConditionsBelow rest

def ConditionsAmong : List Operand → Prop
  | [] => True
  | .expression cs :: rest =>
    (cs ≠ [] ∧ (cs.map Prod.fst).Nodup ∧ ConditionsBelow cs) ∧ ConditionsAmong rest
  | _ :: _ => False

end

/-- What an element of `$all` may be. -/
def OpenElement (vars : Bool) : Operand → Prop
  | .simple w => w.isArr = false ∧ w.isObj = false
  | .variable _ => vars = true
  | .expression cs => ∃ v, cs = [("$elemMatch", v)] ∧ (v.isExpression = true ∨ v.isVariable = true)
  | _ => False

/-- What an operator of a field may hold, placeholders and conditions on elements included. -/
def OpenValue (vars : Bool) (op : MatchOp) : Operand → Prop
  | .variable _ => vars = true
  | .simple w => Compares op (.simple w)
  | .array elements =>
    (op = .oneOf ∨ op = .noneOf) ∧ (∀ e ∈ elements, (∃ w, e = .simple w ∧ w.IsLiteral) ∨
      vars = true ∧ e.isVariable = true) ∨
    op = .all ∧ ∀ e ∈ elements, OpenElement vars e
  | .expression _ => op = .elemMatch
  | _ => False

mutual

/-- A condition that may hold placeholders, if `vars`, and conditions on elements. -/
def OpenCondition (vars : Bool) (key : String) : Operand → Prop
  | .variable _ => vars = true
  | .simple w => IsFieldKey key ∧ w.isArr = false ∧ w.isObj = false
  | .expression cs => IsFieldKey key ∧ cs ≠ [] ∧
    ∀ c ∈ cs, ∃ op, MatchOp.ofKey? c.1 = some op ∧ OpenValue vars op c.2
  | .array elements => (key = "$and" ∨ key = "$or") ∧ elements ≠ [] ∧ OpenAmong vars elements
  | _ => False

def OpenBelow (vars : Bool) : Children → Prop
  | [] => True
  | (key, v) :: rest => OpenCondition vars key v ∧ OpenBelow vars rest

def OpenAmong (vars : Bool) : List Operand → Prop
  | [] => True
  | .expression cs :: rest => (cs ≠ [] ∧ OpenBelow vars cs) ∧ OpenAmong vars rest
  | .variable _ :: rest => vars = true ∧ OpenAmong vars rest
  | _ :: _ => False

end

variable {ctx : Context}

/-! ## Operators and their places -/

variable {site : Site} {op : MatchOp} {v : Json} {o : Operand} {key : String}
  {cs : Children} {fs : Fields} {value : Json}

/-- Keys around which conditions on fields may stand. -/
def holdsFields (key : String) : Bool := key == "$match" || key == "$and" || key == "$or"

lemma holdsFields_cases (h : holdsFields key = true) :
    key = "$match" ∨ key = "$and" ∨ key = "$or" := by
  simpa [holdsFields, or_assoc] using h

lemma isOperator_of_holdsFields (h : holdsFields key = true) : Path.isOperator key = true := by
  rcases holdsFields_cases h with rfl | rfl | rfl <;> decide +kernel

lemma logical_of_rules (hsite : holdsFields site.key = true)
    (hrules : ∀ r ∈ op.rules, r.fault? (site.child key) key v (ctx.placeholder? v).isSome ctx.limits = none) :
    op = .and ∨ op = .or := by
  have hop := isOperator_of_holdsFields hsite
  have hnot : site.key ≠ "$all" ∧ site.key ≠ "$elemMatch" := by
    rcases holdsFields_cases hsite with h | h | h <;> rw [h] <;> decide
  have hunder : Rule.underProperty ∉ op.rules := by
    intro hmem
    have hfault := hrules _ hmem
    simp [Rule.fault?, Site.child, Rule.reachesProperty, hop, hnot] at hfault
  have hbelow : Rule.belowProperty ∉ op.rules := by
    intro hmem
    have hfault := hrules _ hmem
    simp [Rule.fault?, Site.child, hop] at hfault
  have helement : Rule.belowPropertyOrAll ∉ op.rules := by
    intro hmem
    have hfault := hrules _ hmem
    simp [Rule.fault?, Site.child, hop, hnot] at hfault
  cases op
  case and => exact .inl rfl
  case or => exact .inr rfl
  case elemMatch => exact absurd mem_cons_self helement
  case size | all | within => exact absurd mem_cons_self hbelow
  all_goals exact absurd mem_cons_self hunder

lemma not_logical_of_rules (hfield : Path.isOperator site.key = false) (hsite : site.isRoot = false)
    (hrules : ∀ r ∈ op.rules, r.fault? (site.child key) key v (ctx.placeholder? v).isSome ctx.limits = none) :
    op ≠ .and ∧ op ≠ .or := by
  have htop : Rule.topOrLogical ∉ op.rules := by
    intro hmem
    have hfault := hrules _ hmem
    have hne : ∀ k, Path.isOperator k = true → site.key ≠ k := by
      rintro k hk rfl
      rw [hfield] at hk
      cases hk
    have hand := hne "$and" (by decide +kernel)
    have hor := hne "$or" (by decide +kernel)
    have helem := hne "$elemMatch" (by decide +kernel)
    simp only [Site.isRoot, isEmpty_eq_false_iff] at hsite
    simp [Rule.fault?, Site.child, Site.depth, hand, hor, helem, hsite] at hfault
  constructor <;> rintro rfl <;> exact htop mem_cons_self

/-! ## Comparisons -/

lemma isLiteral_of_scalar (harr : v.isArr = false) (hobj : v.isObj = false) : v.IsLiteral := by
  cases v with
  | null => exact .null
  | bool b => exact .bool b
  | int n => exact .int n
  | double x => exact .double x
  | str s => exact .str s
  | arr items => cases harr
  | obj fs => cases hobj

lemma isLiteral_of_compared (h : Rule.isStructured v = false ∨ Rule.isEmptyStructure v = true) :
    v.IsLiteral := by
  rcases h with h | h
  · cases v with
    | arr _ | obj _ => cases h
    | _ => exact isLiteral_of_scalar rfl rfl
  · unfold Rule.isEmptyStructure at h
    split at h
    · exact .emptyArray
    · exact .emptyObject
    · cases h

lemma withVariables_of_placeholder? {name : String} (h : ctx.placeholder? v = some name) :
    ctx.options.withVariables = true := by
  cases v with
  | str s =>
    by_contra hvars
    simp [Context.placeholder?, hvars] at h
  | _ => cases h

lemma scalar_of_double? {x : Json} {p : Binary64 → Bool} (h : x.double?.any p = true) :
    x.isArr = false ∧ x.isObj = false := by
  cases x with
  | arr items => cases h
  | obj fs => cases h
  | _ => exact ⟨rfl, rfl⟩

lemma isPosition_cases (h : isPosition v = true) : ∃ lng lat : Json,
    v = .arr [lng, lat] ∧ (lng.isArr = false ∧ lng.isObj = false) ∧
      lat.isArr = false ∧ lat.isObj = false := by
  unfold isPosition at h
  split at h
  · next lng lat =>
    rw [Bool.and_eq_true] at h
    exact ⟨lng, lat, rfl, scalar_of_double? h.1, scalar_of_double? h.2⟩
  · cases h

lemma ofDouble?_scalar (x : Option Binary64) :
    (Json.ofDouble? x).isArr = false ∧ (Json.ofDouble? x).isObj = false := by
  cases x <;> exact ⟨rfl, rfl⟩

lemma circle_ok {path : String} {w : Json} (h : circle path v = .ok w) :
    ∃ lng lat radius : Json, w = .obj [("$centerSphere", .arr [.arr [lng, lat], radius])] ∧
      ∀ x ∈ [lng, lat, radius], x.isArr = false ∧ x.isObj = false := by
  unfold circle at h
  simp only [except_guard_ok_iff] at h
  obtain ⟨hcenter, h⟩ := h
  obtain ⟨center, hsome, hposition⟩ : ∃ c, v.field? "$center" = some c ∧ isPosition c = true := by
    cases hc : v.field? "$center" with
    | none => simp [hc] at hcenter
    | some c => exact ⟨c, rfl, by simpa [hc] using hcenter⟩
  obtain ⟨lng, lat, rfl, hlng, hlat⟩ := isPosition_cases hposition
  rw [hsome] at h
  have hcircle : ∀ radius : Json, radius.isArr = false ∧ radius.isObj = false →
      ∀ x ∈ [lng, lat, radius], x.isArr = false ∧ x.isObj = false := by
    intro radius hradius
    simp [hlng, hlat, hradius]
  split at h
  · split at h
    · cases h
      exact ⟨lng, lat, _, rfl, hcircle _ (ofDouble?_scalar _)⟩
    · cases h
  · cases h
    exact ⟨lng, lat, .null, rfl, hcircle _ ⟨rfl, rfl⟩⟩
  · cases h

lemma ReadsLeaf.open (h : ReadsLeaf ctx site op v o) :
    OpenValue ctx.options.withVariables op o := by
  cases h with
  | scalar hop => rcases hop with rfl | rfl | rfl <;> trivial
  | @pattern _ p => exact ⟨p, rfl⟩
  | circle hw => exact circle_ok hw
  | compared hop hv =>
    have hliteral := isLiteral_of_compared hv
    cases op <;> first | exact hliteral | cases hop
  | values hop _ helements =>
    refine .inl ⟨hop, forall_mem_right helements fun _ _ e he => ?_⟩
    cases he with
    | @pattern _ p => exact .inl ⟨_, rfl, .pattern p⟩
    | placeholder hname => exact .inr ⟨withVariables_of_placeholder? hname, rfl⟩
    | scalar harr hobj => exact .inl ⟨_, rfl, isLiteral_of_scalar harr hobj⟩

/-! ## Conditions -/

lemma checkField_ok {u : Unit} (h : checkField site = .ok u) :
    Path.property site.key = site.key := by
  unfold checkField at h
  split at h
  · next hkey => exact hkey.1
  · cases h

lemma simpleOrVariable_open (harr : v.isArr = false) (hobj : v.isObj = false) :
    OpenElement ctx.options.withVariables (simpleOrVariable ctx v) := by
  unfold simpleOrVariable
  split
  · next hname => exact withVariables_of_placeholder? hname
  · exact ⟨harr, hobj⟩

/-- What is read below a key: a condition where fields may stand, and an operator with what it may
hold below a field. -/
def OpenAt (vars : Bool) (site : Site) (o : Operand) : Prop :=
  ∀ (holder : Site) (key : String), site = holder.child key →
    (holdsFields holder.key = true → OpenCondition vars key o) ∧
    (Path.isOperator holder.key = false → holder.isRoot = false → Path.isOperator key = true →
      ∃ op, MatchOp.ofKey? key = some op ∧ OpenValue vars op o) ∧
    (key = "$elemMatch" → o.isExpression = true ∨ o.isVariable = true)

section

variable (h : ReadsObject ctx (fun site _ o => OpenAt ctx.options.withVariables site o) site fs cs)
include h

lemma ReadsObject.at : ∀ c ∈ cs, OpenAt ctx.options.withVariables (site.child c.1) c.2 :=
  forall_mem_right h.fields fun _ _ _ hc => hc.1 ▸ hc.2

lemma ReadsObject.ne_nil : cs ≠ [] := by
  obtain ⟨hchecked, hfields⟩ := h
  obtain ⟨-, hne, -⟩ := checkExpression_ok_iff.1 hchecked
  rintro rfl
  exact hne (forall₂_nil_right_iff.1 hfields)

lemma ReadsObject.open (hsite : holdsFields site.key = true) :
    OpenBelow ctx.options.withVariables cs := by
  have hat := h.at
  clear h
  induction cs with
  | nil => trivial
  | cons c rest ih =>
    rw [forall_mem_cons] at hat
    exact ⟨(hat.1 site c.1 rfl).1 hsite, ih hat.2⟩

end

lemma forall₂_conditions_open (hsite : holdsFields site.key = true) {items : List Json}
    {elements : List Operand} (h : List.Forall₂ (ReadsCondition ctx
      (fun site _ o => OpenAt ctx.options.withVariables site o) site) items elements) :
    OpenAmong ctx.options.withVariables elements := by
  induction h with
  | nil => trivial
  | cons hfirst _ ih =>
    cases hfirst with
    | placeholder hname => exact ⟨withVariables_of_placeholder? hname, ih⟩
    | object hfs => exact ⟨⟨hfs.ne_nil, hfs.open hsite⟩, ih⟩

lemma Reads.open
    (h : Reads ctx (fun site _ o => OpenAt ctx.options.withVariables site o) site v o) :
    OpenAt ctx.options.withVariables site o := by
  rintro holder key rfl
  have hplaced : ∀ {op}, checkOperator ctx (holder.child key) v = .ok op →
      MatchOp.ofKey? key = some op ∧ (holdsFields holder.key = true → op = .and ∨ op = .or) ∧
        (Path.isOperator holder.key = false → holder.isRoot = false → op ≠ .and ∧ op ≠ .or) ∧
        (key = "$elemMatch" → op = .elemMatch) := by
    intro op hop
    obtain ⟨hkey, -, hrules⟩ := checkOperator_ok hop
    refine ⟨hkey, fun hfields => logical_of_rules hfields hrules,
      fun hfield hroot => not_logical_of_rules hfield hroot hrules, ?_⟩
    rintro rfl
    exact (Option.some.inj hkey).symm
  cases h with
  | literal hkey hfield harr hobj =>
    refine ⟨fun _ => ?_, fun _ _ hop => absurd (hkey.symm.trans hop) (by decide), ?_⟩
    · unfold simpleOrVariable
      split
      · next hname => exact withVariables_of_placeholder? hname
      · exact ⟨⟨hkey, checkField_ok hfield⟩, harr, hobj⟩
    · rintro rfl
      exact absurd (show Path.isOperator "$elemMatch" = false from hkey) (by decide +kernel)
  | operators hkey hfield hops hfs =>
    refine ⟨fun _ => ?_, fun _ _ hop => absurd (hkey.symm.trans hop) (by decide), fun _ => .inl rfl⟩
    rw [OpenCondition]
    refine ⟨⟨hkey, checkField_ok hfield⟩, hfs.ne_nil, ?_⟩
    exact forall_mem_right hfs.fields fun f hf c hc =>
      hc.1 ▸ (hc.2 (holder.child key) f.1 rfl).2.1 hkey rfl (hops f hf)
  | placeholder hop hname =>
    have hvars := withVariables_of_placeholder? hname
    exact ⟨fun _ => hvars, fun _ _ _ => ⟨_, (hplaced hop).1, hvars⟩, fun _ => .inr rfl⟩
  | conditions hop hlogic helements =>
    obtain ⟨hkey, -, hbelow, helem⟩ := hplaced hop
    have hkeys : key = "$and" ∨ key = "$or" := by
      rw [← MatchOp.key_of_ofKey? hkey]
      rcases hlogic with rfl | rfl <;> decide
    refine ⟨fun _ => ?_, fun hfield hroot => ?_, fun heq => ?_⟩
    · obtain ⟨_, heq, hne, -⟩ := conditions_of_rules rfl hlogic hop
      cases heq
      rw [OpenCondition]
      refine ⟨hkeys, ?_, forall₂_conditions_open ?_ helements⟩
      · rintro rfl
        exact hne (forall₂_nil_right_iff.1 helements)
      · rcases hkeys with rfl | rfl <;> rfl
    · have := hbelow hfield hroot
      exact absurd hlogic (by simp [this])
    · rw [helem heq] at hlogic
      exact absurd hlogic (by decide)
  | all hop _ helements =>
    obtain ⟨hkey, hlogical, -, helem⟩ := hplaced hop
    refine ⟨fun hfields => absurd (hlogical hfields) (by decide), fun _ _ _ => ⟨_, hkey, .inr ⟨rfl, ?_⟩⟩,
      fun heq => absurd (helem heq) (by decide)⟩
    refine forall_mem_right helements fun _ _ e he => ?_
    cases he with
    | literal harr hobj => exact simpleOrVariable_open harr hobj
    | object hfs =>
      obtain ⟨-, hfields⟩ := hfs
      cases hfields with
      | @cons _ c _ _ hfirst hrest =>
        cases hrest
        obtain ⟨k, o⟩ := c
        cases (hfirst.1 : k = "$elemMatch")
        exact ⟨o, rfl, (hfirst.2 _ _ rfl).2.2 rfl⟩
  | elemMatch hop =>
    obtain ⟨hkey, hlogical, -⟩ := hplaced hop
    exact ⟨fun hfields => absurd (hlogical hfields) (by decide), fun _ _ _ => ⟨_, hkey, rfl⟩,
      fun _ => .inl rfl⟩
  | leaf hop hleaf =>
    obtain ⟨hkey, hlogical, -, helem⟩ := hplaced hop
    obtain ⟨hlogic, -, hne⟩ := hleaf.ne
    exact ⟨fun hfields => absurd (hlogical hfields) (by simp [hlogic]),
      fun _ _ _ => ⟨_, hkey, hleaf.open⟩, fun heq => absurd (helem heq) hne⟩

/-- **A parsed match** is an object of conditions on fields. -/
lemma parse_open {v : Operand} (h : parse ctx value = .ok v) :
    ∃ cs, v = .expression cs ∧ cs ≠ [] ∧ OpenBelow ctx.options.withVariables cs := by
  obtain ⟨fs, cs, -, rfl, hcs⟩ := parse_object (fun _ _ _ => Reads.open) h
  exact ⟨cs, rfl, hcs.ne_nil, hcs.open (by decide)⟩

/-! ## Closed conditions -/

lemma not_mem_of_usesBelow {ks : List String} (h : Operand.usesBelow ks cs = false) :
    ∀ c ∈ cs, c.1 ∉ ks := by
  induction cs with
  | nil => exact nofun
  | cons c rest ih =>
    simp only [Operand.usesBelow, Bool.or_eq_false_iff, contains_eq_mem,
      decide_eq_false_iff_not] at h
    exact forall_mem_cons.2 ⟨h.1.1, ih h.2⟩

lemma OpenValue.closed {v : Operand} (h : OpenValue false op v) (hplain : op.key ∉ elementKeys) :
    Compares op v := by
  cases v with
  | «variable» => cases h
  | simple w => exact h
  | array elements =>
    rcases h with ⟨hop, helements⟩ | ⟨rfl, -⟩
    · refine ⟨hop, fun e he => ?_⟩
      rcases helements e he with hw | ⟨hvars, -⟩
      · exact hw
      · cases hvars
    · exact absurd (by decide) hplain
  | expression cs =>
    cases h
    exact absurd (by decide) hplain
  | _ => exact False.elim h

mutual

lemma OpenCondition.closed {key : String} : ∀ v : Operand, OpenCondition false key v →
    v.distinctKeys = true → v.uses elementKeys = false → Condition key v
  | .simple w, h, _, _ => by
    rw [Condition]
    exact h
  | .expression cs, h, hkeys, hplain => by
    rw [OpenCondition] at h
    obtain ⟨hkey, hne, hops⟩ := h
    simp only [Operand.distinctKeys, Bool.and_eq_true, decide_eq_true_eq] at hkeys
    rw [Condition]
    refine ⟨hkey, hne, hkeys.1, fun c hc => ?_⟩
    obtain ⟨op, hop, hvalue⟩ := hops c hc
    refine ⟨op, hop, hvalue.closed ?_⟩
    rw [MatchOp.key_of_ofKey? hop]
    exact not_mem_of_usesBelow hplain c hc
  | .array elements, h, hkeys, hplain => by
    rw [OpenCondition] at h
    rw [Condition]
    exact ⟨h.1, h.2.1, OpenAmong.closed elements h.2.2 hkeys hplain⟩
  | .variable _, h, _, _ => by cases h
  | .property _, h, _, _ => False.elim h
  | .raw _, h, _, _ => False.elim h

lemma OpenBelow.closed : ∀ cs : Children, OpenBelow false cs →
    Operand.distinctKeysBelow cs = true → Operand.usesBelow elementKeys cs = false →
    ConditionsBelow cs
  | [], _, _, _ => trivial
  | (key, v) :: rest, h, hkeys, hplain => by
    rw [OpenBelow] at h
    simp only [Operand.distinctKeysBelow, Bool.and_eq_true] at hkeys
    simp only [Operand.usesBelow, Bool.or_eq_false_iff] at hplain
    exact ⟨OpenCondition.closed v h.1 hkeys.1 hplain.1.2,
      OpenBelow.closed rest h.2 hkeys.2 hplain.2⟩

lemma OpenAmong.closed : ∀ elements : List Operand, OpenAmong false elements →
    Operand.distinctKeysAmong elements = true → Operand.usesAmong elementKeys elements = false →
    ConditionsAmong elements
  | [], _, _, _ => trivial
  | .expression cs :: rest, h, hkeys, hplain => by
    rw [OpenAmong] at h
    simp only [Operand.distinctKeysAmong, Operand.distinctKeys, Bool.and_eq_true,
      decide_eq_true_eq] at hkeys
    simp only [Operand.usesAmong, Operand.uses, Bool.or_eq_false_iff] at hplain
    exact ⟨⟨h.1.1, hkeys.1.1, OpenBelow.closed cs h.1.2 hkeys.1.2 hplain.1⟩,
      OpenAmong.closed rest h.2 hkeys.2 hplain.2⟩
  | .variable _ :: rest, h, _, _ => by cases h.1
  | .simple _ :: rest, h, _, _ => False.elim h
  | .array _ :: rest, h, _, _ => False.elim h
  | .property _ :: rest, h, _, _ => False.elim h
  | .raw _ :: rest, h, _, _ => False.elim h

end

/-- **A parsed match without placeholders and operators on elements** is an object of closed
conditions. -/
lemma parse_conditions (hvars : ctx.options.withVariables = false) {v : Operand}
    (h : parse ctx value = .ok v) (hkeys : v.distinctKeys = true)
    (hplain : v.uses elementKeys = false) :
    ∃ cs, v = .expression cs ∧ cs ≠ [] ∧ (cs.map Prod.fst).Nodup ∧ ConditionsBelow cs := by
  obtain ⟨cs, rfl, hne, hcs⟩ := parse_open h
  rw [hvars] at hcs
  simp only [Operand.distinctKeys, Bool.and_eq_true, decide_eq_true_eq] at hkeys
  exact ⟨cs, rfl, hne, hkeys.1, hcs.closed cs hkeys.2 hplain⟩

end Match

end Conduit
