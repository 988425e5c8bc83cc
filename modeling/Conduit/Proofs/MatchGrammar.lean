import Conduit.Match.Parse
import Conduit.Proofs.Fields
import Conduit.Proofs.Journal

/-!
# The grammar of a match

Reading a match goes by seven rules, one for each form of a condition.  `Reads` states the rules
with what each of them checks, for any meaning `R` of reading the conditions inside (`parse_reads`,
`parse_induction`).

What reading promises is proved rule by rule from here on, and nowhere else is the reader opened.
-/

namespace Conduit

open List

/-- An expression is an object that is neither empty nor too deep or too wide. -/
lemma checkExpression_ok_iff {limits : Limits} {site : Site} {v : Json} {fs : Fields} :
    checkExpression limits site v = .ok fs ↔ v = .obj fs ∧ fs ≠ [] ∧
      Limits.exceeds limits.depth site.depth = false ∧
      Limits.exceeds limits.keys fs.length = false := by
  unfold checkExpression
  simp only [except_guard_ok_iff]
  cases v with
  | obj gs =>
    simp only [except_guard_ok_iff]
    constructor
    · rintro ⟨hdepth, hne, hkeys, h⟩
      cases h
      exact ⟨rfl, by simpa using hne, by simpa using hdepth, by simpa using hkeys⟩
    · rintro ⟨h, hne, hdepth, hkeys⟩
      cases h
      exact ⟨by simp [hdepth], by simpa using hne, by simp [hkeys], rfl⟩
  | _ => simp

namespace Match

variable (ctx : Context)

/-- Reads the value of a key. -/
def parseChild (site : Site) (v : Json) : Except CompileError Operand :=
  if Path.isOperator site.key then parseOperator ctx site v else parseField ctx site v

variable (R : Site → Json → Operand → Prop)

/-- An object of conditions, read key by key. -/
structure ReadsObject (site : Site) (fs : Fields) (cs : Children) : Prop where
  checked : checkExpression ctx.limits site (.obj fs) = .ok fs
  fields : List.Forall₂ (fun f c => c.1 = f.1 ∧ R (site.child f.1) f.2 c.2) fs cs

/-- An element of `$and` or `$or`. -/
inductive ReadsCondition (site : Site) : Json → Operand → Prop
  | placeholder {v : Json} {name : String} : ctx.placeholder? v = some name →
      ReadsCondition site v (.variable name)
  | object {fs : Fields} {cs : Children} : ReadsObject ctx R site fs cs →
      ReadsCondition site (.obj fs) (.expression cs)

/-- An element of `$all`. -/
inductive ReadsElement (site : Site) : Json → Operand → Prop
  | literal {v : Json} : v.isArr = false → v.isObj = false →
      ReadsElement site v (simpleOrVariable ctx v)
  | object {v : Json} {cs : Children} : ReadsObject ctx R site [("$elemMatch", v)] cs →
      ReadsElement site (.obj [("$elemMatch", v)]) (.expression cs)

/-- An element of a value list. -/
inductive ReadsValue (site : Site) : Json → Operand → Prop
  | pattern {v : Json} {p : Pattern} : ctx.patterns.validate v ctx.limits site.fullpath = .ok p →
      ReadsValue site (.obj [("$regex", v)]) (.simple p.toJson)
  | placeholder {v : Json} {name : String} : ctx.placeholder? v = some name →
      ReadsValue site v (.variable name)
  | scalar {v : Json} : v.isArr = false → v.isObj = false → ReadsValue site v (.simple v)

/-- The value of an operator that holds no conditions. -/
inductive ReadsLeaf (site : Site) : MatchOp → Json → Operand → Prop
  | scalar {op : MatchOp} {v : Json} : op = .hasType ∨ op = .present ∨ op = .size →
      v.isArr = false → v.isObj = false → ReadsLeaf site op v (.simple v)
  | values {op : MatchOp} {items : List Json} {elements : List Operand} :
      op = .oneOf ∨ op = .noneOf → Limits.exceeds ctx.limits.inElements items.length = false →
      List.Forall₂ (ReadsValue ctx site) items elements →
      ReadsLeaf site op (.arr items) (.array elements)
  | pattern {v : Json} {p : Pattern} : ctx.patterns.validate v ctx.limits site.fullpath = .ok p →
      ReadsLeaf site .pattern v (.simple p.toJson)
  | circle {v w : Json} : circle site.fullpath v = .ok w → ReadsLeaf site .within v (.simple w)
  | compared {op : MatchOp} {v : Json} : op.compareOp?.isSome = true →
      Rule.isStructured v = false ∨ Rule.isEmptyStructure v = true → ReadsLeaf site op v (.simple v)

/-- The forms of a condition. -/
inductive Reads (site : Site) : Json → Operand → Prop
  /-- A field with a literal. -/
  | literal {v : Json} : Path.isOperator site.key = false → checkField site = .ok () →
      v.isArr = false → v.isObj = false → Reads site v (simpleOrVariable ctx v)
  /-- A field with operators. -/
  | operators {fs : Fields} {cs : Children} : Path.isOperator site.key = false →
      checkField site = .ok () → (∀ f ∈ fs, Path.isOperator f.1 = true) →
      ReadsObject ctx R site fs cs → Reads site (.obj fs) (.expression cs)
  | placeholder {op : MatchOp} {v : Json} {name : String} : checkOperator ctx site v = .ok op →
      ctx.placeholder? v = some name → Reads site v (.variable name)
  | conditions {op : MatchOp} {items : List Json} {elements : List Operand} :
      checkOperator ctx site (.arr items) = .ok op → op = .and ∨ op = .or →
      List.Forall₂ (ReadsCondition ctx R site) items elements →
      Reads site (.arr items) (.array elements)
  | all {items : List Json} {elements : List Operand} :
      checkOperator ctx site (.arr items) = .ok .all →
      Limits.exceeds ctx.limits.allElements items.length = false →
      List.Forall₂ (ReadsElement ctx R site) items elements →
      checkUnmixed site.fullpath elements = .ok () → Reads site (.arr items) (.array elements)
  | elemMatch {fs : Fields} {cs : Children} :
      checkOperator ctx site (.obj fs) = .ok .elemMatch → ReadsObject ctx R site fs cs →
      Reads site (.obj fs) (.expression cs)
  /-- An operator that holds no conditions. -/
  | leaf {op : MatchOp} {v : Json} {o : Operand} : checkOperator ctx site v = .ok op →
      ReadsLeaf ctx site op v o → Reads site v o

variable {ctx} {R} {site : Site} {v : Json} {o : Operand} {op : MatchOp} {fs : Fields}
  {cs : Children} {items : List Json} {elements : List Operand} {P : Site → Json → Operand → Prop}

/-! ## Checks -/

/-- What an operator has passed: it is known, allowed, and meets its rules. -/
lemma checkOperator_ok (h : checkOperator ctx site v = .ok op) : site.matchOp? = some op ∧
      (op.isRestricted = true → ctx.options.allowsOperator site.key = true) ∧
      ∀ r ∈ op.rules, r.fault? site site.key v (ctx.placeholder? v).isSome ctx.limits = none := by
  unfold checkOperator at h
  split at h
  · next op' hop' =>
    simp only [except_guard_ok_iff, except_bind_ok_iff] at h
    obtain ⟨hallowed, _, hrules, h⟩ := h
    cases h
    refine ⟨hop', fun hrestricted => by simpa [hrestricted] using hallowed, ?_⟩
    unfold Rule.checkAll at hrules
    split at hrules
    · cases hrules
    · next hnone => exact findSome?_eq_none_iff.1 hnone
  · cases h

lemma conditions_of_rules (hv : ctx.placeholder? v = none) (hop : op = .and ∨ op = .or)
    (h : checkOperator ctx site v = .ok op) : ∃ items, v = .arr items ∧ items ≠ [] ∧
      Limits.exceeds ctx.limits.conditions items.length = false := by
  have hmem : Rule.conditions ∈ op.rules := by rcases hop with rfl | rfl <;> simp [MatchOp.rules]
  have hfault := (checkOperator_ok h).2.2 _ hmem
  rw [hv] at hfault
  simp only [Rule.fault?, Option.isSome_none, Bool.false_eq_true, if_false] at hfault
  cases v with
  | arr items =>
    simp only [Rule.conditionsFault] at hfault
    split at hfault
    · cases hfault
    · next hne =>
      split at hfault
      · cases hfault
      · next hlong => exact ⟨items, rfl, by simpa using hne, by simpa using hlong⟩
  | _ => cases hfault

/-! ## Leaves -/

lemma ReadsLeaf.ne (h : ReadsLeaf ctx site op v o) :
    (op ≠ .and ∧ op ≠ .or) ∧ op ≠ .all ∧ op ≠ .elemMatch := by
  cases h with
  | scalar hop => rcases hop with rfl | rfl | rfl <;> decide
  | values hop => rcases hop with rfl | rfl <;> decide
  | pattern | circle => decide
  | compared hop => cases op <;> first | decide | cases hop

lemma scalar_of_primitive {u : Unit}
    (h : Rule.checkAll [.primitive] site site.key v false ctx.limits = .ok u) :
    v.isArr = false ∧ v.isObj = false := by
  unfold Rule.checkAll at h
  split at h
  · cases h
  · next hnone =>
    have hfault := findSome?_eq_none_iff.1 hnone _ mem_cons_self
    simpa [Rule.fault?, Rule.isStructured] using hfault

lemma listElements_eq_ok (h : listElements ctx site items = .ok elements) :
    List.Forall₂ (ReadsValue ctx site) items elements := by
  induction items generalizing elements with
  | nil =>
    cases h
    exact .nil
  | cons item rest ih =>
    simp only [listElements] at h
    split at h
    · simp only [except_bind_ok_iff] at h
      obtain ⟨p, hp, _, ⟨⟩, tail, htail, ⟨⟩⟩ := h
      exact .cons (.pattern hp) (ih htail)
    · split at h
      · next hname =>
        simp only [except_bind_ok_iff] at h
        obtain ⟨_, ⟨⟩, tail, htail, ⟨⟩⟩ := h
        exact .cons (.placeholder hname) (ih htail)
      · simp only [except_bind_ok_iff] at h
        obtain ⟨_, hcheck, _, ⟨⟩, tail, htail, ⟨⟩⟩ := h
        have hscalar := scalar_of_primitive hcheck
        exact .cons (.scalar hscalar.1 hscalar.2) (ih htail)

/-- Where the rules of an operator hold, its value is read by one of the forms. -/
lemma leafOperand_reads (hv : ctx.placeholder? v = none)
    (hcheck : checkOperator ctx site v = .ok op) (hlogic : op ≠ .and ∧ op ≠ .or)
    (helement : op ≠ .all ∧ op ≠ .elemMatch) (h : leafOperand ctx site op v = .ok o) :
    ReadsLeaf ctx site op v o := by
  have hrules := (checkOperator_ok hcheck).2.2
  rw [hv] at hrules
  cases op
  case and => exact absurd rfl hlogic.1
  case or => exact absurd rfl hlogic.2
  case all => exact absurd rfl helement.1
  case elemMatch => exact absurd rfl helement.2
  case hasType | present | size =>
    simp only [leafOperand] at h
    split at h
    · next hcond =>
      cases h
      cases v with
      | arr items => cases hcond
      | obj fs => cases hcond
      | _ => exact .scalar (by decide) rfl rfl
    · cases h
  case oneOf | noneOf =>
    obtain ⟨elements, helements, h⟩ := except_bind_ok_iff.1 h
    cases h
    have hfault := hrules .valueList (by simp [MatchOp.rules])
    simp only [Rule.fault?, Option.isSome_none, Bool.false_eq_true, if_false] at hfault
    cases v with
    | arr items =>
      refine .values (by decide) ?_ (listElements_eq_ok helements)
      simpa [Rule.valueListFault] using hfault
    | _ => cases hfault
  case pattern =>
    obtain ⟨p, hp, h⟩ := except_bind_ok_iff.1 h
    cases h
    exact .pattern hp
  case within =>
    obtain ⟨w, hw, h⟩ := except_bind_ok_iff.1 h
    cases h
    exact .circle hw
  case eq | ne | gt =>
    cases h
    have hfault := hrules .primitiveOrEmpty (by simp [MatchOp.rules])
    exact .compared rfl (by simpa [Rule.fault?, or_iff_not_imp_left] using hfault)
  case gte | lt | lte =>
    cases h
    have hfault := hrules .primitive (by simp [MatchOp.rules])
    exact .compared rfl (.inl (by simpa [Rule.fault?] using hfault))

/-! ## Reading by the rules -/

lemma parseFields_eq_ok (h : parseFields ctx site fs = .ok cs) :
    List.Forall₂ (fun f c => c.1 = f.1 ∧ parseChild ctx (site.child f.1) f.2 = .ok c.2) fs cs := by
  induction fs generalizing cs with
  | nil =>
    cases h
    exact .nil
  | cons f rest ih =>
    simp only [parseFields] at h
    split at h
    all_goals
      next hkey =>
      simp only [except_bind_ok_iff] at h
      obtain ⟨first, hfirst, tail, htail, h⟩ := h
      cases h
      refine .cons ⟨rfl, ?_⟩ (ih htail)
      simpa [parseChild, Site.child, hkey] using hfirst

lemma parseExpression_eq_ok (h : parseExpression ctx site v = .ok o) :
    ∃ fs cs, v = .obj fs ∧ o = .expression cs ∧
      ReadsObject ctx (fun s w p => parseChild ctx s w = .ok p) site fs cs := by
  cases v with
  | obj fs =>
    simp only [parseExpression, except_bind_ok_iff] at h
    obtain ⟨gs, hgs, cs, hcs, h⟩ := h
    cases h
    obtain ⟨heq, -⟩ := checkExpression_ok_iff.1 hgs
    cases heq
    exact ⟨fs, cs, rfl, rfl, hgs, parseFields_eq_ok hcs⟩
  | _ =>
    simp only [parseExpression, except_map_ok_iff] at h
    obtain ⟨fs, hfs, -⟩ := h
    cases (checkExpression_ok_iff.1 hfs).1

lemma parseConditions_eq_ok (h : parseConditions ctx site items = .ok elements) :
    List.Forall₂ (ReadsCondition ctx (fun s w p => parseChild ctx s w = .ok p) site)
      items elements := by
  induction items generalizing elements with
  | nil =>
    cases h
    exact .nil
  | cons item rest ih =>
    rw [parseConditions] at h
    split at h
    all_goals
      simp only [except_bind_ok_iff] at h
      obtain ⟨first, hfirst, tail, htail, h⟩ := h
      cases h
    · next hname =>
      cases hfirst
      exact .cons (.placeholder hname) (ih htail)
    · obtain ⟨fs, cs, rfl, rfl, hcs⟩ := parseExpression_eq_ok hfirst
      exact .cons (.object hcs) (ih htail)

lemma parseAllElements_eq_ok (h : parseAllElements ctx site items = .ok elements) :
    List.Forall₂ (ReadsElement ctx (fun s w p => parseChild ctx s w = .ok p) site)
      items elements := by
  induction items generalizing elements with
  | nil =>
    cases h
    exact .nil
  | cons item rest ih =>
    cases item with
    | arr items => cases h
    | obj fs =>
      simp only [parseAllElements, except_bind_ok_iff, except_guard_ok_iff, not_not] at h
      obtain ⟨first, hfirst, hkeys, tail, htail, h⟩ := h
      cases h
      obtain ⟨_, cs, heq, rfl, hcs⟩ := parseExpression_eq_ok hfirst
      cases heq
      obtain ⟨⟨_, v⟩, rfl, rfl⟩ := map_eq_singleton_iff.1 hkeys
      exact .cons (.object hcs) (ih htail)
    | _ =>
      simp only [parseAllElements, except_bind_ok_iff] at h
      obtain ⟨tail, htail, h⟩ := h
      cases h
      exact .cons (.literal rfl rfl) (ih htail)

lemma parseField_reads (hkey : Path.isOperator site.key = false)
    (h : parseField ctx site v = .ok o) :
    Reads ctx (fun s w p => parseChild ctx s w = .ok p) site v o := by
  cases v with
  | arr items => simp [parseField, except_bind_ok_iff] at h
  | obj fs =>
    simp only [parseField, except_bind_ok_iff, except_guard_ok_iff] at h
    obtain ⟨_, hfield, hops, gs, hgs, cs, hcs, h⟩ := h
    cases h
    obtain ⟨heq, -⟩ := checkExpression_ok_iff.1 hgs
    cases heq
    exact .operators hkey hfield (by simpa using hops) ⟨hgs, parseFields_eq_ok hcs⟩
  | _ =>
    simp only [parseField, except_bind_ok_iff] at h
    obtain ⟨_, hfield, h⟩ := h
    cases h
    exact .literal hkey hfield rfl rfl

lemma parseOperator_reads (h : parseOperator ctx site v = .ok o) :
    Reads ctx (fun s w p => parseChild ctx s w = .ok p) site v o := by
  cases v with
  | arr items =>
    simp only [parseOperator, except_bind_ok_iff] at h
    obtain ⟨op, hop, h⟩ := h
    split at h
    · obtain ⟨elements, helements, h⟩ := except_bind_ok_iff.1 h
      cases h
      exact .conditions hop (.inl rfl) (parseConditions_eq_ok helements)
    · obtain ⟨elements, helements, h⟩ := except_bind_ok_iff.1 h
      cases h
      exact .conditions hop (.inr rfl) (parseConditions_eq_ok helements)
    · simp only [except_bind_ok_iff, except_guard_ok_iff, Bool.not_eq_true] at h
      obtain ⟨hlength, elements, helements, _, hunmixed, h⟩ := h
      cases h
      exact .all hop hlength (parseAllElements_eq_ok helements) hunmixed
    · obtain ⟨fs, hfs, -⟩ := except_map_ok_iff.1 h
      cases (checkExpression_ok_iff.1 hfs).1
    · next hand hor hall helem => exact .leaf hop (leafOperand_reads rfl hop ⟨hand, hor⟩ ⟨hall, helem⟩ h)
  | obj fs =>
    simp only [parseOperator, except_bind_ok_iff] at h
    obtain ⟨op, hop, h⟩ := h
    split at h
    · simp only [except_bind_ok_iff] at h
      obtain ⟨gs, hgs, cs, hcs, h⟩ := h
      cases h
      obtain ⟨heq, -⟩ := checkExpression_ok_iff.1 hgs
      cases heq
      exact .elemMatch hop ⟨hgs, parseFields_eq_ok hcs⟩
    · cases h
    · obtain ⟨items, heq, -⟩ := conditions_of_rules rfl (.inl rfl) hop
      cases heq
    · obtain ⟨items, heq, -⟩ := conditions_of_rules rfl (.inr rfl) hop
      cases heq
    · next helem hall hand hor => exact .leaf hop (leafOperand_reads rfl hop ⟨hand, hor⟩ ⟨hall, helem⟩ h)
  | _ =>
    simp only [parseOperator, except_bind_ok_iff] at h
    obtain ⟨op, hop, h⟩ := h
    split at h
    · next hname =>
      cases h
      exact .placeholder hop hname
    · next hv =>
      split at h
      · cases h
      · obtain ⟨fs, hfs, -⟩ := except_map_ok_iff.1 h
        cases (checkExpression_ok_iff.1 hfs).1
      · obtain ⟨items, heq, -⟩ := conditions_of_rules hv (.inl rfl) hop
        cases heq
      · obtain ⟨items, heq, -⟩ := conditions_of_rules hv (.inr rfl) hop
        cases heq
      · next hall helem hand hor => exact .leaf hop (leafOperand_reads hv hop ⟨hand, hor⟩ ⟨hall, helem⟩ h)

/-- **What is read is read by one of the rules.** -/
lemma parse_reads (h : parseChild ctx site v = .ok o) :
    Reads ctx (fun s w p => parseChild ctx s w = .ok p) site v o := by
  unfold parseChild at h
  split at h
  · exact parseOperator_reads h
  · next hkey => exact parseField_reads (by simpa using hkey) h

/-! ## Induction -/

section

variable {S : Site → Json → Operand → Prop}

lemma ReadsObject.imp (h : ReadsObject ctx R site fs cs)
    (hRS : ∀ s w p, sizeOf w < sizeOf fs → R s w p → S s w p) : ReadsObject ctx S site fs cs := by
  refine ⟨h.checked, forall₂_mem_mono h.fields fun f hf c _ hc => ⟨hc.1, hRS _ _ _ ?_ hc.2⟩⟩
  have hsize := sizeOf_lt_of_mem hf
  rcases f with ⟨key, w⟩
  simp only [Prod.mk.sizeOf_spec] at hsize ⊢
  omega

lemma Reads.imp (h : Reads ctx R site v o)
    (hRS : ∀ s w p, sizeOf w < sizeOf v → R s w p → S s w p) : Reads ctx S site v o := by
  have hobject : ∀ {fs cs}, sizeOf fs < sizeOf v → ReadsObject ctx R site fs cs →
      ReadsObject ctx S site fs cs := fun hlt hfs => hfs.imp fun s w p hw =>
      hRS s w p (Nat.lt_trans hw hlt)
  cases h with
  | literal hkey hfield harr hobj => exact .literal hkey hfield harr hobj
  | operators hkey hfield hops hfs => exact .operators hkey hfield hops (hobject (by simp) hfs)
  | placeholder hop hname => exact .placeholder hop hname
  | conditions hop hlogic helements =>
    refine .conditions hop hlogic (forall₂_mem_mono helements fun item hitem e _ he => ?_)
    have hsize := sizeOf_lt_of_mem hitem
    cases he with
    | placeholder hname => exact .placeholder hname
    | object hfs =>
      simp only [Json.obj.sizeOf_spec, Json.arr.sizeOf_spec] at hsize hobject
      exact .object (hobject (by omega) hfs)
  | all hop hlength helements hunmixed =>
    refine .all hop hlength (forall₂_mem_mono helements fun item hitem e _ he => ?_) hunmixed
    have hsize := sizeOf_lt_of_mem hitem
    cases he with
    | literal harr hobj => exact .literal harr hobj
    | object hfs =>
      simp only [Json.obj.sizeOf_spec, Json.arr.sizeOf_spec] at hsize hobject
      exact .object (hobject (by omega) hfs)
  | elemMatch hop hfs => exact .elemMatch hop (hobject (by simp) hfs)
  | leaf hop hleaf => exact .leaf hop hleaf

end

/-- **Induction on what is read**: what holds by every rule, if it holds of the conditions inside,
holds of everything that is read. -/
lemma parse_induction (step : ∀ site v o, Reads ctx P site v o → P site v o) :
    ∀ site v o, parseChild ctx site v = .ok o → P site v o := by
  have hall : ∀ n site v o, sizeOf v = n → parseChild ctx site v = .ok o → P site v o := by
    intro n
    induction n using Nat.strongRecOn with
    | ind n ih =>
      rintro site v o rfl h
      exact step site v o ((parse_reads h).imp fun s w p hw => ih _ hw s w p rfl)
  exact fun site v o => hall _ site v o rfl

lemma parse_object (step : ∀ site v o, Reads ctx P site v o → P site v o) {value : Json}
    (h : parse ctx value = .ok o) : ∃ fs cs, stageObject .match value = .ok fs ∧
      o = .expression cs ∧ ReadsObject ctx P (.root StageKind.match.key) fs cs := by
  obtain ⟨fs, hfs, h⟩ := except_bind_ok_iff.1 h
  obtain ⟨_, cs, heq, rfl, hcs⟩ := parseExpression_eq_ok h
  cases heq
  exact ⟨fs, cs, hfs, rfl, hcs.imp fun s w p _ => parse_induction step s w p⟩

end Match

end Conduit
