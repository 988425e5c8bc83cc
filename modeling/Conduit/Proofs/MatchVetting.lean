import Conduit.Proofs.MatchConditions
import Conduit.Proofs.QueryKeys

/-!
# What a match lets in

Reading a match vets it: every key names a field or is an operator that is known, allowed and in
its place, and no literal brings in keys other than those of patterns, circles, dates and
identifiers (`parse_vetted`).
-/

namespace Conduit

open Json List

/-- The keys of literals that are objects. -/
def literalKeys : List String := ["$regex", "$options", "$centerSphere", "$date", "$oid"]

lemma keysAre_of_isLiteral {w : Json} (h : w.IsLiteral) : KeysAre (· ∈ literalKeys) w := by
  cases h with
  | emptyArray => exact nofun
  | emptyObject => exact nofun
  | pattern p =>
    refine keysAre_obj.2 fun f hf => ?_
    simp only [mem_cons, not_mem_nil, or_false] at hf
    rcases hf with rfl | rfl
    · exact ⟨mem_cons_self, keysAre_scalar rfl rfl⟩
    · exact ⟨mem_cons_of_mem _ mem_cons_self, keysAre_scalar rfl rfl⟩
  | date s => exact keysAre_singleton.2 ⟨by decide, keysAre_scalar rfl rfl⟩
  | oid s => exact keysAre_singleton.2 ⟨by decide, keysAre_scalar rfl rfl⟩
  | _ => exact keysAre_scalar rfl rfl

namespace Match

/-- Where an operator may stand: below a field, or below an operator on elements. -/
def Stands (op : MatchOp) (holder : String) : Prop := match op with
  | .and | .or => Path.isOperator holder = true
  | .elemMatch => Path.isOperator holder = false ∨ holder = "$all"
  | .size | .all | .within => Path.isOperator holder = false
  | _ => Path.isOperator holder = false ∨ holder = "$elemMatch"

/-- What passes as a key below another one. -/
structure VettedKey (ctx : Context) (holder key : String) : Prop where
  field : Path.isOperator key = false → Path.property key = key
  operator : Path.isOperator key = true → ∃ op, MatchOp.ofKey? key = some op ∧
    (op.isRestricted = true → ctx.options.allowsOperator key = true) ∧ Stands op holder

/-- What may stand in the list of an operator: conditions if it is logical, values if not, either
if it is `$all`, and placeholders for them. -/
structure VettedList (key : String) (elements : List Operand) : Prop where
  conditions : key = "$and" ∨ key = "$or" →
    elements ≠ [] ∧ ∀ e ∈ elements, e.isExpression = true ∨ e.isVariable = true
  values : key ∉ ["$and", "$or"] → ∀ e ∈ elements,
    e.isSimple = true ∨ e.isVariable = true ∨ key = "$all" ∧ e.isExpression = true

/-- The operators that hold objects of conditions. -/
def objectOperators : List String := ["$and", "$or", "$all", "$elemMatch"]

mutual

/-- What passes as the value of a key. -/
def Vetted (ctx : Context) (key : String) : Operand → Prop
  | .expression cs =>
    (Path.isOperator key = true → key ∈ objectOperators) ∧ VettedBelow ctx key cs
  | .array elements => VettedList key elements ∧ VettedAmong ctx key elements
  | .simple w => KeysAre (· ∈ literalKeys) w
  | .variable _ => ctx.options.withVariables = true
  | _ => False

def VettedBelow (ctx : Context) (holder : String) : Children → Prop
  | [] => True
  | (key, v) :: rest =>
    (VettedKey ctx holder key ∧ Vetted ctx key v) ∧ VettedBelow ctx holder rest

def VettedAmong (ctx : Context) (key : String) : List Operand → Prop
  | [] => True
  | v :: rest => Vetted ctx key v ∧ VettedAmong ctx key rest

end

variable {ctx : Context}

variable {elements : List Operand} {key : String} {site : Site} {op : MatchOp} {v : Json}
  {cs : Children} {o : Operand}

lemma VettedList.not_expression (h : VettedList key elements)
    (hkey : key ∉ ["$and", "$or", "$all"]) : ∀ e ∈ elements, e.isExpression = false := by
  intro e he
  simp only [mem_cons, not_mem_nil, or_false, not_or] at hkey
  rcases h.values (by simp [hkey]) e he with hsimple | hvariable | ⟨hall, -⟩
  · cases e <;> first | rfl | cases hsimple
  · cases e <;> first | rfl | cases hvariable
  · exact absurd hall hkey.2.2

lemma VettedList.array_notMem {items : List Operand} (h : VettedList key elements) :
    Operand.array items ∉ elements := by
  intro hmem
  by_cases hkey : key ∈ ["$and", "$or"]
  · rcases (h.conditions (by simpa using hkey)).2 _ hmem with h | h <;> cases h
  · rcases h.values hkey _ hmem with h | h | ⟨-, h⟩ <;> cases h

lemma vettedBelow_iff {holder : String} :
    VettedBelow ctx holder cs ↔ ∀ c ∈ cs, VettedKey ctx holder c.1 ∧ Vetted ctx c.1 c.2 := by
  induction cs with
  | nil => simp [VettedBelow]
  | cons c rest ih => simp [VettedBelow, ih]

lemma vettedAmong_iff : VettedAmong ctx key elements ↔ ∀ e ∈ elements, Vetted ctx key e := by
  induction elements with
  | nil => simp [VettedAmong]
  | cons e rest ih => simp [VettedAmong, ih]

/-! ## Operators in their places -/

/-- Above a place is the stage or a key. -/
def Rooted (site : Site) : Prop := site.isRoot = true → Path.isOperator site.key = true

lemma rooted_child (site : Site) (key : String) : Rooted (site.child key) := nofun

lemma stands_of_rules (hsite : Rooted site) (hall : site.key = "$all" → op = .elemMatch)
    (hrules : ∀ r ∈ op.rules, r.fault? (site.child key) key v (ctx.placeholder? v).isSome ctx.limits = none) :
    Stands op site.key := by
  have hbelow : Rule.belowProperty ∈ op.rules → Path.isOperator site.key = false := by
    intro hmem
    simpa [Rule.fault?, Site.child] using hrules _ hmem
  have hunder : op ≠ .elemMatch → Rule.underProperty ∈ op.rules →
      Path.isOperator site.key = false ∨ site.key = "$elemMatch" := by
    intro hne hmem
    have hfault := hrules _ hmem
    have hreaches : Rule.reachesProperty (site.key :: site.enclosing) = true := by
      by_contra hnot
      simp [Rule.fault?, Site.child, hnot] at hfault
    rw [Rule.reachesProperty] at hreaches
    cases hop : Path.isOperator site.key with
    | false => exact .inl rfl
    | true =>
      simp only [hop, Bool.not_true, Bool.false_eq_true, if_false] at hreaches
      split at hreaches
      · next h => exact .inr (h.resolve_left fun h => hne (hall h))
      · cases hreaches
  cases op
  case and | or =>
    have hfault := hrules .topOrLogical mem_cons_self
    have hplace : site.enclosing = [] ∨ site.key ∈ ["$and", "$or", "$elemMatch"] := by
      by_contra hnot
      simp only [mem_cons, not_mem_nil, or_false, not_or] at hnot
      simp [Rule.fault?, Site.child, Site.depth, hnot] at hfault
    rcases hplace with h | h
    · exact hsite (by rw [Site.isRoot, h]; rfl)
    · exact (by decide +kernel : ∀ k ∈ ["$and", "$or", "$elemMatch"], Path.isOperator k = true) _ h
  case elemMatch =>
    have hfault := hrules .belowPropertyOrAll mem_cons_self
    have hplace : Path.isOperator site.key = true → site.key = "$all" := by
      simpa [Rule.fault?, Site.child] using hfault
    cases hop : Path.isOperator site.key with
    | false => exact .inl hop
    | true => exact .inr (hplace hop)
  case size | all | within => exact hbelow mem_cons_self
  all_goals exact hunder (by decide) mem_cons_self

lemma checkOperator_vetted (hsite : Rooted site) (hall : site.key = "$all" → key = "$elemMatch")
    (h : checkOperator ctx (site.child key) v = .ok op) :
    MatchOp.ofKey? key = some op ∧ VettedKey ctx site.key key := by
  obtain ⟨hop, hallowed, hrules⟩ := checkOperator_ok h
  have hop : MatchOp.ofKey? key = some op := hop
  have helem : site.key = "$all" → op = .elemMatch := by
    intro heq
    rw [hall heq] at hop
    exact (Option.some.inj hop).symm
  refine ⟨hop, fun hnot => ?_, fun _ => ⟨op, hop, hallowed, stands_of_rules hsite helem hrules⟩⟩
  rw [← MatchOp.key_of_ofKey? hop, MatchOp.isOperator_key] at hnot
  cases hnot

lemma checkField_vetted (hkey : Path.isOperator key = false) {u : Unit}
    (h : checkField (site.child key) = .ok u) : VettedKey ctx site.key key where
  field _ := by
    have hproperty := checkField_ok h
    rwa [show (site.child key).key = key from rfl] at hproperty
  operator hop := by
    rw [hkey] at hop
    cases hop

/-! ## Literals -/

lemma ReadsLeaf.vetted (hop : MatchOp.ofKey? key = some op) (h : ReadsLeaf ctx site op v o) :
    Vetted ctx key o := by
  cases h with
  | scalar _ harr hobj => exact keysAre_scalar harr hobj
  | @pattern _ p => exact keysAre_of_isLiteral (.pattern p)
  | compared _ hv => exact keysAre_of_isLiteral (isLiteral_of_compared hv)
  | circle hw =>
    obtain ⟨lng, lat, radius, rfl, hscalar⟩ := circle_ok hw
    refine keysAre_singleton.2 ⟨by decide, keysAre_arr.2 ?_⟩
    simp only [forall_mem_cons, not_mem_nil, IsEmpty.forall_iff, implies_true,
      and_true] at hscalar ⊢
    obtain ⟨hlng, hlat, hradius⟩ := hscalar
    exact ⟨keysAre_arr.2 (by simp [keysAre_scalar hlng.1 hlng.2, keysAre_scalar hlat.1 hlat.2]),
      keysAre_scalar hradius.1 hradius.2⟩
  | values hlist _ helements =>
    have hnot : ¬(key = "$and" ∨ key = "$or") := by
      rw [← MatchOp.key_of_ofKey? hop]
      rcases hlist with rfl | rfl <;> decide
    refine ⟨⟨fun hkey => absurd hkey hnot, fun _ => forall_mem_right helements fun _ _ e he => ?_⟩,
      vettedAmong_iff.2 (forall_mem_right helements fun _ _ e he => ?_)⟩
    · cases he with
      | placeholder => exact .inr (.inl rfl)
      | _ => exact .inl rfl
    · cases he with
      | @pattern _ p => exact keysAre_of_isLiteral (.pattern p)
      | placeholder hname => exact withVariables_of_placeholder? hname
      | scalar harr hobj => exact keysAre_scalar harr hobj

lemma simpleOrVariable_vetted (harr : v.isArr = false) (hobj : v.isObj = false) :
    Vetted ctx key (simpleOrVariable ctx v) := by
  unfold simpleOrVariable
  split
  · next hname => exact withVariables_of_placeholder? hname
  · exact keysAre_scalar harr hobj

/-! ## Reading a match -/

/-- What is read below a key passes with it. -/
def VettedAt (ctx : Context) (site : Site) (o : Operand) : Prop :=
  ∀ (holder : Site) (key : String), site = holder.child key → Rooted holder →
    (holder.key = "$all" → key = "$elemMatch") → VettedKey ctx holder.key key ∧ Vetted ctx key o

lemma ReadsObject.vetted {fs : Fields} (hsite : Rooted site)
    (hall : site.key = "$all" → ∀ f ∈ fs, f.1 = "$elemMatch")
    (h : ReadsObject ctx (fun site _ o => VettedAt ctx site o) site fs cs) :
    VettedBelow ctx site.key cs :=
  vettedBelow_iff.2 (forall_mem_right h.fields fun f hf _ hc =>
    hc.1 ▸ hc.2 site f.1 rfl hsite fun heq => hall heq f hf)

lemma Reads.vetted (h : Reads ctx (fun site _ o => VettedAt ctx site o) site v o) :
    VettedAt ctx site o := by
  rintro holder key rfl hsite hall
  have hbelow : ∀ {fs cs}, key ≠ "$all" →
      ReadsObject ctx (fun site _ o => VettedAt ctx site o) (holder.child key) fs cs →
      VettedBelow ctx key cs :=
    fun hne hfs => hfs.vetted (rooted_child _ _) fun heq => absurd heq hne
  cases h with
  | literal hkey hfield harr hobj =>
    exact ⟨checkField_vetted hkey hfield, simpleOrVariable_vetted harr hobj⟩
  | operators hkey hfield _ hfs =>
    refine ⟨checkField_vetted hkey hfield, fun hop => absurd (hkey.symm.trans hop) (by decide),
      hbelow ?_ hfs⟩
    rintro rfl
    exact absurd (show Path.isOperator "$all" = false from hkey) (by decide +kernel)
  | placeholder hop hname =>
    exact ⟨(checkOperator_vetted hsite hall hop).2, withVariables_of_placeholder? hname⟩
  | conditions hop hlogic helements =>
    obtain ⟨hofKey, hvetted⟩ := checkOperator_vetted hsite hall hop
    have hkey : key = "$and" ∨ key = "$or" := by
      rw [← MatchOp.key_of_ofKey? hofKey]
      rcases hlogic with rfl | rfl <;> decide
    have hkeys : key ∈ ["$and", "$or"] ∧ key ∈ objectOperators ∧ key ≠ "$all" := by
      rcases hkey with rfl | rfl <;> decide
    obtain ⟨_, heq, hne, -⟩ := conditions_of_rules rfl hlogic hop
    cases heq
    refine ⟨hvetted, ⟨fun _ => ⟨?_, forall_mem_right helements fun _ _ e he => ?_⟩,
      fun hnot => absurd hkeys.1 hnot⟩, vettedAmong_iff.2 (forall_mem_right helements
        fun _ _ e he => ?_)⟩
    · rintro rfl
      exact hne (forall₂_nil_right_iff.1 helements)
    · cases he with
      | placeholder => exact .inr rfl
      | object => exact .inl rfl
    · cases he with
      | placeholder hname => exact withVariables_of_placeholder? hname
      | object hfs => exact ⟨fun _ => hkeys.2.1, hbelow hkeys.2.2 hfs⟩
  | all hop _ helements =>
    obtain ⟨hofKey, hvetted⟩ := checkOperator_vetted hsite hall hop
    obtain rfl : "$all" = key := MatchOp.key_of_ofKey? hofKey
    refine ⟨hvetted, ⟨fun hlogic => absurd hlogic (by decide), fun _ =>
      forall_mem_right helements fun item _ e he => ?_⟩, vettedAmong_iff.2 (forall_mem_right helements
        fun _ _ e he => ?_)⟩
    · cases he with
      | literal =>
        rcases simpleOrVariable_cases ctx item with h | ⟨name, h⟩
        · exact h ▸ .inl rfl
        · exact h ▸ .inr (.inl rfl)
      | object => exact .inr (.inr ⟨rfl, rfl⟩)
    · cases he with
      | literal harr hobj => exact simpleOrVariable_vetted harr hobj
      | object hfs =>
        exact ⟨fun _ => by decide, hfs.vetted (rooted_child _ _)
          fun _ => forall_mem_singleton.2 rfl⟩
  | elemMatch hop hfs =>
    obtain ⟨hofKey, hvetted⟩ := checkOperator_vetted hsite hall hop
    obtain rfl : "$elemMatch" = key := MatchOp.key_of_ofKey? hofKey
    exact ⟨hvetted, fun _ => by decide, hbelow (by decide) hfs⟩
  | leaf hop hleaf =>
    obtain ⟨hofKey, hvetted⟩ := checkOperator_vetted hsite hall hop
    exact ⟨hvetted, hleaf.vetted hofKey⟩

/-- **A parsed match is vetted** from its top down. -/
lemma parse_vetted {value : Json} {v : Operand} (h : parse ctx value = .ok v) :
    ∃ cs, v = .expression cs ∧ VettedBelow ctx "$match" cs := by
  obtain ⟨fs, cs, -, rfl, hcs⟩ := parse_object (fun _ _ _ => Reads.vetted) h
  have hroot : Rooted (Site.root StageKind.match.key) := fun _ => by decide +kernel
  exact ⟨cs, rfl, hcs.vetted hroot fun heq => absurd heq (by decide)⟩

end Match

end Conduit
