import Conduit.Proofs.ClauseBuild

/-!
# The clauses that a match is built into

Conditions on fields and logical operators over them are read as clauses.  Building them adds what
the clauses demand natively, and enters what they enter (`buildChildren_clauses`).
-/

namespace Conduit.Match

open List Journaled

open IndexEntries Document

section

variable (b : Builder)

mutual

/-- The clause of a component. -/
def clauseOf (trail : Trail) : Operand → Clause
  | .array elements => .logic (trail.site.key == "$or") (clausesAmong trail 0 elements)
  | .expression cs => .field (b.indexKey trail) (leavesBelow b.ctx trail 0 0 cs)
  | v => .field (b.indexKey trail) [(trail, v)]

/-- The clauses of the object at position `element`. -/
def clausesBelow (trail : Trail) (element index : Nat) : Children → List Clause
  | [] => []
  | (key, v) :: rest =>
    clauseOf (trail.child b.ctx element index key v) v ::
      clausesBelow trail element (index + 1) rest

/-- The clauses of the objects in a list. -/
def clausesAmong (trail : Trail) (element : Nat) : List Operand → List (List Clause)
  | [] => []
  | .expression cs :: rest =>
    clausesBelow trail element 0 cs :: clausesAmong trail (element + 1) rest
  | _ :: rest => [] :: clausesAmong trail (element + 1) rest

end

end

variable {b : Builder}

lemma length_clausesAmong (trail : Trail) (element : Nat) (elements : List Operand) :
    (clausesAmong b trail element elements).length = elements.length := by
  induction elements generalizing element with
  | nil => rfl
  | cons e rest ih => cases e <;> simp [clausesAmong, ih]

/-! ## What building a clause does -/

/-- What a component is built into says what its clause does. -/
structure BuildsClause (b : Builder) (steps : List IndexStep) (clause : Clause)
    (leaves : List LeafAt) (fs : Fields) (journal : List Step) : Prop where
  keys : Fields.keys fs = [clause.key]
  andList : AndHoldsList fs
  meaning : ∀ d : Document, d.meetsFields fs ↔ clause.Holds (NaturalSat b.ctx d)
  journal : Journals b.ctx journal steps leaves (clause.entries b.ctx)

/-- What is added to an object says what the clauses do. -/
structure BuildsClauses (b : Builder) (steps : List IndexStep) (clauses : List Clause)
    (leaves : List LeafAt) (start out : Enclosing) (journal : List Step) : Prop where
  whole : out.replacement = none
  nodup : (Fields.keys out.fields).Nodup
  andList : AndHoldsList out.fields
  keys : ∀ k ∈ Fields.keys out.fields,
    k ∈ Fields.keys start.fields ∨ k = "$and" ∨ ∃ c ∈ clauses, c.key = k
  kept : Fields.keys start.fields ⊆ Fields.keys out.fields
  covered : ∀ c ∈ clauses, c.key ∈ Fields.keys out.fields
  meaning : ∀ d : Document, d.meetsFields out.fields ↔
    d.meetsFields start.fields ∧ Clause.HoldsAll (NaturalSat b.ctx d) clauses
  journal : Journals b.ctx journal steps leaves (Clause.entriesAll b.ctx clauses)

variable {steps : List IndexStep} {journal : List Step} {key : String} {clause : Clause}
  {fs : Fields} {out : Enclosing} {ctx : Context} {trail : Trail} {items : List Json}
  {elements : List (List Clause)}

lemma BuildsClause.nodup {leaves : List LeafAt}
    (h : BuildsClause b steps clause leaves fs journal) : (Fields.keys fs).Nodup := by
  rw [h.keys]
  exact nodup_singleton _

/-- A built clause goes into the object, beside what is there or under `$and`. -/
lemma BuildsClause.addBuilt {leaves : List LeafAt}
    (h : BuildsClause b steps clause leaves fs journal) {around : Enclosing}
    (haround : around.replacement = none) (hnodup : (Fields.keys around.fields).Nodup)
    (hand : AndHoldsList around.fields) : BuildsClauses b steps [clause] leaves around
      (Builder.addBuilt around (some (.value (.obj fs)))) journal := by
  have hadd : Builder.addBuilt around (some (.value (.obj fs))) =
      { around with fields := Built.merge around.fields fs } := by
    simp only [Builder.addBuilt, haround]
  rw [hadd]
  refine ⟨haround, nodup_merge hnodup fs, andHoldsList_merge h.nodup hand h.andList, fun k hk => ?_,
    keys_subset_merge _ fs, fun c hc => ?_, fun d => ?_, ?_⟩
  · rcases mem_keys_merge hk with hk | hk | hk
    · exact .inl hk
    · exact .inr (.inl hk)
    · rw [h.keys, mem_singleton] at hk
      exact .inr (.inr ⟨clause, mem_cons_self, hk.symm⟩)
  · rw [mem_singleton.1 hc]
    exact mem_keys_merge_single h.keys
  · rw [meetsFields_merge hnodup h.nodup hand, h.meaning, Clause.HoldsAll, Clause.HoldsAll, and_true]
  · rw [Clause.entriesAll, Clause.entriesAll, append_nil]
    exact h.journal

lemma BuildsClauses.append {cs ds : List Clause} {ls ms : List LeafAt}
    {start mid : Enclosing} {xs ys : List Step} (h : BuildsClauses b steps cs ls start mid xs)
    (h' : BuildsClauses b steps ds ms mid out ys) :
    BuildsClauses b steps (cs ++ ds) (ls ++ ms) start out (xs ++ ys) where
  whole := h'.whole
  nodup := h'.nodup
  andList := h'.andList
  keys k hk := by
    rcases h'.keys k hk with hk | hk | ⟨c, hc, hk⟩
    · rcases h.keys k hk with hk | hk | ⟨c, hc, hk⟩
      · exact .inl hk
      · exact .inr (.inl hk)
      · exact .inr (.inr ⟨c, mem_append_left _ hc, hk⟩)
    · exact .inr (.inl hk)
    · exact .inr (.inr ⟨c, mem_append_right _ hc, hk⟩)
  kept := List.Subset.trans h.kept h'.kept
  covered c hc := (mem_append.1 hc).elim (fun hc => h'.kept (h.covered c hc)) (h'.covered c)
  meaning d := by
    simp only [h'.meaning, h.meaning, and_assoc, Clause.holdsAll_iff, forall_mem_append]
  journal := by
    rw [Clause.entriesAll_eq, flatMap_append, ← Clause.entriesAll_eq, ← Clause.entriesAll_eq]
    exact h.journal.append h'.journal

/-- What is entered inside an element is entered under its step and position. -/
lemma Journals.under {s t : IndexStep} {leaves : List LeafAt} {entries : List Entry}
    (h : Journals ctx journal (steps ++ [s, t]) leaves entries) :
    Journals ctx journal steps leaves (entries.map fun x => (s :: t :: x.1, x.2)) where
  entered := by simp [h.entered, map_map, Function.comp_def]
  casts := h.casts
  complete := h.complete

/-! ## Fields -/

lemma isOperator_append (h : Path.isOperator key = false) :
    Path.isOperator (key ++ "._id") = false := by
  simp only [Path.isOperator, Bool.eq_false_iff, ne_eq, String.startsWith_string_iff,
    String.toList_append] at h ⊢
  cases hkey : key.toList with
  | nil => decide
  | cons c rest =>
    rw [hkey] at h
    simpa using h

lemma isOperator_buildKey (h : Path.isOperator trail.site.key = false) :
    Path.isOperator (b.buildKey trail) = false := by
  unfold Builder.buildKey
  split
  · exact isOperator_append h
  · exact h

lemma BuildsClause.of_single {leaves : List LeafAt} {w : Json} (hkey : Path.isOperator key = false)
    (hmeaning : ∀ d : Document, d.meetsValue (d.values key) w ↔ ∀ leaf ∈ leaves, NaturalSat b.ctx d key leaf)
    (hjournal : Journals b.ctx journal steps leaves ((Clause.field key leaves).entries b.ctx)) :
    BuildsClause b steps (.field key leaves) leaves [(key, w)] journal where
  keys := rfl
  andList := by
    intro v hv
    rw [Fields.get?_cons, if_neg (ne_of_named hkey (by decide))] at hv
    cases hv
  meaning d := by
    rw [meetsFields_singleton, meetsKey_field (ne_of_named hkey (by decide))
      (ne_of_named hkey (by decide)), hmeaning, Clause.Holds]
  journal := hjournal

/-- The leaves of the operators of a field are entered with the field. -/
lemma named_of_mem_operators {field : Trail} (hfield : field ≠ []) (hself : field.named = field)
    {cs : Children} (hcs : ∀ c ∈ cs, ∃ op, MatchOp.ofKey? c.1 = some op ∧ Compares op c.2)
    {i : Nat} : ∀ leaf ∈ leavesBelow ctx field 0 i cs, leaf.1.named = field := by
  induction cs generalizing i with
  | nil => exact nofun
  | cons c rest ih =>
    obtain ⟨key, v⟩ := c
    obtain ⟨op, hkey, hcompares⟩ := hcs (key, v) mem_cons_self
    have hopkey : op.key = key := MatchOp.key_of_ofKey? hkey
    have hop : (field.child ctx 0 i key v).site.matchOp? = some op := by
      rw [site_child hfield]
      exact hkey
    intro leaf hleaf
    rw [leavesBelow, leaves_of_compares hop hcompares] at hleaf
    rcases mem_append.1 hleaf with hleaf | hleaf
    · rw [mem_singleton.1 hleaf]
      exact (named_operator hfield (hopkey ▸ MatchOp.isOperator_key op) 0 i v).trans hself
    · exact ih (fun x hx => hcs x (mem_cons_of_mem _ hx)) leaf hleaf

/-- The trail of a field whose entries go to these steps. -/
structure FieldTrail (b : Builder) (steps : List IndexStep) (field : Trail) : Prop where
  ne_nil : field ≠ []
  noOp : field.site.matchOp? = none
  self : field.named = field
  steps : field.steps = steps
  key : b.indexKey field = b.buildKey field
  named : Path.isOperator (b.buildKey field) = false

lemma fieldTrail_child (htrail : trail ≠ []) (hclear : Clear trail.site) (hkey : IsFieldKey key)
    (element index : Nat) (v : Operand) :
    FieldTrail b (objectSteps trail element) (trail.child b.ctx element index key v) where
  ne_nil := child_ne_nil htrail element index key v
  noOp := by
    rw [site_child htrail]
    exact MatchOp.ofKey?_of_not_isOperator hkey.1
  self := named_field htrail hkey.1 element index v
  steps := steps_child element index key v
  key := indexKey_child htrail hclear hkey.2 element index v
  named := isOperator_buildKey (by rw [site_child htrail]; exact hkey.1)

section

variable (hindex : b.ctx.usesIndex = true) {steps : List IndexStep} {field : Trail}
  (hfield : FieldTrail b steps field) {around : Enclosing} {built : Option Built}
  {journal : List Step}

include hindex hfield

lemma buildLiteral_clause {w : Json} (harr : w.isArr = false) (hobj : w.isObj = false)
    (hclean : ∀ leaf ∈ leaves b.ctx field (.simple w), Clean b leaf)
    (hfaithful : Faithful b.ctx journal (leaves b.ctx field (.simple w)))
    (h : b.buildComponent field around (.simple w) = ⟨.ok built, journal⟩) :
    ∃ fs, built = some (.value (.obj fs)) ∧ BuildsClause b steps (clauseOf b field (.simple w))
      (leaves b.ctx field (.simple w)) fs journal := by
  have hleaf : ShapedLeaf (field, .simple w) := by
    rw [ShapedLeaf, hfield.noOp]
    exact ⟨w, rfl, harr, hobj⟩
  obtain ⟨c, rfl, hbuilds⟩ := buildLiteral_ok hindex hleaf (hclean _ mem_cons_self) rfl
    hfield.noOp hfaithful h
  have hclause : clauseOf b field (.simple w) = .field (b.buildKey field) [(field, .simple w)] := by
    rw [← hfield.key]
    rfl
  rw [hclause]
  refine ⟨_, rfl, .of_single hfield.named (fun d => ?_) ?_⟩
  · rw [hbuilds.value, forall_mem_singleton]
    rfl
  · have hjournal := hbuilds.journal
    simp only [fieldEntries, hfield.self, hfield.steps, hfield.key] at hjournal
    rw [Clause.entries, flatMap_singleton]
    exact hjournal

lemma buildOperators_clause {cs : Children} (hne : cs ≠ []) (hkeys : (cs.map Prod.fst).Nodup)
    (hcs : ∀ c ∈ cs, ∃ op, MatchOp.ofKey? c.1 = some op ∧ Compares op c.2)
    (hclean : ∀ leaf ∈ leaves b.ctx field (.expression cs), Clean b leaf)
    (hfaithful : Faithful b.ctx journal (leaves b.ctx field (.expression cs)))
    (h : b.buildComponent field around (.expression cs) = ⟨.ok built, journal⟩) :
    ∃ fs, built = some (.value (.obj fs)) ∧ BuildsClause b steps
      (clauseOf b field (.expression cs)) (leaves b.ctx field (.expression cs)) fs journal := by
  simp only [Builder.buildComponent, hfield.noOp, bind_ok_iff] at h
  obtain ⟨out, m, n, hrun, h, rfl⟩ := h
  have hnamed : ∀ leaf ∈ leavesBelow b.ctx field 0 0 cs, leaf.1.named = field :=
    named_of_mem_operators hfield.ne_nil hfield.self hcs
  have hops : BuildsOperators b field (leavesBelow b.ctx field 0 0 cs) {} out m :=
    buildOperators_ok hindex hfield.ne_nil hfield.self hcs hkeys hclean
      (hfaithful.mono (subset_append_left m n) (List.Subset.refl _)) rfl nodup_nil
      (fun _ _ _ _ _ _ => rfl) hrun
  have hsome : leavesBelow b.ctx field 0 0 cs ≠ [] := by
    obtain ⟨c, rest, rfl⟩ := exists_cons_of_ne_nil hne
    obtain ⟨op, hop, hcompares⟩ := hcs c mem_cons_self
    rw [leavesBelow, leaves_of_compares (by rw [site_child hfield.ne_nil]; exact hop) hcompares]
    exact cons_ne_nil _ _
  have hholds := hops.operators (.inl hsome)
  have hnonempty : out.fields.isEmpty = false := by
    cases hfields : out.fields with
    | nil =>
      rw [hfields] at hholds
      cases hholds
    | cons f rest => rfl
  simp only [Builder.enclosed, hops.whole, hnonempty, Bool.false_eq_true, if_false,
    Builder.buildField, bind_ok_iff] at h
  obtain ⟨found, m', n', hfound, h, rfl⟩ := h
  obtain ⟨leaf, hleaf⟩ := exists_mem_of_ne_nil _ hsome
  obtain ⟨rfl, hquiet⟩ := localized_ok (fun id hid =>
    (hclean leaf hleaf id (mem_append_right _ (by rw [hnamed leaf hleaf]; exact hid))).1) hfound
  cases h
  rw [clauseOf, hfield.key]
  refine ⟨_, rfl, .of_single hfield.named (fun d => ?_) ?_⟩
  · rw [meetsValue_operators hops.nodup hholds, hops.meaning]
    simp [Fields.get?, NaturalSat]
  · have hjournal := hops.journal
    have hentries : (leavesBelow b.ctx field 0 0 cs).flatMap (fieldEntries b) =
        (Clause.field (b.buildKey field) (leavesBelow b.ctx field 0 0 cs)).entries b.ctx := by
      refine flatMap_congr fun x hx => ?_
      rw [fieldEntries, hnamed x hx, hfield.key]
    rw [hentries, hfield.steps] at hjournal
    rw [append_nil]
    exact hjournal.append_quiet hquiet

end

/-! ## Logical operators -/

/-- What each built element says is what its clauses do. -/
def Mirrors (b : Builder) (items : List Json) (elements : List (List Clause)) : Prop :=
  List.Forall₂ (fun v cs => ∀ d : Document, d.meets v ↔ Clause.HoldsAll (NaturalSat b.ctx d) cs)
    items elements

lemma Mirrors.holds (h : Mirrors b items elements) (d : Document) (isOr : Bool) :
    d.meetsKey (if isOr then "$or" else "$and") (.arr items) ↔
      (Clause.logic isOr elements).Holds (NaturalSat b.ctx d) := by
  cases isOr with
  | true =>
    rw [if_pos rfl, meetsKey_or, Clause.holds_or]
    induction h with
    | nil => simp
    | cons hfirst _ ih => simp [hfirst, ih]
  | false =>
    rw [if_neg Bool.false_ne_true, meetsKey_and, Clause.holds_and]
    induction h with
    | nil => simp
    | cons hfirst _ ih => simp [hfirst, ih]

lemma BuildsClause.of_logic {isOr : Bool} {leaves : List LeafAt}
    (hmirrors : Mirrors b items elements)
    (hjournal : Journals b.ctx journal steps leaves ((Clause.logic isOr elements).entries b.ctx)) :
    BuildsClause b steps (.logic isOr elements) leaves
      [(if isOr then "$or" else "$and", .arr items)] journal where
  keys := rfl
  andList := by
    intro v hv
    obtain ⟨-, rfl⟩ := Prod.mk.inj (mem_singleton.1 (Fields.mem_of_get? hv))
    exact ⟨items, rfl⟩
  meaning d := by rw [meetsFields_singleton, hmirrors.holds]
  journal := hjournal

/-- An object of clauses as an element of a logical operator. -/
lemma BuildsClauses.meets_iff {clauses : List Clause} {leaves : List LeafAt}
    (h : BuildsClauses b steps clauses leaves {} out journal) :
    Builder.objectOrEmpty (Builder.enclosed out) = .obj out.fields ∧
      ∀ d : Document, d.meetsFields out.fields ↔ Clause.HoldsAll (NaturalSat b.ctx d) clauses := by
  refine ⟨?_, fun d => ?_⟩
  · simp only [Builder.enclosed, h.whole]
    cases out.fields <;> rfl
  · rw [h.meaning]
    exact and_iff_right trivial

lemma buildLogic_elements {site : Site} {t : Trail} {elements : List Operand} {around : Enclosing}
    {built : Option Built} (hsite : t.site = site.child key) (hkey : key = "$and" ∨ key = "$or")
    (h : b.buildComponent t around (.array elements) = ⟨.ok built, journal⟩) :
    leaves b.ctx t (.array elements) = leavesAmong b.ctx t 0 elements ∧
      ∃ items, built = some (.value (.obj
          [(if t.site.key == "$or" then "$or" else "$and", .arr items)])) ∧
        b.buildElements t 0 elements = ⟨.ok items, journal⟩ := by
  have hsitekey : t.site.key = key := congrArg Site.key hsite
  have hop : t.site.matchOp? = MatchOp.ofKey? key := congrArg MatchOp.ofKey? hsitekey
  rw [leaves, holdsConditions, hop, hsitekey]
  rcases hkey with rfl | rfl
  · have hand : MatchOp.ofKey? "$and" = some .and := by decide
    simp only [Builder.buildComponent, hop, hand, bind_ok_iff] at h
    obtain ⟨items, m, n, hitems, h, rfl⟩ := h
    cases h
    exact ⟨rfl, items, rfl, by rw [append_nil]; exact hitems⟩
  · have hor : MatchOp.ofKey? "$or" = some .or := by decide
    simp only [Builder.buildComponent, hop, hor, bind_ok_iff] at h
    obtain ⟨items, m, n, hitems, h, rfl⟩ := h
    cases h
    exact ⟨rfl, items, rfl, by rw [append_nil]; exact hitems⟩

mutual

/-- **Building a condition** says what its clause does. -/
lemma buildComponent_clause (hindex : b.ctx.usesIndex = true) {trail : Trail}
    (htrail : trail ≠ []) (hclear : Clear trail.site) {key : String} {element index : Nat}
    {around : Enclosing} {built : Option Built} {journal : List Step} : (v : Operand) →
    Condition key v →
    (∀ leaf ∈ leaves b.ctx (trail.child b.ctx element index key v) v, Clean b leaf) →
    Faithful b.ctx journal (leaves b.ctx (trail.child b.ctx element index key v) v) →
    b.buildComponent (trail.child b.ctx element index key v) around v = ⟨.ok built, journal⟩ →
    ∃ fs, built = some (.value (.obj fs)) ∧ BuildsClause b (objectSteps trail element)
      (clauseOf b (trail.child b.ctx element index key v) v)
      (leaves b.ctx (trail.child b.ctx element index key v) v) fs journal
  | .simple w, hcondition, hclean, hfaithful, h => by
    rw [Condition] at hcondition
    obtain ⟨hkey, harr, hobj⟩ := hcondition
    exact buildLiteral_clause hindex (fieldTrail_child htrail hclear hkey element index _) harr hobj
      hclean hfaithful h
  | .expression cs, hcondition, hclean, hfaithful, h => by
    rw [Condition] at hcondition
    obtain ⟨hkey, hne, hnodup, hcs⟩ := hcondition
    exact buildOperators_clause hindex (fieldTrail_child htrail hclear hkey element index _) hne
      hnodup hcs hclean hfaithful h
  | .array elements, hcondition, hclean, hfaithful, h => by
    rw [Condition] at hcondition
    obtain ⟨hkey, -, hamong⟩ := hcondition
    have hsteps : ∀ p, objectSteps (trail.child b.ctx element index key (.array elements)) p =
        objectSteps trail element ++
          [if key = "$or" then .or elements.length else .and, .position p] :=
      fun p => objectSteps_logic htrail hkey element index p (.array elements)
    have hsite : (trail.child b.ctx element index key (.array elements)).site =
        trail.site.child key := site_child htrail element index key (.array elements)
    have hne : trail.child b.ctx element index key (.array elements) ≠ [] :=
      child_ne_nil htrail element index key (.array elements)
    generalize trail.child b.ctx element index key (.array elements) = t at *
    obtain ⟨hleaves, hbuild⟩ := buildLogic_elements hsite hkey h
    rw [hleaves] at hclean hfaithful ⊢
    obtain ⟨items, rfl, hitems⟩ := hbuild
    have hstep : ∀ p, objectSteps t p = objectSteps trail element ++
        [logicStep (t.site.key == "$or") elements.length, .position p] := by
      intro p
      rw [hsteps p, hsite]
      rcases hkey with rfl | rfl <;> rfl
    obtain ⟨hmirrors, hjournal⟩ := buildElements_clauses hindex hne
      (by rw [hsite]; exact hclear.child hkey) hstep elements hamong hclean hfaithful hitems
    refine ⟨_, rfl, .of_logic hmirrors ?_⟩
    rw [Clause.entries, length_clausesAmong]
    exact hjournal
  | .property _, hcondition, _, _, _ => False.elim hcondition
  | .variable _, hcondition, _, _, _ => False.elim hcondition
  | .raw _, hcondition, _, _, _ => False.elim hcondition

/-- **Building conditions** one after the other adds what their clauses say. -/
lemma buildChildren_clauses (hindex : b.ctx.usesIndex = true) {trail : Trail}
    (htrail : trail ≠ []) (hclear : Clear trail.site) {element index : Nat}
    {around out : Enclosing} {journal : List Step} (haround : around.replacement = none)
    (hnodup : (Fields.keys around.fields).Nodup) (hand : AndHoldsList around.fields) :
    (cs : Children) → ConditionsBelow cs →
    (∀ leaf ∈ leavesBelow b.ctx trail element index cs, Clean b leaf) →
    Faithful b.ctx journal (leavesBelow b.ctx trail element index cs) →
    b.buildChildren trail element index around cs = ⟨.ok out, journal⟩ →
    BuildsClauses b (objectSteps trail element) (clausesBelow b trail element index cs)
      (leavesBelow b.ctx trail element index cs) around out journal
  | [], _, _, _, h => by
    cases h
    exact ⟨haround, hnodup, hand, fun k hk => .inl hk, List.Subset.refl _,
      nofun, fun d => (and_iff_left trivial).symm, .nil b.ctx _⟩
  | (key, v) :: rest, hcs, hclean, hfaithful, h => by
    rw [ConditionsBelow] at hcs
    rw [leavesBelow] at hclean hfaithful ⊢
    rw [Builder.buildChildren, bind_ok_iff] at h
    obtain ⟨built, m, n, hfirst, hrest, rfl⟩ := h
    obtain ⟨fs, rfl, hclause⟩ := buildComponent_clause hindex htrail hclear v hcs.1
      (fun leaf hleaf => hclean leaf (mem_append_left _ hleaf))
      (hfaithful.mono (subset_append_left m n) (subset_append_left _ _)) hfirst
    have hstep := hclause.addBuilt haround hnodup hand
    have hrun := buildChildren_clauses hindex htrail hclear hstep.whole hstep.nodup hstep.andList
      rest hcs.2 (fun leaf hleaf => hclean leaf (mem_append_right _ hleaf))
      (hfaithful.mono (subset_append_right m n) (subset_append_right _ _)) hrest
    exact hstep.append hrun

/-- **Building the elements of a logical operator** mirrors their clauses. -/
lemma buildElements_clauses (hindex : b.ctx.usesIndex = true) {trail : Trail}
    (htrail : trail ≠ []) (hclear : Clear trail.site) {steps : List IndexStep} {s : IndexStep}
    (hsteps : ∀ p, objectSteps trail p = steps ++ [s, .position p]) {position : Nat}
    {items : List Json} {journal : List Step} : (elements : List Operand) →
    ConditionsAmong elements → (∀ leaf ∈ leavesAmong b.ctx trail position elements, Clean b leaf) →
    Faithful b.ctx journal (leavesAmong b.ctx trail position elements) →
    b.buildElements trail position elements = ⟨.ok items, journal⟩ →
    Mirrors b items (clausesAmong b trail position elements) ∧
      Journals b.ctx journal steps (leavesAmong b.ctx trail position elements)
        (Clause.entriesAmong b.ctx s position (clausesAmong b trail position elements))
  | [], _, _, _, h => by
    cases h
    exact ⟨.nil, .nil b.ctx steps⟩
  | .expression cs :: rest, hes, hclean, hfaithful, h => by
    rw [ConditionsAmong] at hes
    rw [leavesAmong] at hclean hfaithful ⊢
    rw [Builder.buildElements, bind_ok_iff] at h
    obtain ⟨out, m, n, hfirst, h, rfl⟩ := h
    rw [bind_ok_iff] at h
    obtain ⟨tail, m', n', hrest, h, rfl⟩ := h
    cases h
    rw [append_nil] at hfaithful ⊢
    have hnodup : (Fields.keys ({} : Enclosing).fields).Nodup := nodup_nil
    have hand : AndHoldsList ({} : Enclosing).fields := andHoldsList_nil
    have hbuilds := buildChildren_clauses hindex htrail hclear rfl hnodup hand cs hes.1.2.2
      (fun leaf hleaf => hclean leaf (mem_append_left _ hleaf))
      (hfaithful.mono (subset_append_left m m') (subset_append_left _ _)) hfirst
    obtain ⟨hmirrors, hjournal⟩ := buildElements_clauses hindex htrail hclear hsteps rest hes.2
      (fun leaf hleaf => hclean leaf (mem_append_right _ hleaf))
      (hfaithful.mono (subset_append_right m m') (subset_append_right _ _)) hrest
    obtain ⟨hobj, hmeets⟩ := hbuilds.meets_iff
    have hfirst := hbuilds.journal
    rw [hsteps] at hfirst
    exact ⟨.cons (fun d => by rw [hobj]; exact hmeets d) hmirrors, hfirst.under.append hjournal⟩
  | .array _ :: _, hes, _, _, _ => False.elim hes
  | .simple _ :: _, hes, _, _, _ => False.elim hes
  | .property _ :: _, hes, _, _, _ => False.elim hes
  | .variable _ :: _, hes, _, _, _ => False.elim hes
  | .raw _ :: _, hes, _, _, _ => False.elim hes

end

end Conduit.Match
