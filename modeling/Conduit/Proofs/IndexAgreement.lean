import Conduit.Proofs.MatchClauses
import Conduit.Schema.Load

/-!
# The index query in step with the native one

A match that can use an index is compiled into its index query, or into that and its native query
together.  The two say the same as long as what is entered for one leaf is not overwritten by what
is entered for another leaf or another node (`index_query_keeps_conditions`,
`index_query_keeps_documents`).

Neither holds without its condition: `exclusion_forgets_node` and `comparison_forgets_node`.
-/

namespace Conduit.Match

open List Journaled

open Json IndexEntries Document

/-! ## Following a journal -/

variable {i out : Indexing} {d : Document} {native : Fields} {journal : List Step}
  {notes : List Event}

lemma runSteps_complete (h : runSteps journal i = ⟨.ok out, notes⟩)
    (hcomplete : out.complete = true) : i.complete = true ∧ Step.incomplete ∉ journal := by
  induction journal generalizing i notes with
  | nil =>
    cases h
    exact ⟨hcomplete, not_mem_nil⟩
  | cons step rest ih =>
    cases step with
    | event e =>
      simp only [runSteps, bind_ok_iff] at h
      obtain ⟨_, _, _, -, hrest, -⟩ := h
      exact ⟨(ih hrest).1, by simpa using (ih hrest).2⟩
    | incomplete => exact absurd (ih h).1 Bool.false_ne_true
    | enter steps pairs path =>
      rw [runSteps] at h
      have hrest : ∃ i' : Indexing, i'.complete = i.complete ∧
          ∃ notes, runSteps rest i' = ⟨.ok out, notes⟩ := by
        split at h
        · rw [bind_ok_iff] at h
          obtain ⟨_, _, _, -, h, -⟩ := h
          split at h
          · next entries _ => exact ⟨⟨entries, i.complete⟩, rfl, _, h⟩
          · cases h
        · dsimp only at h
          split at h
          · next entries _ => exact ⟨⟨entries, i.complete⟩, rfl, _, h⟩
          · cases h
      obtain ⟨i', hsame, notes, hrest⟩ := hrest
      obtain ⟨hi, hnot⟩ := ih hrest
      exact ⟨hsame ▸ hi, by simpa using hnot⟩

/-- **Following the journal of a match** enters what the journal enters. -/
lemma runSteps_ok {entries : List Entry}
    (hentered : entered journal = entries.map fun e => (e.1, [e.2]))
    (h : runSteps journal i = ⟨.ok out, notes⟩) :
    enterAll i.entries.baseFind i.entries.root entries = some out.entries.root := by
  induction journal generalizing i entries notes with
  | nil =>
    cases h
    cases entries with
    | nil => rfl
    | cons e rest => cases hentered
  | cons step rest ih =>
    cases step with
    | event e =>
      simp only [runSteps, bind_ok_iff] at h
      obtain ⟨_, m, n, -, hrest, rfl⟩ := h
      exact ih hentered hrest
    | incomplete => exact ih (i := ⟨i.entries, false⟩) hentered h
    | enter steps pairs path =>
      cases entries with
      | nil => cases hentered
      | cons e more =>
        obtain ⟨hhead, htail⟩ := cons.inj hentered
        obtain ⟨hsteps, hpairs⟩ := Prod.mk.inj hhead
        subst hsteps hpairs
        have hone : ¬[e.2].length > 1 := by simp
        simp only [runSteps, if_neg hone] at h
        split at h
        · next entries' heq =>
          obtain ⟨hbase, hone⟩ := insert_ok (a := e.2) heq
          have hrun := ih htail h
          rw [hbase] at hrun
          rw [enterAll, foldlM_cons, hone]
          exact hrun
        · cases h

/-! ## The conditions of one object -/

/-- Conditions of one object, at a place that names no property, with leaves among `all`. -/
structure IsObject (b : Builder) (all : List LeafAt) (trail : Trail)
    (element index : Nat) (cs : Children) : Prop where
  ne_nil : trail ≠ []
  clear : Clear trail.site
  nodup : (cs.map Prod.fst).Nodup
  conditions : ConditionsBelow cs
  among : leavesBelow b.ctx trail element index cs ⊆ all

section

variable {b : Builder} {all : List LeafAt} {trail : Trail} {element index : Nat} {cs : Children}

variable {key : String} {v : Operand} {ctx : Context}

lemma condition_of_mem (h : ConditionsBelow cs) (hmem : (key, v) ∈ cs) : Condition key v := by
  induction cs with
  | nil => cases hmem
  | cons c rest ih =>
    rcases mem_cons.1 hmem with heq | hmem
    · cases heq
      exact h.1
    · exact ih h.2 hmem

lemma mem_clausesBelow {c : Clause} (h : c ∈ clausesBelow b trail element index cs) :
    ∃ i key v, (key, v) ∈ cs ∧ c = clauseOf b (trail.child b.ctx element i key v) v ∧
      leaves b.ctx (trail.child b.ctx element i key v) v ⊆
        leavesBelow b.ctx trail element index cs := by
  induction cs generalizing index with
  | nil => cases h
  | cons f rest ih =>
    obtain ⟨key, v⟩ := f
    rcases mem_cons.1 h with rfl | h
    · exact ⟨index, key, v, mem_cons_self, rfl, subset_append_left _ _⟩
    · obtain ⟨i, key', v', hmem, hc, hleaves⟩ := ih h
      exact ⟨i, key', v', mem_cons_of_mem _ hmem, hc,
        List.Subset.trans hleaves (subset_append_right _ _)⟩

lemma mem_clausesAmong {elements : List Operand} {p : Nat} {e : List Clause}
    (helements : ConditionsAmong elements) (h : e ∈ clausesAmong b trail p elements) :
    ∃ q cs, .expression cs ∈ elements ∧ e = clausesBelow b trail q 0 cs ∧
      cs ≠ [] ∧ (cs.map Prod.fst).Nodup ∧ ConditionsBelow cs ∧
      leavesBelow b.ctx trail q 0 cs ⊆ leavesAmong b.ctx trail p elements := by
  induction elements generalizing p with
  | nil => cases h
  | cons o rest ih =>
    cases o with
    | expression cs =>
      rcases mem_cons.1 h with rfl | h
      · exact ⟨p, cs, mem_cons_self, rfl, helements.1.1, helements.1.2.1, helements.1.2.2,
          subset_append_left _ _⟩
      · obtain ⟨q, cs', hmem, he, hne, hnodup, hconditions, hleaves⟩ := ih helements.2 h
        exact ⟨q, cs', mem_cons_of_mem _ hmem, he, hne, hnodup, hconditions,
          List.Subset.trans hleaves (subset_append_right _ _)⟩
    | _ => exact False.elim helements

lemma length_child (htrail : trail ≠ []) (element i : Nat) (key : String) (v : Operand) :
    (trail.child ctx element i key v).length = trail.length + 1 := by
  cases trail with
  | nil => exact absurd rfl htrail
  | cons f rest => rfl

/-- What is known of a field of an object: its leaves are entered under its key. -/
structure IsField (b : Builder) (all : List LeafAt) (depth : Nat) (key : String)
    (leaves : List LeafAt) : Prop where
  named : Path.isOperator key = false
  nonempty : leaves ≠ []
  apart : LeavesApart leaves
  leaf : ∀ leaf ∈ leaves, leaf ∈ all ∧ ShapedLeaf leaf
  field : ∃ field : Trail, field.length = depth + 1 ∧ b.indexKey field = key ∧
    ∀ leaf ∈ leaves, leaf.1.named = field

lemma shaped_of_mem_operators {field : Trail} (hfield : field ≠ [])
    (hcs : ∀ c ∈ cs, ∃ op, MatchOp.ofKey? c.1 = some op ∧ Compares op c.2) {i : Nat} :
    (leavesBelow ctx field 0 i cs).map (fun leaf => leaf.1.site.matchOp?) =
        cs.map (fun c => MatchOp.ofKey? c.1) ∧
      ∀ leaf ∈ leavesBelow ctx field 0 i cs, ShapedLeaf leaf := by
  induction cs generalizing i with
  | nil => exact ⟨rfl, nofun⟩
  | cons c rest ih =>
    obtain ⟨key, v⟩ := c
    obtain ⟨op, hkey, hcompares⟩ := hcs (key, v) mem_cons_self
    have hop : (field.child ctx 0 i key v).site.matchOp? = some op := by
      rw [site_child hfield]
      exact hkey
    obtain ⟨hops, hshaped⟩ := ih (fun x hx => hcs x (mem_cons_of_mem _ hx)) (i := i + 1)
    rw [leavesBelow, leaves_of_compares hop hcompares]
    refine ⟨?_, fun leaf hleaf => ?_⟩
    · rw [map_append, hops, map_singleton, hop, map_cons, hkey]
      rfl
    · rcases mem_append.1 hleaf with hleaf | hleaf
      · rw [mem_singleton.1 hleaf, ShapedLeaf, hop]
        exact hcompares
      · exact hshaped leaf hleaf

lemma ofKey?_nodup (hnodup : (cs.map Prod.fst).Nodup)
    (hcs : ∀ c ∈ cs, ∃ op, MatchOp.ofKey? c.1 = some op ∧ Compares op c.2) :
    (cs.map fun c => MatchOp.ofKey? c.1).Nodup := by
  have heq : cs.map (fun c => MatchOp.ofKey? c.1) = (cs.map Prod.fst).map MatchOp.ofKey? := by
    rw [map_map]
    rfl
  rw [heq]
  refine List.Nodup.map_on (fun k hk k' hk' hop => ?_) hnodup
  obtain ⟨c, hc, rfl⟩ := mem_map.1 hk
  obtain ⟨op, hkey, -⟩ := hcs c hc
  rw [← MatchOp.key_of_ofKey? hkey, MatchOp.key_of_ofKey? (hop.symm.trans hkey)]

lemma IsObject.field (h : IsObject b all trail element index cs) {leaves : List LeafAt}
    (hmem : .field key leaves ∈ clausesBelow b trail element index cs) :
    IsField b all trail.length key leaves := by
  obtain ⟨i, k, v, hv, hclause, hleaves⟩ := mem_clausesBelow hmem
  have hcondition := condition_of_mem h.conditions hv
  have hall := List.Subset.trans hleaves h.among
  cases v with
  | simple w =>
    have hfield := fieldTrail_child (b := b) h.ne_nil h.clear hcondition.1 element i (.simple w)
    have hclause : Clause.field key leaves = .field (b.indexKey _) [(_, .simple w)] := hclause
    rw [hfield.key, Clause.field.injEq] at hclause
    obtain ⟨rfl, rfl⟩ := hclause
    refine ⟨hfield.named, cons_ne_nil _ _, .inl ⟨_, rfl, hfield.noOp⟩, fun leaf hleaf => ?_,
      _, length_child h.ne_nil element i k _, hfield.key, fun leaf hleaf => ?_⟩
    · obtain rfl := mem_singleton.1 hleaf
      refine ⟨hall mem_cons_self, ?_⟩
      rw [ShapedLeaf, hfield.noOp]
      exact ⟨w, rfl, hcondition.2⟩
    · rw [mem_singleton.1 hleaf]
      exact hfield.self
  | expression ops =>
    obtain ⟨hkey, hne, hnodup, hops⟩ := hcondition
    have hfield := fieldTrail_child (b := b) h.ne_nil h.clear hkey element i (.expression ops)
    rw [clauseOf, hfield.key, Clause.field.injEq] at hclause
    obtain ⟨rfl, rfl⟩ := hclause
    obtain ⟨hmap, hshaped⟩ := @shaped_of_mem_operators ops b.ctx _ hfield.ne_nil hops 0
    refine ⟨hfield.named, ?_, .inr ⟨fun leaf hleaf => ?_, ?_⟩, fun leaf hleaf => ?_, _,
      length_child h.ne_nil element i k _, hfield.key,
      named_of_mem_operators hfield.ne_nil hfield.self hops⟩
    · intro hnil
      rw [hnil] at hmap
      exact hne (map_eq_nil_iff.1 hmap.symm)
    · have hop := mem_map_of_mem (f := fun leaf => leaf.1.site.matchOp?) hleaf
      rw [hmap] at hop
      obtain ⟨c, hc, heq⟩ := mem_map.1 hop
      obtain ⟨op, hkey, -⟩ := hops c hc
      rw [← heq, hkey]
      rfl
    · rw [hmap]
      exact ofKey?_nodup hnodup hops
    · exact ⟨hall hleaf, hshaped leaf hleaf⟩
  | array elements => cases hclause
  | _ => exact False.elim hcondition

lemma IsObject.logic (h : IsObject b all trail element index cs) {isOr : Bool}
    {elements : List (List Clause)}
    (hmem : .logic isOr elements ∈ clausesBelow b trail element index cs) :
    elements ≠ [] ∧ ∀ e ∈ elements, ∃ trail' p cs', e = clausesBelow b trail' p 0 cs' ∧ cs' ≠ [] ∧
      IsObject b all trail' p 0 cs' ∧ trail'.length = trail.length + 1 ∧
      sizeOf cs' < sizeOf cs := by
  obtain ⟨i, key, v, hv, hclause, hleaves⟩ := mem_clausesBelow hmem
  have hcondition := condition_of_mem h.conditions hv
  have hall := List.Subset.trans hleaves h.among
  have hsize := sizeOf_lt_of_mem hv
  cases v with
  | array os =>
    obtain ⟨hkey, hne, hamong⟩ := hcondition
    obtain ⟨-, rfl⟩ := hclause
    refine ⟨fun hnil => hne ?_, fun e he => ?_⟩
    · have hlength := congrArg length hnil
      rw [length_clausesAmong] at hlength
      exact length_eq_zero_iff.1 hlength
    · obtain ⟨q, cs', hmem', rfl, hne', hnodup, hconditions, hsub⟩ := mem_clausesAmong hamong he
      refine ⟨_, q, cs', rfl, hne', ⟨child_ne_nil h.ne_nil element i key _, ?_, hnodup, hconditions,
        List.Subset.trans hsub (List.Subset.trans ?_ hall)⟩,
        length_child h.ne_nil element i key _, ?_⟩
      · rw [site_child h.ne_nil]
        exact h.clear.child hkey
      · rw [leaves]
        exact subset_append_right _ _
      · have hsize' := sizeOf_lt_of_mem hmem'
        simp only [Operand.expression.sizeOf_spec, Operand.array.sizeOf_spec,
          Prod.mk.sizeOf_spec] at hsize hsize'
        omega
  | simple | expression => cases hclause
  | _ => exact False.elim hcondition

/-- **Induction over the objects of a match**, from the elements of logical operators up, with
the length of the way down. -/
lemma IsObject.induction {P : Nat → List Clause → Prop}
    (step : ∀ trail element index cs, IsObject b all trail element index cs →
      (∀ isOr elements, .logic isOr elements ∈ clausesBelow b trail element index cs →
        ∀ e ∈ elements, P (trail.length + 1) e) →
      P trail.length (clausesBelow b trail element index cs))
    {trail : Trail} {element index : Nat} {cs : Children}
    (h : IsObject b all trail element index cs) :
    P trail.length (clausesBelow b trail element index cs) := by
  refine step trail element index cs h fun isOr elements hmem e he => ?_
  obtain ⟨trail', p, cs', rfl, -, hobject, hdepth, hsize⟩ := (h.logic hmem).2 e he
  rw [← hdepth]
  exact IsObject.induction step hobject
termination_by sizeOf cs

/-! ## Keys apart -/

/-- The property path that a leaf compares. -/
def leafPath (leaf : LeafAt) : String := leaf.1.named.site.propertyPath

/-- The keys that a leaf may be entered under. -/
def leafKeys (leaf : LeafAt) : List String := [leafPath leaf, leafPath leaf ++ "._id"]

/-- Leaves whose entries are theirs alone: their nodes have neither locales nor slots, their keys
are neither slots nor the identifiers of other matched paths, and a base condition gives way at
the top only, to one leaf. -/
structure Separate (ctx : Context) (leaves : List LeafAt) : Prop where
  clean : ∀ leaf ∈ leaves, Clean ⟨ctx, []⟩ leaf
  slotless : ∀ leaf ∈ leaves, ∀ key ∈ leafKeys leaf, compoundSlot? key = none
  ids : ∀ leaf ∈ leaves, ∀ other ∈ leaves, leafPath other ≠ leafPath leaf ++ "._id"
  overrides : ∀ leaf ∈ leaves, ∀ key ∈ leafKeys leaf, Fields.contains ctx.baseFind key = true →
    leaf.1.named.length = 2 ∧ (leaves.filter fun other => leafPath other = leafPath leaf).length = 1

instance (b : Builder) (leaf : LeafAt) : Decidable (Clean b leaf) :=
  inferInstanceAs (Decidable (∀ id ∈ _, _))

instance (ctx : Context) (leaves : List LeafAt) : Decidable (Separate ctx leaves) :=
  decidable_of_iff (_ ∧ _ ∧ _ ∧ _)
    ⟨fun h => ⟨h.1, h.2.1, h.2.2.1, h.2.2.2⟩, fun h => ⟨h.clean, h.slotless, h.ids, h.overrides⟩⟩

lemma indexKey_named (leaf : LeafAt) : b.indexKey leaf.1.named ∈ leafKeys leaf := by
  unfold Builder.indexKey leafKeys leafPath
  split <;> simp

/-- The key of a field is one that each of its leaves may be entered under. -/
lemma IsField.key_mem {depth : Nat} {leaves : List LeafAt} (h : IsField b all depth key leaves)
    {leaf : LeafAt} (hleaf : leaf ∈ leaves) : key ∈ leafKeys leaf := by
  obtain ⟨field, -, hkey, hnamed⟩ := h.field
  have hmem := indexKey_named (b := b) leaf
  rwa [hnamed leaf hleaf, hkey] at hmem

lemma LeavesApart.nodup {leaves : List LeafAt} (h : LeavesApart leaves) : leaves.Nodup := by
  rcases h with ⟨leaf, rfl, -⟩ | ⟨-, hops⟩
  · exact nodup_singleton leaf
  · exact .of_map _ hops

variable (h : IsObject b all trail element index cs)

include h

/-- The key of a clause is that of its condition, or for a field perhaps its identifier. -/
lemma IsObject.key_cases {i : Nat}
    (hv : (key, v) ∈ cs) (hleaves : leaves b.ctx (trail.child b.ctx element i key v) v ⊆ all) :
    let clause := clauseOf b (trail.child b.ctx element i key v) v
    Path.isOperator key = true ∧ clause.key = key ∨
      Path.isOperator key = false ∧ (clause.key = key ∨ clause.key = key ++ "._id") ∧
        ∃ leaf ∈ all, leafPath leaf = key := by
  have hcondition := condition_of_mem h.conditions hv
  have hsite : (trail.child b.ctx element i key v).site = trail.site.child key :=
    site_child h.ne_nil element i key v
  have hbuild : b.buildKey (trail.child b.ctx element i key v) = key ∨
      b.buildKey (trail.child b.ctx element i key v) = key ++ "._id" := by
    unfold Builder.buildKey
    rw [hsite]
    split
    · exact .inr rfl
    · exact .inl rfl
  have hpath : Path.property key = key →
      (trail.child b.ctx element i key v).site.propertyPath = key := fun hkey => by
    rw [hsite, propertyPath_child h.clear, hkey]
  cases v with
  | simple w =>
    have hfield := fieldTrail_child (b := b) h.ne_nil h.clear hcondition.1 element i (.simple w)
    refine .inr ⟨hcondition.1.1, ?_, _, hleaves mem_cons_self, ?_⟩
    · rw [← hfield.key] at hbuild
      exact hbuild
    · rw [leafPath, hfield.self, hpath hcondition.1.2]
  | expression ops =>
    obtain ⟨hkey, hne, -, hops⟩ := hcondition
    have hfield := fieldTrail_child (b := b) h.ne_nil h.clear hkey element i (.expression ops)
    obtain ⟨c, rest, rfl⟩ := exists_cons_of_ne_nil hne
    obtain ⟨op, hop, hcompares⟩ := hops c mem_cons_self
    have hmem : (Trail.child b.ctx (trail.child b.ctx element i key (.expression (c :: rest))) 0 0 c.1
        c.2, c.2) ∈ leaves b.ctx (trail.child b.ctx element i key (.expression (c :: rest)))
        (.expression (c :: rest)) := by
      rw [leaves, leavesBelow, leaves_of_compares (by rw [site_child hfield.ne_nil]; exact hop) hcompares]
      exact mem_cons_self
    refine .inr ⟨hkey.1, ?_, _, hleaves hmem, ?_⟩
    · rw [clauseOf, Clause.key, hfield.key]
      exact hbuild
    · rw [leafPath, named_of_mem_operators hfield.ne_nil hfield.self hops _ hmem, hpath hkey.2]
  | array elements =>
    refine .inl ⟨?_, ?_⟩
    · rcases hcondition.1 with rfl | rfl <;> exact isOperator_of_mem_treeKeys (by simp [treeKeys])
    · rw [clauseOf, Clause.key, hsite]
      rcases hcondition.1 with rfl | rfl <;> rfl
  | _ => exact False.elim hcondition

/-- **The clauses of an object stand under different keys.** -/
lemma IsObject.keys_nodup
    (hids : ∀ leaf ∈ all, ∀ other ∈ all, leafPath other ≠ leafPath leaf ++ "._id") :
    ((clausesBelow b trail element index cs).map Clause.key).Nodup := by
  induction cs generalizing index with
  | nil => exact nodup_nil
  | cons f rest ih =>
    obtain ⟨key, v⟩ := f
    have hnodup := nodup_cons.1 h.nodup
    have hsub := h.among
    have hrest : IsObject b all trail element (index + 1) rest :=
      ⟨h.ne_nil, h.clear, hnodup.2, h.conditions.2,
        List.Subset.trans (subset_append_right _ _) hsub⟩
    rw [clausesBelow, map_cons, nodup_cons]
    refine ⟨fun hmem => ?_, ih hrest⟩
    obtain ⟨c, hc, heq⟩ := mem_map.1 hmem
    obtain ⟨i, key', v', hv', rfl, hleaves'⟩ := mem_clausesBelow hc
    have hne : key' ≠ key := by
      rintro rfl
      exact hnodup.1 (mem_map.2 ⟨(key', v'), hv', rfl⟩)
    have hfirst := h.key_cases mem_cons_self (List.Subset.trans (subset_append_left _ _) hsub)
    have hother := hrest.key_cases hv' (List.Subset.trans hleaves' hrest.among)
    dsimp only at hfirst hother
    rw [heq] at hother
    -- an operator never equals a field or an identifier, and neither do the others
    have hmixed : ∀ {k l : String}, Path.isOperator k = true → Path.isOperator l = false →
        k ≠ l ∧ k ≠ l ++ "._id" := by
      intro k l hk hl
      refine ⟨fun heq => ?_, fun heq => ?_⟩
      · rw [heq, hl] at hk
        cases hk
      · rw [heq, isOperator_append hl] at hk
        cases hk
    rcases hfirst with ⟨hop, hkey⟩ | ⟨hop, hkey, leaf, hleaf, hpath⟩ <;>
      rcases hother with ⟨hop', hkey'⟩ | ⟨hop', hkey', leaf', hleaf', hpath'⟩
    · exact hne (hkey'.symm.trans hkey)
    · rw [hkey] at hkey'
      exact hkey'.elim (hmixed hop hop').1 (hmixed hop hop').2
    · rw [hkey'] at hkey
      exact hkey.elim (hmixed hop' hop).1 (hmixed hop' hop).2
    · have hid := hids leaf hleaf leaf' hleaf'
      have hid' := hids leaf' hleaf' leaf hleaf
      rw [hpath, hpath'] at hid hid'
      rcases hkey with hkey | hkey <;> rcases hkey' with hkey' | hkey' <;> rw [hkey] at hkey'
      · exact hne hkey'.symm
      · exact hid' hkey'
      · exact hid hkey'.symm
      · exact hne (String.append_left_inj _ |>.1 hkey').symm

/-! ## The clauses of a match -/

/-- **The clauses of separate leaves never meet in the index query**, once each leaf is settled. -/
lemma IsObject.sound (hseparate : Separate b.ctx all)
    (hsettled : ∀ leaf ∈ all, ShapedLeaf leaf → Settled b.ctx leaf) :
    Sound b.ctx b.ctx.baseFind (trail.length == 1) (clausesBelow b trail element index cs) := by
  refine IsObject.induction (P := fun depth => Sound b.ctx b.ctx.baseFind (depth == 1)) ?_ h
  intro trail element index cs hobject ih
  refine .mk ?_ (fun key leaves hmem => ?_) fun isOr elements hmem e he => ?_
  · exact (hobject.keys_nodup hseparate.ids).sublist (filter_sublist.map Clause.key)
  · have hfield := hobject.field hmem
    obtain ⟨field, hlength, -, hnamed⟩ := hfield.field
    obtain ⟨leaf, hleaf⟩ := exists_mem_of_ne_nil _ hfield.nonempty
    have hall := (hfield.leaf leaf hleaf).1
    have hkeys := hfield.key_mem hleaf
    refine ⟨hfield.named, hseparate.slotless leaf hall key hkeys, fun leaf hleaf => ?_, hfield.apart,
      fun hbase => ?_⟩
    · obtain ⟨hall, hshaped⟩ := hfield.leaf leaf hleaf
      exact hsettled leaf hall hshaped
    · obtain ⟨htop, halone⟩ := hseparate.overrides leaf hall key hkeys hbase
      rw [hnamed leaf hleaf, hlength] at htop
      refine ⟨by simpa using htop, ?_⟩
      have hsame : leaves ⊆ all.filter fun other => leafPath other = leafPath leaf := by
        intro other hother
        refine mem_filter.2 ⟨(hfield.leaf other hother).1, decide_eq_true ?_⟩
        rw [leafPath, leafPath, hnamed other hother, hnamed leaf hleaf]
      have hle := (hfield.apart.nodup.subperm hsame).length_le
      have hpos := length_pos_of_ne_nil hfield.nonempty
      omega
  · have hdepth : (trail.length + 1 == 1) = false := by
      have hpos := length_pos_of_ne_nil hobject.ne_nil
      rw [beq_eq_false_iff_ne]
      omega
    rw [← hdepth]
    exact ih isOr elements hmem e he

lemma IsObject.full (hcasts : ∀ leaf ∈ all, leafCasts b.ctx leaf ≠ []) :
    Full b.ctx (clausesBelow b trail element index cs) := by
  refine IsObject.induction (P := fun _ => Full b.ctx) (fun trail element index cs hobject ih => ?_) h
  refine .mk (fun key leaves hmem => ?_) (fun isOr elements hmem => ?_) ih
  · have hfield := hobject.field hmem
    exact ⟨hfield.nonempty, fun leaf hleaf => hcasts leaf (hfield.leaf leaf hleaf).1⟩
  · obtain ⟨hne, helements⟩ := hobject.logic hmem
    refine ⟨hne, fun e he => ?_⟩
    obtain ⟨trail', p, cs', rfl, hcs, -⟩ := helements e he
    obtain ⟨c, rest, rfl⟩ := exists_cons_of_ne_nil hcs
    exact cons_ne_nil _ _

/-- Clauses hold in one sense if they do in another that says more of each leaf. -/
lemma IsObject.holds_mono {sat sat' : String → Trail × Operand → Prop}
    (hsat : ∀ key, ∀ leaf ∈ all, ShapedLeaf leaf → sat key leaf → sat' key leaf) :
    Clause.HoldsAll sat (clausesBelow b trail element index cs) →
      Clause.HoldsAll sat' (clausesBelow b trail element index cs) := by
  refine IsObject.induction (P := fun _ cs => Clause.HoldsAll sat cs → Clause.HoldsAll sat' cs)
    (fun trail element index cs hobject ih hholds => ?_) h
  rw [Clause.holdsAll_iff] at hholds ⊢
  intro c hc
  have hclause := hholds c hc
  cases c with
  | field key leaves =>
    intro leaf hleaf
    obtain ⟨hall, hshaped⟩ := (hobject.field hc).leaf leaf hleaf
    exact hsat key leaf hall hshaped (hclause leaf hleaf)
  | logic isOr elements =>
    cases isOr with
    | false =>
      rw [Clause.holds_and] at hclause ⊢
      exact fun e he => ih false elements hc e he (hclause e he)
    | true =>
      rw [Clause.holds_or] at hclause ⊢
      obtain ⟨e, he, hall⟩ := hclause
      exact ⟨e, he, ih true elements hc e he hall⟩

end

/-! ## What is compiled -/

/-- The query of a match: the native one, the index query, or both. -/
def emitted (native : Fields) (i : Indexing) : Json :=
  match i.entries.finish with
  | none => .obj native
  | some index =>
    if index.hasBranches || index.slotted || index.pruned || !i.complete then
      single "$and" (.arr [.obj native, .obj index.query])
    else .obj index.query

/-- Where the native query was left out, the index query is complete and was not pruned. -/
lemma native_or_index_of_emitted (h : d.meets (emitted native i)) :
    d.meetsFields native ∨ ∃ index, i.entries.finish = some index ∧ index.pruned = false ∧
      i.complete = true ∧ d.meetsFields index.query := by
  unfold emitted at h
  cases hfinish : i.entries.finish with
  | none =>
    rw [hfinish] at h
    exact .inl h
  | some index =>
    simp only [hfinish] at h
    split at h
    · have hboth := meetsKey_and.1 (meetsFields_singleton.1 h)
      exact .inl (hboth _ mem_cons_self)
    · next hbare =>
      simp only [Bool.or_eq_true, not_or, Bool.not_eq_true, Bool.not_eq_false'] at hbare
      exact .inr ⟨index, rfl, hbare.1.2, hbare.2, h⟩

lemma emitted_of_both (hnative : d.meetsFields native)
    (hindex : ∀ index, i.entries.finish = some index → d.meetsFields index.query) :
    d.meets (emitted native i) := by
  unfold emitted
  split
  · exact hnative
  · next index hfinish =>
    split
    · refine meetsFields_singleton.2 (meetsKey_and.2 fun q hq => ?_)
      rcases mem_cons.1 hq with rfl | hq
      · exact hnative
      · rw [mem_singleton.1 hq]
        exact hindex index hfinish
    · exact hindex index hfinish

section

variable {ctx : Context} {value : Json} {v : Operand} {out : StageOutput} {notes : List Event}

lemma build_ok {root : Trail} {findings : Findings} {query : Json}
    (h : build ctx root v findings = ⟨.ok query, notes⟩) : ∃ natural journal indexing events,
      Builder.buildNatural ⟨ctx, findings.references⟩ root v = ⟨.ok natural, journal⟩ ∧
      runSteps journal { entries := .new ctx.baseFind } = ⟨.ok indexing, events⟩ ∧
      query = emitted (Fields.seed ctx.baseFind natural) indexing ∧
      (checkNativeIndexes ctx findings.checks query).result = .ok () := by
  simp only [build, bind_ok_iff, of_eq] at h
  obtain ⟨indexing, m, n, hrun, ⟨natural, m', n', hnatural, h, rfl⟩, rfl⟩ := h
  injection hnatural with hresult _
  refine ⟨natural, _, indexing, m, eq_ok_of_result hresult, hrun, ?_⟩
  -- whichever query is checked is the one returned
  have hchecked : ∀ {q : Json} {notes : List Event}, (do
      let query ← pure q
      checkNativeIndexes ctx findings.checks query
      pure query) = (⟨.ok query, notes⟩ : Compile Json) →
        query = q ∧ (checkNativeIndexes ctx findings.checks query).result = .ok () := by
    intro q notes h
    simp only [bind_ok_iff] at h
    obtain ⟨q', m, n, hq, ⟨_, _, _, hcheck, hreturn, -⟩, -⟩ := h
    cases hq
    cases hreturn
    exact ⟨rfl, congrArg result hcheck⟩
  unfold emitted Fields.seed
  cases hfinish : indexing.entries.finish with
  | none =>
    rw [hfinish] at h
    exact hchecked h
  | some index =>
    simp only [hfinish, bind_ok_iff (x := note _)] at h
    obtain ⟨_, _, _, -, h, -⟩ := h
    dsimp only
    split at h
    · next hboth =>
      rw [if_pos hboth]
      exact hchecked h
    · next hboth =>
      rw [if_neg hboth]
      exact hchecked h

/-- The native query of a match: what it is built into, and the base conditions that it lacks. -/
def nativeQuery (ctx : Context) (value : Json) : Option Fields :=
  match parse ctx value with
  | .ok v =>
    match (validate ctx (Trail.root ctx v) v).result with
    | .ok findings =>
      match (Builder.buildNatural ⟨ctx, findings.references⟩ (Trail.root ctx v) v).result with
      | .ok fs => some (Fields.seed ctx.baseFind fs)
      | .error _ => none
    | .error _ => none
  | .error _ => none

lemma compile_queries (hparse : parse ctx value = .ok v)
    (h : compile ctx value = ⟨.ok out, notes⟩) : ∃ findings natural journal indexing events,
      (validate ctx (Trail.root ctx v) v).result = .ok findings ∧
      Builder.buildNatural ⟨ctx, findings.references⟩ (Trail.root ctx v) v =
        ⟨.ok natural, journal⟩ ∧
      runSteps journal { entries := .new ctx.baseFind } = ⟨.ok indexing, events⟩ ∧
      nativeQuery ctx value = some (Fields.seed ctx.baseFind natural) ∧
      out.json = single "$match" (emitted (Fields.seed ctx.baseFind natural) indexing) := by
  unfold compile at h
  rw [hparse, bind_ok_iff] at h
  obtain ⟨_, m, n, hv, h, rfl⟩ := h
  cases hv
  simp only [Trail.root, bind_ok_iff] at h
  obtain ⟨models, _, _, -, ⟨properties, _, _, -, ⟨findings, m', n', hfindings, ⟨query, m'', n'',
    hquery, hout, rfl⟩, rfl⟩, rfl⟩, rfl⟩ := h
  cases hout
  obtain ⟨natural, journal, indexing, events, hnatural, hrun, rfl, -⟩ := build_ok hquery
  have hroot : (validate ctx (Trail.root ctx v) v).result = .ok findings :=
    congrArg result hfindings
  refine ⟨findings, natural, journal, indexing, events, hroot, hnatural, hrun, ?_, rfl⟩
  have hbuilt : (Builder.buildNatural ⟨ctx, findings.references⟩ (Trail.root ctx v) v).result =
      .ok natural := congrArg result hnatural
  simp only [nativeQuery, hparse, hroot, hbuilt]

/-! ## The clauses of a compiled match -/

/-- The leaves of a match. -/
def rootLeaves (ctx : Context) (v : Operand) : List LeafAt :=
  leavesBelow ctx (Trail.root ctx v) 0 0 v.children

lemma clear_root (ctx : Context) (v : Operand) : Clear (Trail.root ctx v).site := .inl rfl

variable {b : Builder} {journal : List Step} {cs : Children} {base : Fields} {clauses : List Clause}
  {leaves : List LeafAt}

lemma buildNatural_clauses {natural : Fields} (hindex : b.ctx.usesIndex = true)
    (hconditions : ConditionsBelow cs)
    (hclean : ∀ leaf ∈ rootLeaves b.ctx (.expression cs), Clean b leaf)
    (hfaithful : Faithful b.ctx journal (rootLeaves b.ctx (.expression cs)))
    (h : b.buildNatural (Trail.root b.ctx (.expression cs)) (.expression cs) = ⟨.ok natural, journal⟩) :
    ∃ out : Enclosing, natural = out.fields ∧
      BuildsClauses b [] (clausesBelow b (Trail.root b.ctx (.expression cs)) 0 0 cs)
        (rootLeaves b.ctx (.expression cs)) {} out journal := by
  simp only [Builder.buildNatural, bind_ok_iff] at h
  obtain ⟨out, m, n, hchildren, hreturn, rfl⟩ := h
  cases hreturn
  rw [append_nil] at hfaithful ⊢
  have hnodup : (Fields.keys ({} : Enclosing).fields).Nodup := nodup_nil
  have hand : AndHoldsList ({} : Enclosing).fields := andHoldsList_nil
  have hbuilds := buildChildren_clauses hindex (root_ne_nil b.ctx _) (clear_root _ _) rfl hnodup
    hand cs hconditions hclean hfaithful hchildren
  refine ⟨out, ?_, hbuilds⟩
  rw [hbuilds.meets_iff.1]
  rfl

/-- What was built is what the index query was entered from. -/
lemma enterAll_of_builds {start out : Enclosing}
    {indexing : Indexing} (hbuilds : BuildsClauses b [] clauses leaves start out journal)
    (h : runSteps journal { entries := .new base } = ⟨.ok indexing, notes⟩) :
    enterAll base [] (Clause.entriesAll b.ctx clauses) = some indexing.entries.root :=
  runSteps_ok hbuilds.journal.entered h

/-- No base condition gives way in the native query if no leaf has its key. -/
lemma BuildsClauses.get?_base {all : List LeafAt} {trail : Trail}
    {element index : Nat} {out : Enclosing}
    (hbuilds : BuildsClauses b [] (clausesBelow b trail element index cs) leaves {} out journal)
    (hbase : SoundBase base) (hobject : IsObject b all trail element index cs)
    (hfree : ∀ leaf ∈ all, ∀ key ∈ leafKeys leaf, Fields.contains base key = false) {k : String}
    {w : Json} (hw : Fields.get? base k = some w) : Fields.get? out.fields k = none := by
  have hnamed := hbase.named _ (Fields.mem_of_get? hw)
  refine Fields.get?_eq_none_iff.2 fun hk => ?_
  rcases hbuilds.keys k hk with hk | rfl | ⟨c, hc, rfl⟩
  · cases hk
  · exact ne_of_named hnamed (by simp [treeKeys]) rfl
  · cases c with
    | field key leaves =>
      have hfield := hobject.field hc
      obtain ⟨leaf, hleaf⟩ := exists_mem_of_ne_nil _ hfield.nonempty
      have hnone := hfree leaf (hfield.leaf leaf hleaf).1 key (hfield.key_mem hleaf)
      cases (Fields.contains_eq_false_iff.1 hnone).symm.trans hw
    | logic isOr elements =>
      refine ne_of_named hnamed (k := Clause.key (.logic isOr elements)) ?_ rfl
      cases isOr <;> simp [Clause.key, treeKeys]

lemma finish_clauses {top : Bool} {e : IndexEntries} (hsound : Sound ctx base top clauses)
    (hrun : Run base [] (Clause.entriesAll ctx clauses) e.root) :
    ∃ query, (prune (.obj e.root)).1 = .obj query ∧ e.finish =
      if query = [] then none
      else some ⟨query, false, hasSlotKeys (.obj query), (prune (.obj e.root)).2⟩ := by
  have hmarker : marker ∈ treeKeys := by simp [treeKeys]
  have hfree : ∀ {v}, mentions treeKeys v = false → mentions [marker] v = false :=
    fun {v} hv => mentions_mono (cons_subset.2 ⟨hmarker, nil_subset _⟩) v hv
  refine finish_eq (mentions_enterAll hrun.slotless (fun x hx => ?_) ?_ rfl hrun.enters)
  · obtain ⟨hnamed, -, hv⟩ := entries_sound hsound x hx
    exact ⟨ne_of_named hnamed hmarker, hfree hv⟩
  · refine mentions_obj.2 fun f hf => ⟨?_, hfree (hrun.sound.free f hf)⟩
    rw [mem_singleton]
    exact ne_of_named (hrun.sound.named f hf) hmarker

lemma isObject_root (b : Builder) (hnodup : (cs.map Prod.fst).Nodup)
    (hconditions : ConditionsBelow cs) :
    IsObject b (rootLeaves b.ctx (.expression cs)) (Trail.root b.ctx (.expression cs)) 0 0 cs :=
  ⟨root_ne_nil b.ctx _, clear_root _ _, hnodup, hconditions, List.Subset.refl _⟩

end

/-! ## A schema of two types -/

instance (base : Fields) : Decidable (SoundBase base) :=
  decidable_of_iff (_ ∧ _ ∧ _) ⟨fun h => ⟨h.1, h.2.1, h.2.2⟩, fun h => ⟨h.nodup, h.named, h.free⟩⟩

instance (ctx : Context) (leaf : LeafAt) : Decidable (LastCovers ctx leaf) :=
  inferInstanceAs (Decidable (∀ last ∈ _, ∀ casts ∈ _, _))

/-- A schema whose tags are strings for cats and numbers for dogs. -/
def tagSchema : Json :=
  .obj [("objects", .arr [.obj [("name", .str "c_pet"), ("properties", .arr [
      .obj [("name", .str "c_org"), ("type", .str "Number"), ("nativeIndex", .bool true)]]),
    ("types", .arr [ .obj [("name", .str "c_cat"), ("properties", .arr [
        .obj [("name", .str "c_tag"), ("type", .str "String"), ("nativeIndex", .bool true)]])],
      .obj [("name", .str "c_dog"), ("properties", .arr [
        .obj [("name", .str "c_tag"), ("type", .str "Number"), ("nativeIndex", .bool true)]])]])]])]

def tagCatalog : Catalog := ((Catalog.load tagSchema).toOption).getD {}

/-- A match at the start of a pipeline over that schema. -/
def tagContext (baseFind : Fields) : Context where
  catalog := tagCatalog
  options := { object := "c_pet", baseFind, allowedRestrictedOps := ["*"] }
  indexes := fun _ => []
  kind := .match
  models := ((tagCatalog.objectModels "c_pet").toOption).getD []
  usesIndex := true

/-- A comparison of the tag. -/
def tagMatch (op : String) (v : Json) : Json := .obj [("c_tag", .obj [(op, v)])]

/-- Alternatives on the tag, which may leave its type open. -/
def tagChoices : String × Json :=
  ("$or", .arr [.obj [("c_tag", .obj [("$nin", .arr [.null])])],
    .obj [("type", .str "c_cat"), ("c_tag", .obj [("$exists", .bool true), ("$ne", .null)])]])

/-! ## Agreement -/

section

variable {ctx : Context} {value : Json} {v : Operand} {out : StageOutput} {notes : List Event}

/-- **The query of a match loses no condition of its native one**, base conditions included, if
every path has nodes and the last node of a `$nin` covers the others. -/
theorem index_query_keeps_conditions (hindex : ctx.usesIndex = true)
    (hvars : ctx.options.withVariables = false) (hbase : SoundBase ctx.baseFind)
    (hparse : parse ctx value = .ok v) (hkeys : v.distinctKeys = true)
    (hplain : v.uses elementKeys = false) (hseparate : Separate ctx (rootLeaves ctx v))
    (hnodes : ∀ leaf ∈ rootLeaves ctx v, trailNodes leaf.1 ≠ [])
    (hexcludes : ∀ leaf ∈ rootLeaves ctx v,
      leaf.1.site.matchOp? = some .noneOf → LastCovers ctx leaf)
    (h : compile ctx value = ⟨.ok out, notes⟩) :
    ∃ native query, nativeQuery ctx value = some native ∧ out.json = single "$match" query ∧
      ∀ d : Document, d.meets query → d.meetsFields native := by
  obtain ⟨cs, rfl, hne, hnodup, hconditions⟩ := parse_conditions hvars hparse hkeys hplain
  obtain ⟨findings, natural, journal, indexing, events, -, hnatural, hrun, hnative, hjson⟩ :=
    compile_queries hparse h
  refine ⟨_, _, hnative, hjson, fun d hmeets => ?_⟩
  rcases native_or_index_of_emitted hmeets with hmeets | ⟨index, hfinish, hunpruned, hcomplete,
    hmeets⟩
  · exact hmeets
  have hnot := (runSteps_complete hrun hcomplete).2
  obtain ⟨out', rfl, hbuilds⟩ :=
    buildNatural_clauses hindex hconditions hseparate.clean (.inl hnot) hnatural
  have huniform : ∀ leaf ∈ rootLeaves ctx (.expression cs), ShapedLeaf leaf →
      isSingle leaf = true → Uniform ctx leaf := fun leaf hleaf hshaped hsingle =>
    hbuilds.journal.uniform hleaf hshaped hsingle (.inl hnot)
  have hcasts : ∀ leaf ∈ rootLeaves ctx (.expression cs), leafCasts ctx leaf ≠ [] := by
    intro leaf hleaf
    rw [leafCasts, if_pos (hbuilds.journal.complete hnot leaf hleaf).1]
    exact fun hnil => hnodes leaf hleaf (map_eq_nil_iff.1 hnil)
  have hobject := isObject_root ⟨ctx, findings.references⟩ hnodup hconditions
  have hsound : Sound ctx ctx.baseFind true _ := hobject.sound hseparate
    fun leaf hleaf hshaped => settled_of_uniform hshaped (huniform leaf hleaf hshaped)
  have hfull := hobject.full hcasts
  have hentered := hsound.run hbase (.inl rfl) (enterAll_of_builds hbuilds hrun)
  obtain ⟨query, hpruned, hquery⟩ := finish_clauses hsound hentered
  rw [hquery] at hfinish
  split at hfinish
  · cases hfinish
  cases hfinish
  have hmeets : d.meets (.obj query) := hmeets
  rw [← hpruned] at hmeets
  have hclauses : Clause.HoldsAll (IndexSat ctx d) _ :=
    clauses_of_meets hsound hfull hentered hunpruned hmeets
  refine (meetsFields_seed hbuilds.nodup).2 ⟨(hbuilds.meets_iff.2 d).2 ?_, fun k w hk hw => ?_⟩
  · refine hobject.holds_mono (fun key leaf hleaf hshaped hsat => ?_) hclauses
    exact naturalSat_of_indexSat hshaped (huniform leaf hleaf hshaped)
      (hexcludes leaf hleaf) (hcasts leaf hleaf) hsat
  · refine base_of_meets hsound hfull ?_ hentered hunpruned hmeets hw fun leaves hmem => ?_
    · obtain ⟨c, rest, rfl⟩ := exists_cons_of_ne_nil hne
      exact cons_ne_nil _ _
    · -- a field that takes the place of a base condition is in the native query
      exact Fields.get?_eq_none_iff.1 hk (hbuilds.covered _ hmem)

/-- A match of a base condition and alternatives on both types keeps its conditions. -/
theorem tag_choices_keep_conditions :
    let ctx := tagContext [("c_org", .int 3)]
    let value := .obj [("c_org", .obj [("$gte", .int 1)]), tagChoices]
    ∃ out notes, compile ctx value = ⟨.ok out, notes⟩ ∧
      ∃ native query, nativeQuery ctx value = some native ∧ out.json = single "$match" query ∧
        ∀ d : Document, d.meets query → d.meetsFields native := by
  intro ctx value
  obtain ⟨out, hresult⟩ : ∃ out, (compile ctx value).result = .ok out :=
    exists_eq_ok (by decide +kernel)
  obtain ⟨v, hparse, hkeys, hplain, hseparate, hnodes, hexcludes⟩ : ∃ v, parse ctx value = .ok v ∧
      v.distinctKeys = true ∧ v.uses elementKeys = false ∧ Separate ctx (rootLeaves ctx v) ∧
      (∀ leaf ∈ rootLeaves ctx v, trailNodes leaf.1 ≠ []) ∧ ∀ leaf ∈ rootLeaves ctx v,
        leaf.1.site.matchOp? = some .noneOf → LastCovers ctx leaf :=
    exists_eq_ok_and (by decide +kernel)
  have hcompile := eq_ok_of_result hresult
  exact ⟨out, _, hcompile, index_query_keeps_conditions rfl rfl (by decide +kernel) hparse hkeys
    hplain hseparate hnodes hexcludes hcompile⟩

/-- The values that are text. -/
def textDocument (text : String) : Document where
  values := fun _ => {.str text}
  test := fun _ arg vs => arg ∈ vs

/-- What a `$nin` excludes for cats is forgotten once dogs read the same list as numbers. -/
theorem exclusion_forgets_node :
    let ctx := tagContext []
    let value := tagMatch "$nin" (.arr [.str "1", .int 1])
    ∃ out native query, (compile ctx value).result = .ok out ∧
      nativeQuery ctx value = some native ∧ out.json = single "$match" query ∧
      ∃ d : Document, d.meets query ∧ ¬d.meetsFields native := by
  intro ctx value
  obtain ⟨out, hresult, hjson⟩ : ∃ out, (compile ctx value).result = .ok out ∧
      out.json = single "$match" (tagMatch "$nin" (.arr [.int 1, .int 1])) :=
    exists_eq_ok_and (by decide +kernel)
  have hnative : nativeQuery ctx value =
      some [("c_tag", .obj [("$nin", .arr [.str "1", .int 1])])] := by
    decide +kernel
  have hop : holdsOperators [("$nin", .arr [.int 1, .int 1])] = true := rfl
  have hop' : holdsOperators [("$nin", .arr [.str "1", .int 1])] = true := rfl
  refine ⟨out, _, _, hresult, hnative, hjson, textDocument "1", ?_, ?_⟩
  · simp [tagMatch, meets, meetsFields, meetsKey, meetsValue, hop, meetsOperator, textDocument]
  · simp [meetsFields, meetsKey, meetsValue, hop', meetsOperator, textDocument]

/-- **The query of a match loses no document of its native one**, if no path is a base condition
and the last node of each leaf but `$nin` covers the others. -/
theorem index_query_keeps_documents (hindex : ctx.usesIndex = true)
    (hvars : ctx.options.withVariables = false) (hbase : SoundBase ctx.baseFind)
    (hparse : parse ctx value = .ok v) (hkeys : v.distinctKeys = true)
    (hplain : v.uses elementKeys = false) (hseparate : Separate ctx (rootLeaves ctx v))
    (hfree : ∀ leaf ∈ rootLeaves ctx v, ∀ key ∈ leafKeys leaf,
      Fields.contains ctx.baseFind key = false)
    (hcovers : ∀ leaf ∈ rootLeaves ctx v, leaf.1.site.matchOp? ≠ some .noneOf → LastCovers ctx leaf)
    (h : compile ctx value = ⟨.ok out, notes⟩) :
    ∃ native query, nativeQuery ctx value = some native ∧ out.json = single "$match" query ∧
      ∀ d : Document, d.meetsFields native → d.meets query := by
  obtain ⟨cs, rfl, hne, hnodup, hconditions⟩ := parse_conditions hvars hparse hkeys hplain
  obtain ⟨findings, natural, journal, indexing, events, -, hnatural, hrun, hnative, hjson⟩ :=
    compile_queries hparse h
  refine ⟨_, _, hnative, hjson, fun d hmeets => ?_⟩
  have hsingles : ∀ leaf ∈ rootLeaves ctx (.expression cs), isSingle leaf = true →
      LastCovers ctx leaf := fun leaf hleaf hsingle =>
    hcovers leaf hleaf fun hop => by simp [isSingle, hop] at hsingle
  obtain ⟨out', rfl, hbuilds⟩ :=
    buildNatural_clauses hindex hconditions hseparate.clean (.inr hsingles) hnatural
  have huniform : ∀ leaf ∈ rootLeaves ctx (.expression cs), ShapedLeaf leaf →
      isSingle leaf = true → Uniform ctx leaf := fun leaf hleaf hshaped hsingle =>
    hbuilds.journal.uniform hleaf hshaped hsingle (.inr (hsingles leaf hleaf hsingle))
  have hobject := isObject_root ⟨ctx, findings.references⟩ hnodup hconditions
  have hsound : Sound ctx ctx.baseFind true _ := hobject.sound hseparate
    fun leaf hleaf hshaped => settled_of_uniform hshaped (huniform leaf hleaf hshaped)
  have hentered := hsound.run hbase (.inl rfl) (enterAll_of_builds hbuilds hrun)
  obtain ⟨query, hpruned, hquery⟩ := finish_clauses hsound hentered
  obtain ⟨hclauses, hconditions'⟩ := (meetsFields_seed hbuilds.nodup).1 hmeets
  have hbases : ∀ k w, Fields.get? ctx.baseFind k = some w → d.meetsKey k w := fun k w hw =>
    hconditions' k w (hbuilds.get?_base hbase hobject hfree hw) hw
  have hindexed : d.meets (prune (.obj indexing.entries.root)).1 :=
    meets_of_clauses hbases hsound hentered (hobject.holds_mono (fun key leaf hleaf hshaped hsat =>
        indexSat_of_naturalSat hshaped (huniform leaf hleaf hshaped)
          (fun hop => hcovers leaf hleaf (by rw [hop]; decide)) hsat)
        ((hbuilds.meets_iff.2 d).1 hclauses))
  refine emitted_of_both hmeets fun index hfinish => ?_
  rw [hquery] at hfinish
  split at hfinish
  · cases hfinish
  cases hfinish
  rwa [hpruned] at hindexed

/-- Alternatives on both types lose no document. -/
theorem tag_choices_keep_documents :
    let ctx := tagContext [("c_org", .int 3)]
    let value := .obj [tagChoices]
    ∃ out notes, compile ctx value = ⟨.ok out, notes⟩ ∧
      ∃ native query, nativeQuery ctx value = some native ∧ out.json = single "$match" query ∧
        ∀ d : Document, d.meetsFields native → d.meets query := by
  intro ctx value
  obtain ⟨out, hresult⟩ : ∃ out, (compile ctx value).result = .ok out :=
    exists_eq_ok (by decide +kernel)
  obtain ⟨v, hparse, hkeys, hplain, hseparate, hfree, hcovers⟩ : ∃ v, parse ctx value = .ok v ∧
      v.distinctKeys = true ∧ v.uses elementKeys = false ∧ Separate ctx (rootLeaves ctx v) ∧
      (∀ leaf ∈ rootLeaves ctx v, ∀ key ∈ leafKeys leaf,
        Fields.contains ctx.baseFind key = false) ∧ ∀ leaf ∈ rootLeaves ctx v,
        leaf.1.site.matchOp? ≠ some .noneOf → LastCovers ctx leaf :=
    exists_eq_ok_and (by decide +kernel)
  have hcompile := eq_ok_of_result hresult
  exact ⟨out, _, hcompile, index_query_keeps_documents rfl rfl (by decide +kernel) hparse hkeys
    hplain hseparate hfree hcovers hcompile⟩

/-- What a comparison finds among cats is lost once dogs read the same literal as a number. -/
theorem comparison_forgets_node :
    let ctx := tagContext []
    let value := tagMatch "$gt" (.str "5")
    ∃ out native query, (compile ctx value).result = .ok out ∧
      nativeQuery ctx value = some native ∧ out.json = single "$match" query ∧
      ∃ d : Document, d.meetsFields native ∧ ¬d.meets query := by
  intro ctx value
  let native : Fields :=
    [("$or", .arr [tagMatch "$gt" (.str "5"), tagMatch "$gt" (.int 5)])]
  obtain ⟨out, hresult, hjson⟩ : ∃ out, (compile ctx value).result = .ok out ∧ out.json =
      single "$match" (single "$and" (.arr [.obj native, tagMatch "$gt" (.int 5)])) :=
    exists_eq_ok_and (by decide +kernel)
  have hnative : nativeQuery ctx value = some native := by decide +kernel
  have hop : holdsOperators [("$gt", .str "5")] = true := rfl
  have hop' : holdsOperators [("$gt", .int 5)] = true := rfl
  refine ⟨out, _, _, hresult, hnative, hjson, textDocument "5", ?_, ?_⟩
  · simp [native, tagMatch, meets, meetsFields, meetsKey, meetsAny, meetsValue, hop, meetsOperator,
      textDocument]
  · simp [native, single, tagMatch, meets, meetsFields, meetsKey, meetsAll, meetsValue, hop',
      meetsOperator, textDocument]

end

end Conduit.Match
