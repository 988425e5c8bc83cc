import Conduit.Proofs.KeyOrder
import Conduit.Proofs.QueryShape

/-!
# The parts of an object

What the components of an object are built into, each on its own, and what an object makes of such
parts.  Parts that replace nothing are put side by side or under `$and`; fan-outs over equally many
values share their branches (`buildChildren_kept`, `buildChildren_fan`).
-/

namespace Conduit.Match

open List

/-! ## Parts of an object -/

section

variable {b : Builder} {t : Trail} {v : Operand} {around : Enclosing} {part : Option Built}
  {columns : List (String × List Json)} {width : Nat}

/-- A component that replaces nothing is built the same in every object that is not replaced. -/
lemma buildComponent_kept (hnone : around.replacement = none)
    (h : (b.buildComponent t {} v).result = .ok part) (hpart : ∀ r, part ≠ some (.replace r)) :
    (b.buildComponent t around v).result = .ok part := by
  rcases buildComponent_around b t v with ⟨op, -, -, hsimple⟩ | hsame
  · rw [hsimple] at h ⊢
    obtain ⟨values, m, n, hcast, -, -, ⟨w, rfl, rfl⟩ | ⟨-, -, rfl | ⟨_, _, _, _, rfl⟩⟩⟩ :=
      buildSimple_cases (Journaled.eq_ok_of_result h)
    · rw [Builder.buildSimple, Journaled.result_bind, hcast]
      rfl
    · exact absurd rfl (hpart _)
    · exact absurd rfl (hpart _)
  · rcases hsame around with heq | ⟨hsome, -⟩
    · rw [heq, h]
    · rw [hnone] at hsome
      cases hsome

lemma exists_part {built : Option Built} (h : (b.buildComponent t around v).result = .ok built) :
    ∃ part, (b.buildComponent t {} v).result = .ok part := by
  rcases buildComponent_around b t v with ⟨op, -, -, hsimple⟩ | hsame
  · rw [hsimple] at h ⊢
    obtain ⟨part, _, hpart, -⟩ := buildSimple_replaces (Journaled.eq_ok_of_result h)
    exact ⟨part, by rw [hpart]⟩
  · rcases hsame around with heq | ⟨-, e, he⟩
    · exact ⟨built, heq ▸ h⟩
    · rw [h] at he
      cases he

/-- The components of an object, each built on its own, by their keys. -/
def Builder.parts (b : Builder) (t : Trail) (element : Nat) (cs : Children)
    (index : Nat) : Except CompileError (List (String × Option Built)) :=
  (cs.zipIdx index).mapM fun c =>
    (c.1.1, ·) <$> (b.buildComponent (t.child b.ctx element c.2 c.1.1 c.1.2) {} c.1.2).result

variable {ps : List (String × Option Built)} {index element : Nat} {cs : Children}

lemma parts_cons_ok_iff {c : String × Operand} {rest : Children} :
    b.parts t element (c :: rest) index = .ok ps ↔ ∃ part more,
      (b.buildComponent (t.child b.ctx element index c.1 c.2) {} c.2).result = .ok part ∧
      b.parts t element rest (index + 1) = .ok more ∧ ps = (c.1, part) :: more := by
  simp only [Builder.parts, zipIdx_cons, mapM_cons, except_bind_ok_iff, except_functor_map_ok_iff]
  constructor
  · rintro ⟨_, ⟨part, hpart, rfl⟩, more, hmore, ⟨⟩⟩
    exact ⟨part, more, hpart, hmore, rfl⟩
  · rintro ⟨part, more, hpart, hmore, rfl⟩
    exact ⟨_, ⟨part, hpart, rfl⟩, more, hmore, rfl⟩

lemma exists_parts {out : Enclosing}
    (h : (b.buildChildren t element index around cs).result = .ok out) :
    ∃ ps, b.parts t element cs index = .ok ps := by
  induction cs generalizing index around with
  | nil => exact ⟨[], rfl⟩
  | cons c rest ih =>
    rw [Builder.buildChildren, Journaled.result_bind, except_bind_ok_iff] at h
    obtain ⟨built, hbuilt, h⟩ := h
    obtain ⟨part, hpart⟩ := exists_part hbuilt
    obtain ⟨more, hmore⟩ := ih h
    exact ⟨_, parts_cons_ok_iff.2 ⟨part, more, hpart, hmore, rfl⟩⟩

/-- Whether a part leaves the object around it in place. -/
def keeps (p : String × Option Built) : Bool := p.2.all fun x => !x.isReplacement

lemma keeps_iff {p : String × Option Built} : keeps p = true ↔ ∀ r, p.2 ≠ some (.replace r) := by
  obtain ⟨key, _ | ⟨v⟩ | r⟩ := p <;> simp [keeps, Built.isReplacement]

/-- The object with further parts. -/
def addParts (around : Enclosing) (ps : List (String × Option Built)) : Enclosing :=
  ps.foldl (fun around p => Builder.addBuilt around p.2) around

/-- Parts that replace nothing are added one after the other. -/
lemma buildChildren_kept (hparts : b.parts t element cs index = .ok ps)
    (hkeeps : ∀ p ∈ ps, keeps p = true) (hnone : around.replacement = none) :
    (b.buildChildren t element index around cs).result = .ok (addParts around ps) := by
  induction cs generalizing index around ps with
  | nil =>
    cases hparts
    rfl
  | cons c rest ih =>
    obtain ⟨part, more, hpart, hmore, rfl⟩ := parts_cons_ok_iff.1 hparts
    rw [forall_mem_cons] at hkeeps
    rw [Builder.buildChildren, Journaled.result_bind,
      buildComponent_kept hnone hpart (keeps_iff.1 hkeeps.1)]
    exact ih hmore hkeeps.2 (replacement_addBuilt hnone (keeps_iff.1 hkeeps.1))

/-! ### Operators side by side -/

/-- The fields that a part brings into its object. -/
def partFields (p : String × Option Built) : Fields := match p.2 with
  | some (.value (.obj fs)) => fs
  | _ => []

lemma extend_fresh {fs gs : Fields} (h : (Fields.keys (fs ++ gs)).Nodup) :
    Fields.extend fs gs = fs ++ gs := by
  induction gs generalizing fs with
  | nil => rw [append_nil]; rfl
  | cons g rest ih =>
    have hfresh : g.1 ∉ Fields.keys fs := by
      rw [Fields.keys, map_append, nodup_append] at h
      exact fun hmem => h.2.2 g.1 hmem g.1 mem_cons_self rfl
    have hassoc : fs ++ g :: rest = fs ++ [g] ++ rest := by simp
    rw [hassoc] at h ⊢
    rw [Fields.extend, foldl_cons, Fields.insert_fresh hfresh]
    exact ih h

/-- Parts that replace nothing and bring different keys are put side by side. -/
lemma addParts_fresh (around : Enclosing) (hkeeps : ∀ p ∈ ps, keeps p = true)
    (hnone : around.replacement = none)
    (hnodup : (Fields.keys (around.fields ++ ps.flatMap partFields)).Nodup) :
    addParts around ps = ⟨around.fields ++ ps.flatMap partFields, none⟩ := by
  induction ps generalizing around with
  | nil =>
    obtain ⟨fields, replacement⟩ := around
    cases hnone
    simp [addParts]
  | cons p rest ih =>
    obtain ⟨key, part⟩ := p
    rw [forall_mem_cons] at hkeeps
    rw [flatMap_cons, ← append_assoc] at hnodup ⊢
    have hstep : Builder.addBuilt around part = ⟨around.fields ++ partFields (key, part), none⟩ := by
      obtain ⟨fields, replacement⟩ := around
      cases hnone
      rcases part with _ | ⟨v⟩ | r
      · simp [Builder.addBuilt, partFields]
      · cases v with
        | obj fs =>
          rw [Fields.keys, map_append, nodup_append] at hnodup
          have hfs : (Fields.keys (fields ++ fs)).Nodup := hnodup.1
          rw [Builder.addBuilt, merge_fresh, extend_fresh hfs]
          · rfl
          · intro k hk
            rw [Fields.get?_eq_none_iff]
            rw [Fields.keys, map_append, nodup_append] at hfs
            exact fun hmem => hfs.2.2 k hmem k hk rfl
        | _ => simp [Builder.addBuilt, partFields]
      · exact absurd rfl (keeps_iff.1 hkeeps.1 r)
    rw [addParts, foldl_cons, hstep]
    exact ih _ hkeeps.2 rfl hnodup

/-! ### Fan-outs side by side -/

/-- The value under the one key of an object. -/
def onlyValue : Json → Json
  | .obj [(_, v)] => v
  | _ => .null

/-- The branches that a part fans out into. -/
def branches? : Option Built → Option (List Json)
  | some (.replace (.value (.obj [(_, .arr branches)]))) => some branches
  | _ => none

/-- Whether a part is the fan-out of a simple operator over so many values. -/
def isFan (width : Nat) (p : String × Option Built) : Bool :=
  (MatchOp.ofKey? p.1).any MatchOp.isSimple && (branches? p.2).any (·.length == width)

/-- The operator of a fan-out with its values. -/
def column (p : String × Option Built) : String × List Json :=
  (p.1, ((branches? p.2).getD []).map fun branch => onlyValue (onlyValue branch))

/-- One branch for each position of the values. -/
def fan (key : String) (width : Nat) (columns : List (String × List Json)) : Json :=
  single "$or" (.arr ((range width).map fun i =>
    single key (.obj (columns.map fun c => (c.1, c.2[i]?.getD .null)))))

/-- An object that simple operators have fanned out. -/
def fannedObject (key : String) (width : Nat) (columns : List (String × List Json)) : Enclosing where
  replacement := if columns.isEmpty then none else some (fan key width columns)

lemma fan_single (key op : String) (values : List Json) :
    fan key values.length [(op, values)] = fanOut key op values := by
  have hvalues : values = (range values.length).map fun i => values[i]?.getD .null := by
    refine ext_getElem (by simp) fun i h _ => ?_
    simp [getElem?_eq_getElem h]
  rw [fan, fanOut]
  conv_rhs => rw [hvalues, map_map]
  rfl

lemma addToBranch_fan {key op : String} {values : List Json} (hop : op ∉ columns.map Prod.fst) :
    zipWith (addToBranch key op) ((range values.length).map fun i =>
        single key (.obj (columns.map fun c => (c.1, c.2[i]?.getD .null)))) values =
      (range values.length).map fun i =>
        single key (.obj ((columns ++ [(op, values)]).map fun c => (c.1, c.2[i]?.getD .null))) := by
  refine ext_getElem (by simp) fun i h _ => ?_
  have hi : i < values.length := by simpa using h
  have hkeys : op ∉ Fields.keys (columns.map fun c => (c.1, c.2[i]?.getD .null)) := by
    rwa [Fields.keys, map_map]
  simp [addToBranch, single, Fields.get?, Fields.insert, Fields.insert_fresh hkeys,
    getElem?_eq_getElem hi]

/-- A simple operator replaces its object only where it looks at it. -/
lemma buildComponent_simple {op : MatchOp} (hop : t.site.matchOp? = some op)
    (hsimple : op.isSimple = true) {r : Built}
    (h : (b.buildComponent t {} v).result = .ok (some (.replace r))) (around : Enclosing) :
    b.buildComponent t around v = b.buildSimple t op v around := by
  cases v with
  | «variable» name => cases h
  | expression cs =>
    rw [Builder.buildComponent, hop] at h
    cases op <;> first | cases h | exact absurd hsimple (by decide)
  | array elements =>
    rw [Builder.buildComponent, hop] at h
    cases op <;> first | cases h | exact absurd hsimple (by decide)
  | _ =>
    unfold Builder.buildComponent
    simp only [hop, hsimple, if_true]

/-- A simple operator that fans out on its own does so in a fan-out of the same width. -/
lemma buildComponent_fan (h : (b.buildComponent t {} v).result = .ok part)
    (hfan : isFan width (t.site.key, part) = true) (hfresh : t.site.key ∉ columns.map Prod.fst) :
    (b.buildComponent t (fannedObject (b.buildKey t.parent) width columns) v).result =
      .ok (some (.replace (.value (fan (b.buildKey t.parent) width
        (columns ++ [column (t.site.key, part)]))))) := by
  simp only [isFan, Bool.and_eq_true, Option.any_eq_true, beq_iff_eq] at hfan
  obtain ⟨⟨op, hop, hsimple⟩, branches, hbranches, rfl⟩ := hfan
  have hpart : ∃ r, part = some (.replace r) := by
    rcases part with _ | ⟨_⟩ | r
    · cases hbranches
    · cases hbranches
    · exact ⟨r, rfl⟩
  obtain ⟨r, rfl⟩ := hpart
  have heq := buildComponent_simple hop hsimple h
  rw [heq] at h ⊢
  obtain ⟨values, m, n, hcast, -, -, ⟨w, rfl, hone⟩ | ⟨hmany, -, hbuilt | ⟨_, _, hnone, -⟩⟩⟩ :=
    buildSimple_cases (Journaled.eq_ok_of_result h)
  · cases hone
  · cases hbuilt
    cases hbranches
    have hkey : op.key = t.site.key := MatchOp.key_of_ofKey? hop
    have hcolumn : column (t.site.key, some (.replace (.value
        (fanOut (b.buildKey t.parent) op.key values)))) = (op.key, values) := by
      simp [column, fanOut, branches?, single, onlyValue, hkey, Function.comp_def]
    rw [hcolumn, length_map]
    cases columns with
    | nil => rw [nil_append, fan_single]; exact h
    | cons c rest =>
      rw [Builder.buildSimple, Journaled.result_bind, hcast]
      simp only [bind, Except.bind, isEmpty_nil, Bool.not_true, Bool.false_and,
        Bool.false_eq_true, if_false, isEmpty_cons, fannedObject, fan, single, Fields.get?, if_true, length_map,
        length_range]
      rw [← hkey] at hfresh
      exact congrArg (fun branches => Except.ok (some (Built.replace (.value
        (single "$or" (.arr branches)))))) (addToBranch_fan hfresh)
  · cases hnone

/-- Fan-outs of one width are put together branch by branch. -/
lemma buildChildren_fan (htrail : t ≠ []) (columns : List (String × List Json))
    (hparts : b.parts t element cs index = .ok ps) (hfan : ∀ p ∈ ps, isFan width p = true)
    (hnodup : (columns.map Prod.fst ++ cs.map Prod.fst).Nodup) :
    (b.buildChildren t element index (fannedObject (b.buildKey t) width columns) cs).result =
      .ok (fannedObject (b.buildKey t) width (columns ++ ps.map column)) := by
  induction cs generalizing index columns ps with
  | nil =>
    cases hparts
    exact congrArg (fun columns => Except.ok (fannedObject _ width columns)) (append_nil _).symm
  | cons c rest ih =>
    obtain ⟨part, more, hpart, hmore, rfl⟩ := parts_cons_ok_iff.1 hparts
    rw [forall_mem_cons] at hfan
    have hsite : (t.child b.ctx element index c.1 c.2).site.key = c.1 := by
      rw [site_child htrail]
      rfl
    have hfresh : c.1 ∉ columns.map Prod.fst := by
      rw [map_cons, nodup_append] at hnodup
      exact fun hmem => hnodup.2.2 c.1 hmem c.1 mem_cons_self rfl
    have hstep := buildComponent_fan hpart (by rw [hsite]; exact hfan.1) (by rwa [hsite])
    rw [parent_child htrail, hsite] at hstep
    have hmap : columns ++ ((c.1, part) :: more).map column =
        columns ++ [column (c.1, part)] ++ more.map column := by simp
    rw [Builder.buildChildren, Journaled.result_bind, hstep, hmap]
    have hadded : Builder.addBuilt (fannedObject (b.buildKey t) width columns) (some (.replace (.value
        (fan (b.buildKey t) width (columns ++ [column (c.1, part)]))))) =
        fannedObject (b.buildKey t) width (columns ++ [column (c.1, part)]) := by
      simp [Builder.addBuilt, fannedObject, Built.unwrap]
    refine Eq.trans (congrArg (fun around => (b.buildChildren t element (index + 1) around
      rest).result) hadded) (ih _ hmore hfan.2 ?_)
    rwa [map_append, map_cons, map_nil, append_assoc, singleton_append]

end
end Conduit.Match
