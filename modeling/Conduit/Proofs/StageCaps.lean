import Conduit.Proofs.FieldReferences

/-!
# Bounds on what a stage holds

Reading a stage opens its object and the expressions inside.  None of them is empty, too wide or
too deep, and the lists of a match are bounded.

By the standard limits, an object has at most 100 keys and is below at most 20.  The object of a
group itself may be of any width (`wide_group_compiles`).
-/

namespace Conduit

open Journaled

variable {ctx : Context} {site : Site} {v : Json} {fs gs : Fields} {o : Operand}

/-! ## Conditions -/

namespace Match

/-- The values of fields and of these operators hold conditions. -/
def caps (limits : Limits) : Caps where
  limits
  opens key := !Path.isOperator key || ["$elemMatch", "$and", "$or", "$all"].contains key
  list key n := (!(["$in", "$nin"].contains key) || !Limits.exceeds limits.inElements n) &&
      (key != "$all" || !Limits.exceeds limits.allElements n) &&
      (!(["$and", "$or"].contains key) || n != 0 && !Limits.exceeds limits.conditions n)

/-- The value at a place keeps the bounds. -/
def Kept (ctx : Context) (site : Site) (v : Json) (_ : Operand) : Prop :=
  (caps ctx.limits).holds site.depth site.key v = true

lemma ReadsObject.keeps {cs : Children}
    (h : ReadsObject ctx (Kept ctx) site fs cs) (o : Operand) : Kept ctx site (.obj fs) o :=
  Caps.holds_object h.checked
    (Caps.holdsBelow_iff.2 (forall_mem_right h.fields.flip fun _ _ _ hc => hc.2))

lemma keeps_items {items : List Json} {elements : List Operand}
    (hlist : (caps ctx.limits).list site.key items.length = true)
    (h : List.Forall₂ (Kept ctx site) items elements) (o : Operand) :
    Kept ctx site (.arr items) o := by
  have hitems : (caps ctx.limits).holdsAmong site.depth site.key items = true :=
    Caps.holdsAmong_iff.2 (forall_mem_right h.flip fun _ _ _ hv => hv)
  rw [Kept, Caps.holds, hlist, hitems, Bool.or_true]
  rfl

lemma Reads.keeps (h : Reads ctx (Kept ctx) site v o) : Kept ctx site v o := by
  cases h with
  | literal _ _ harr hobj => exact Caps.holds_scalar harr hobj
  | operators _ _ _ hfs | elemMatch _ hfs => exact hfs.keeps _
  | placeholder _ hname => cases v <;> first | rfl | cases hname
  | conditions hcheck hop hitems =>
    obtain ⟨_, heq, hne, hbound⟩ := conditions_of_rules rfl hop hcheck
    cases heq
    refine keeps_items ?_ (hitems.imp fun w x hw => ?_) _
    · rw [← MatchOp.key_of_ofKey? (checkOperator_ok hcheck).1]
      rcases hop with rfl | rfl <;> simp [caps, MatchOp.key, hne, hbound]
    · cases hw with
      | placeholder hname => cases w <;> first | rfl | cases hname
      | object hfs => exact hfs.keeps _
  | all hcheck hbound hitems =>
    refine keeps_items ?_ (hitems.imp fun w x hw => ?_) _
    · rw [← MatchOp.key_of_ofKey? (checkOperator_ok hcheck).1]
      simp [caps, MatchOp.key, hbound]
    · cases hw with
      | literal harr hobj => exact Caps.holds_scalar harr hobj
      | object hfs => exact hfs.keeps _
  | @leaf op _ _ hcheck hleaf =>
    have hkey := MatchOp.key_of_ofKey? (checkOperator_ok hcheck).1
    have hopens : (caps ctx.limits).opens site.key = false := by
      obtain ⟨⟨hand, hor⟩, hall, helem⟩ := hleaf.ne
      rw [← hkey]
      simp only [caps, MatchOp.isOperator_key, Bool.not_true, Bool.false_or]
      cases op <;> first | contradiction | decide
    cases v with
    | obj fs => simp [Kept, Caps.holds, hopens]
    | arr items =>
      have hlist : (caps ctx.limits).list site.key items.length = true := by
        rw [← hkey]
        cases hleaf with
        | scalar _ harr => cases harr
        | values hop hbound => rcases hop with rfl | rfl <;> simp [caps, MatchOp.key, hbound]
        | pattern | circle => simp [caps, MatchOp.key]
        | compared hop => cases op <;> first | exact absurd hop (by decide) | simp [caps, MatchOp.key]
      simp [Kept, Caps.holds, hopens, hlist]
    | _ => rfl

end Match

/-! ## Stages -/

/-- The object of a stage, as it is read. -/
def stageFields : StageKind → Json → Except CompileError Fields
  | .match, v => stageObject .match v
  | .sort, v => Sort.fieldsOf v
  | .group, v => Group.fieldsOf v
  | .project, v => Project.fieldsOf .project v
  | .addFields, v => Project.fieldsOf .addFields v
  | kind, _ => .error ((Fault.stageNotObject kind.key).at "")

def capsOf (limits : Limits) : StageKind → Caps
  | .match => Match.caps limits
  | .group | .project | .addFields => Expression.caps limits
  | _ => { limits, opens := fun _ => false }

/-- The bounds of the object of a stage.  That of a group may be wider. -/
def KeepsCaps (limits : Limits) (kind : StageKind) (fs : Fields) : Prop :=
  fs ≠ [] ∧ (kind ≠ .group → Limits.exceeds limits.keys fs.length = false) ∧
    (capsOf limits kind).holdsBelow 1 fs = true

lemma Caps.holdsBelow_closed {limits : Limits} {d : Nat} (fs : Fields) :
    Caps.holdsBelow { limits, opens := fun _ => false } d fs = true :=
  holdsBelow_iff.2 fun f _ => by cases f.2 <;> simp [holds]

lemma exists_of_bind {α β : Type} {x : Except CompileError α} {f : α → Compile β} {b : β}
    {notes : List Event} (h : of x >>= f = ⟨.ok b, notes⟩) : ∃ a, x = .ok a := by
  obtain ⟨a, _, _, ha, -⟩ := bind_ok_iff.1 h
  exact ⟨a, congrArg result ha⟩

/-- **What a stage holds is bounded.**  The object of a stage that compiles, and every object in it
that is read as an expression, is neither empty nor too wide nor too deep, and so are the lists of
a match.  Only the object of a group may be of any width. -/
theorem compiled_stage_capped {value : Json} {output : StageOutput} {notes : List Event}
    (h : compileStage ctx value = ⟨.ok output, notes⟩)
    (hfs : stageFields ctx.kind value = .ok fs) : KeepsCaps ctx.limits ctx.kind fs := by
  have htop : ∀ {stage : String} {gs : Fields},
      checkExpression ctx.limits (.root stage) (.obj fs) = .ok gs →
      (capsOf ctx.limits ctx.kind).holdsBelow 1 fs = true → KeepsCaps ctx.limits ctx.kind fs := by
    intro stage gs hchecked hbelow
    obtain ⟨heq, hne, -, hkeys⟩ := checkExpression_ok_iff.1 hchecked
    cases heq
    exact ⟨hne, fun _ => hkeys, hbelow⟩
  simp only [compileStage, bind_ok_iff] at h
  obtain ⟨_, _, _, -, h, -⟩ := h
  cases hkind : ctx.kind <;> rw [hkind] at h hfs htop
  case «match» =>
    unfold Match.compile at h
    obtain ⟨o, hparse⟩ := exists_of_bind h
    obtain ⟨gs, cs, hgs, -, hcs⟩ := Match.parse_object (fun _ _ _ => Match.Reads.keeps) hparse
    cases hgs.symm.trans hfs
    exact htop hcs.checked (Caps.holdsBelow_iff.2 (forall_mem_right hcs.fields.flip
      fun _ _ _ hc => hc.2))
  case sort =>
    unfold Sort.compile at h
    obtain ⟨o, hparse⟩ := exists_of_bind h
    simp only [Sort.parse, except_bind_ok_iff] at hparse
    obtain ⟨gs, hgs, _, hchecked, -⟩ := hparse
    cases hgs.symm.trans hfs
    exact htop hchecked (Caps.holdsBelow_closed fs)
  case group =>
    unfold Group.compile at h
    obtain ⟨o, hparse⟩ := exists_of_bind h
    simp only [Group.parse, except_bind_ok_iff] at hparse
    obtain ⟨gs, hgs, _, hkey, cs, hcs, -⟩ := hparse
    cases hgs.symm.trans hfs
    refine ⟨?_, fun hne => absurd rfl hne, (Group.parseAll_vetted hcs).2⟩
    rintro rfl
    cases hkey
  case project | addFields =>
    unfold Project.compile at h
    obtain ⟨o, hparse⟩ := exists_of_bind h
    obtain ⟨gs, hgs, hchecked, hbelow, -⟩ := Project.parse_vetted hparse
    rw [hkind] at hgs
    cases hgs.symm.trans hfs
    exact htop hchecked hbelow
  case limit | skip | unwind => cases hfs

/-- The steps of a year are bounded. -/
theorem name_and_year_capped :
    let ctx := hiddenContext .addFields
    ∃ fs, stageFields ctx.kind nameAndYear = .ok fs ∧ KeepsCaps .standard ctx.kind fs := by
  intro ctx
  obtain ⟨out, hresult⟩ : ∃ out, (compileStage ctx nameAndYear).result = .ok out :=
    exists_eq_ok (by decide +kernel)
  obtain ⟨fs, hfs⟩ : ∃ fs, stageFields ctx.kind nameAndYear = .ok fs :=
    exists_eq_ok (by decide +kernel)
  exact ⟨fs, hfs, compiled_stage_capped (eq_ok_of_result hresult) hfs⟩

/-- A count for each of a hundred names. -/
def wideGroup : Json := .obj (("_id", .str "c_name") :: (List.range 100).map fun i =>
    ("c_n" ++ toString i, .obj [("$sum", .int 1)]))

/-- The object of a group is not bounded. -/
theorem wide_group_compiles : (compileStage (hiddenContext .group) wideGroup).result.isOk = true ∧
      ∃ fs, stageFields .group wideGroup = .ok fs ∧
        Limits.exceeds Limits.standard.keys fs.length = true :=
  ⟨by decide +kernel, exists_eq_ok_and (by decide +kernel)⟩

end Conduit
