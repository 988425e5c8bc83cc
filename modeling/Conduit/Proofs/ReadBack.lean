import Conduit.Proofs.MatchShape

/-!
# Reading a match back

What was read still holds the document it was read from, as long as nothing in it was put into
another form.  Patterns and circles are; placeholders lose their braces, which are written again
(`parse_underlying`).
-/

namespace Conduit

open List

/-- The braces of a placeholder are all that its name lacks. -/
lemma Path.placeholder_variableName? {s name : String} (h : variableName? s = some name) :
    placeholder name = s := by
  unfold variableName? at h
  split at h
  · next rest hs =>
    split at h
    · next body hrest =>
      split at h
      · cases h
        have hbody : rest = body.reverse ++ ['\x7d', '\x7d'] := by simpa using congrArg reverse hrest
        rw [← String.toList_inj, hs, hbody]
        simp [placeholder]
      · cases h
    · cases h
  · cases h

lemma Context.underlying_placeholder {ctx : Context} {v : Json} {name : String}
    (h : ctx.placeholder? v = some name) : (Operand.variable name).underlying = v := by
  cases v with
  | str s =>
    simp only [placeholder?] at h
    split at h
    · exact congrArg Json.str (Path.placeholder_variableName? h)
    · cases h
  | _ => cases h

namespace Operand

lemma underlyingItems_eq_map (elements : List Operand) :
    underlyingItems elements = elements.map underlying := by
  induction elements with
  | nil => rfl
  | cons e rest ih => rw [underlyingItems, ih, map_cons]

lemma underlyingFields_eq_extend (cs : Children) (fs : Fields) :
    underlyingFields cs fs = Fields.extend fs (cs.map fun c => (c.1, c.2.underlying)) := by
  induction cs generalizing fs with
  | nil => rfl
  | cons c rest ih => exact ih (Fields.insert fs c.1 c.2.underlying)

end Operand

/-- Every object in the document has each key once, and no key that is read into another form. -/
def Json.ReadsPlainly (v : Json) : Prop := ∀ fs, Inside (.obj fs) v →
  (Fields.keys fs).Nodup ∧ "$regex" ∉ Fields.keys fs ∧ "$within" ∉ Fields.keys fs

namespace Match

variable {ctx : Context} {site : Site} {v : Json} {o : Operand}

/-- What was read at a place gives the value back. -/
def GivesBack (site : Site) (v : Json) (o : Operand) : Prop :=
  v.ReadsPlainly → site.key ≠ "$regex" ∧ site.key ≠ "$within" → o.underlying = v

lemma underlying_simpleOrVariable (v : Json) : (simpleOrVariable ctx v).underlying = v := by
  unfold simpleOrVariable
  split
  · next h => exact Context.underlying_placeholder h
  · rfl

lemma underlying_array {items : List Json} {elements : List Operand}
    (h : Forall₂ (fun item e => item = Operand.underlying e) items elements) :
    (Operand.array elements).underlying = .arr items := by
  rw [Operand.underlying, Operand.underlyingItems_eq_map]
  rw [← forall₂_map_right_iff, forall₂_eq_eq_eq] at h
  rw [h]

lemma ReadsObject.underlying {fs : Fields} {cs : Children}
    (h : ReadsObject ctx GivesBack site fs cs) (hplain : Json.ReadsPlainly (.obj fs)) :
    (Operand.expression cs).underlying = .obj fs := by
  obtain ⟨hnodup, hregex, hwithin⟩ := hplain fs .self
  have hfields : Forall₂ (fun f c => f = (c.1, Operand.underlying c.2)) fs cs := by
    refine forall₂_mem_mono h.fields fun f hf c _ hc => Prod.ext hc.1.symm (Eq.symm ?_)
    refine hc.2 (fun gs hgs => hplain gs (.field hf hgs)) ⟨fun hkey => hregex ?_, fun hkey => hwithin ?_⟩
    all_goals exact hkey ▸ mem_map_of_mem hf
  rw [← forall₂_map_right_iff, forall₂_eq_eq_eq] at hfields
  have hextend : Fields.extend [] fs = fs := Fields.extend_eq_append hnodup
  rw [Operand.underlying, Operand.underlyingFields_eq_extend, ← hfields, hextend]

lemma ReadsLeaf.underlying {op : MatchOp} (h : ReadsLeaf ctx site op v o)
    (hop : op ≠ .pattern ∧ op ≠ .within) (hplain : v.ReadsPlainly) : o.underlying = v := by
  cases h with
  | scalar | compared => rfl
  | pattern => exact absurd rfl hop.1
  | circle => exact absurd rfl hop.2
  | values _ _ helements =>
    refine underlying_array (forall₂_mem_mono helements fun item hitem e _ he => ?_)
    cases he with
    | pattern =>
      exact absurd (by simp [Fields.keys]) (hplain _ (.item hitem .self)).2.1
    | placeholder hname => exact (Context.underlying_placeholder hname).symm
    | scalar => rfl

/-- What is read by one of the rules gives its value back, if the conditions inside do. -/
lemma Reads.givesBack (h : Reads ctx GivesBack site v o) : GivesBack site v o := by
  intro hplain hkey
  cases h with
  | literal => exact underlying_simpleOrVariable v
  | operators _ _ _ hfs => exact hfs.underlying hplain
  | placeholder _ hname => exact Context.underlying_placeholder hname
  | conditions _ _ helements =>
    refine underlying_array (forall₂_mem_mono helements fun item hitem e _ he => ?_)
    cases he with
    | placeholder hname => exact (Context.underlying_placeholder hname).symm
    | object hfs => exact (hfs.underlying fun gs hgs => hplain gs (.item hitem hgs)).symm
  | all _ _ helements =>
    refine underlying_array (forall₂_mem_mono helements fun item hitem e _ he => ?_)
    cases he with
    | literal => exact (underlying_simpleOrVariable item).symm
    | object hfs => exact (hfs.underlying fun gs hgs => hplain gs (.item hitem hgs)).symm
  | elemMatch _ hfs => exact hfs.underlying hplain
  | leaf hop hleaf =>
    have hopkey := MatchOp.key_of_ofKey? (checkOperator_ok hop).1
    refine hleaf.underlying ⟨?_, ?_⟩ hplain
    · rintro rfl
      exact hkey.1 hopkey.symm
    · rintro rfl
      exact hkey.2 hopkey.symm

/-- **A match that was read can be read back**: without patterns and circles, it is the document
that was given, with its keys in the order in which they stood. -/
theorem parse_underlying {fs : Fields} (h : parse ctx (.obj fs) = .ok o)
    (hplain : Json.ReadsPlainly (.obj fs)) : o.underlying = .obj fs := by
  obtain ⟨_, cs, ⟨⟩, rfl, hread⟩ := parse_object (fun _ _ _ => Reads.givesBack) h
  exact hread.underlying hplain

def templateStage : Context :=
  { catalog := {}, options := { withVariables := true }, indexes := fun _ => [], kind := .match }

/-- A choice between a number and a placeholder. -/
def choiceTemplate : Json := .obj [("$or", .arr [.obj [("c_pet.c_age", .int 3)],
  .obj [("c_name", .str "\x7b\x7bname\x7d\x7d")]])]

theorem choice_read_back : ∃ o, parse templateStage choiceTemplate = .ok o ∧
    o.underlying = choiceTemplate := by
  obtain ⟨o, ho⟩ : ∃ o, parse templateStage choiceTemplate = .ok o := exists_eq_ok (by decide +kernel)
  refine ⟨o, ho, parse_underlying ho fun fs h => ?_⟩
  cases h with
  | self => decide
  | field hf h =>
    cases mem_singleton.1 hf
    cases h with
    | item hw h =>
      simp only [mem_cons, not_mem_nil, or_false] at hw
      rcases hw with rfl | rfl
      all_goals
        cases h with
        | self => decide
        | field hf h =>
          cases mem_singleton.1 hf
          cases h

end Match

end Conduit
