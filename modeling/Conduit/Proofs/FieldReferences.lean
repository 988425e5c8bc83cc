import Conduit.Proofs.AccessComplete
import Conduit.Proofs.ParsedExpressions

/-!
# References in emitted expressions

The native engine evaluates every string of an expression that begins with a dollar sign, unless
it stands below `$literal`.  Those of an emitted stage are references to paths that the stage has
read, and so authorized (`references_are_authorized`).

Two arguments meet here.  Elaborating brings in no strings but those of the parsed stage and
references to what is read (`elaborate_emits`), and parsing leaves no dollar sign in front of a
string of the user (`parseFields_vetted`).  Formats and time zones of dates are an exception: they
are parsed as they are, so that `zone_reads_hidden_field` reads what nobody may read.
-/

namespace Conduit

open List Journaled

namespace Json

/-- The strings that the native engine takes for references to fields.  Variables begin with two
dollar signs. -/
def fieldReferences (v : Json) : List String :=
  (evaluated v).filter fun s => s.startsWith "$" && !s.startsWith "$$"

end Json

open Json

/-! ## Nested fields -/

namespace Fields

variable {fs : Fields}

lemma ne_literal_of_isPlain (h : isPlain fs = true) : ∀ f ∈ fs, f.1 ≠ "$literal" := by
  intro f hf hkey
  simp only [isPlain, Bool.and_eq_true, Bool.not_eq_true', any_eq_false] at h
  refine h.2 f hf ?_
  rw [hkey]
  decide +kernel

mutual

lemma evaluated_leaves : ∀ (v : Json) (path : String), ∀ f ∈ leaves path v,
    ∀ s ∈ evaluated f.2, s ∈ evaluated v
  | .obj fs, path, f, hf, s, hs => by
    rw [leaves] at hf
    split at hf
    · next hplain => exact evaluated_leavesOf fs path (ne_literal_of_isPlain hplain) f hf s hs
    · rw [mem_singleton.1 hf] at hs
      exact hs
  | .null, path, f, hf, s, hs | .bool _, path, f, hf, s, hs | .int _, path, f, hf, s, hs
  | .double _, path, f, hf, s, hs | .str _, path, f, hf, s, hs | .arr _, path, f, hf, s, hs => by
    rw [mem_singleton.1 hf] at hs
    exact hs

lemma evaluated_leavesOf : ∀ (fs : Fields) (path : String), (∀ f ∈ fs, f.1 ≠ "$literal") →
    ∀ f ∈ leavesOf path fs, ∀ s ∈ evaluated f.2, s ∈ evaluatedFields fs
  | [], _, _, _, hf, _, _ => nomatch hf
  | (key, v) :: rest, path, hkeys, f, hf, s, hs => by
    obtain ⟨hkey, hrest⟩ := forall_mem_cons.1 hkeys
    rw [leavesOf] at hf
    rw [evaluatedFields, if_neg hkey, mem_append]
    rcases mem_append.1 hf with hf | hf
    · exact .inl (evaluated_leaves v _ f hf s hs)
    · exact .inr (evaluated_leavesOf rest path hrest f hf s hs)

end

lemma evaluated_flatten (hkeys : ∀ f ∈ fs, f.1 ≠ "$literal") {s : String}
    (h : s ∈ evaluatedFields (flatten fs)) : s ∈ evaluatedFields fs := by
  obtain ⟨f, hf, -, hs⟩ := mem_evaluatedFields.1 h
  rcases mem_of_mem_extend hf with hf | hf
  · exact evaluated_leavesOf fs "" hkeys f hf s hs
  · cases hf

end Fields

variable {paths : List String}

lemma Project.evaluated_addDependencies {body out : Fields}
    (h : addDependencies paths body = .ok out) {s : String} (hs : s ∈ evaluatedFields out) :
    s ∈ evaluatedFields body := by
  induction paths generalizing body with
  | nil =>
    cases h
    exact hs
  | cons path rest ih =>
    rw [addDependencies] at h
    split at h
    · split at h
      · exact ih h
      · cases h
    · obtain ⟨f, hf, hkey, hs⟩ := mem_evaluatedFields.1 (ih h)
      rcases Fields.mem_of_mem_insert hf with rfl | hf
      · cases hs
      · exact mem_evaluatedFields.2 ⟨f, hf, hkey, hs⟩

/-! ## Elaborating -/

namespace Expression

section

variable {ctx : Context} {notes : List Event}

/-- The names of locales: the current one and those that nodes are fixed to. -/
def IsLocale (ctx : Context) (locale : String) : Prop :=
  locale = ctx.options.currentLocale ∨ ∃ id, (ctx.catalog.node id).fixedLocale = some locale

/-- The strings that references to paths are made of. -/
def Referenced (ctx : Context) (paths : List String) (s : String) : Prop :=
  ∃ path ∈ paths, s = "$" ++ path ∨
    ∃ locale, IsLocale ctx locale ∧ s ∈ evaluated (localizedValue path locale)

variable {s key : String} {e : Elaborated} {v : Operand} {site : Site} {xs ys ps : List String}
  {path : String} {inclusion : Bool} {r : Reading} {arg : Json} {a : Accumulator}
  {parts : List Built} {fs : Fields} {b : Built} {first : Elaborated} {cs : Children}

lemma Referenced.mono (h : Referenced ctx xs s) (hsub : xs ⊆ ys) : Referenced ctx ys s := by
  obtain ⟨path, hpath, hs⟩ := h
  exact ⟨path, hsub hpath, hs⟩

/-- A value holds no strings but these and references to these paths. -/
def Emits (ctx : Context) (texts paths : List String) (v : Json) : Prop :=
  ∀ s ∈ evaluated v, s ∈ texts ∨ Referenced ctx paths s

lemma Emits.mono {qs : List String} {v : Json} (h : Emits ctx xs ps v) (htexts : xs ⊆ ys)
    (hpaths : ps ⊆ qs) : Emits ctx ys qs v :=
  fun s hs => (h s hs).imp (fun hs => htexts hs) fun hs => hs.mono hpaths

lemma Emits.of_subset {v w : Json} (h : Emits ctx xs ps v) (hsub : evaluated w ⊆ evaluated v) :
    Emits ctx xs ps w :=
  fun s hs => h s (hsub hs)

lemma read_locale (h : read ctx site path inclusion = ⟨.ok r, notes⟩) {locale : String}
    (hlocale : r.locale = some locale) : IsLocale ctx locale := by
  have hof : ∀ ids : List NodeId, localeOf ctx (ids.map ctx.catalog.node) = some locale →
      IsLocale ctx locale := by
    intro ids hids
    cases ids with
    | nil => cases hids
    | cons id rest =>
      simp only [localeOf, map_cons] at hids
      split at hids
      · cases hfixed : (ctx.catalog.node id).fixedLocale with
        | none =>
          rw [hfixed] at hids
          exact .inl (Option.some.inj hids).symm
        | some fixed =>
          rw [hfixed] at hids
          cases hids
          exact .inr ⟨id, hfixed⟩
      · cases hids
  simp only [read] at h
  split at h
  · split at h
    · cases h
    · cases h
      cases hlocale
  · simp only [bind_ok_iff] at h
    obtain ⟨_, _, _, -, h, -⟩ := h
    split at h
    · simp only [bind_ok_iff] at h
      obtain ⟨_, _, _, -, h, -⟩ := h
      cases h
      exact hof _ hlocale
    · cases h
      exact hof _ hlocale

lemma emits_fieldReference (h : read ctx site path inclusion = ⟨.ok r, notes⟩)
    (texts : List String) : Emits ctx texts [path] (fieldReference path r.locale) := by
  intro s hs
  refine .inr ⟨path, mem_singleton_self path, ?_⟩
  cases hlocale : r.locale with
  | none =>
    rw [hlocale] at hs
    exact .inl (mem_singleton.1 hs)
  | some locale =>
    rw [hlocale] at hs
    exact .inr ⟨locale, read_locale h hlocale, hs⟩

/-! ### Native forms -/

lemma evaluated_operatorForm {op : ExprOp} (h : s ∈ evaluated (operatorForm op arg).unwrap) :
    op.shape ≠ .literal ∧ s ∈ evaluated arg := by
  have hliteral : s ∉ evaluated (.obj [("$literal", arg)]) := by
    simp [evaluated, evaluatedFields]
  unfold operatorForm at h
  split at h
  case h_9 =>
    refine ⟨by decide, ?_⟩
    have hform := evaluated_single h
    unfold dateToStringForm at hform
    split at hform <;> simp_all [evaluated, evaluatedFields, evaluatedItems]
    tauto
  case h_10 =>
    by_cases hop : op = .literal
    · subst hop
      exact absurd h hliteral
    · refine ⟨?_, ?_⟩
      · revert hop
        cases op <;> simp_all [ExprOp.shape]
      · split at h
        · have h : s ∈ evaluated arg ∨ op.key ≠ "$literal" ∧ s ∈ evaluated arg := by
            simpa [Built.unwrap, evaluated, evaluatedFields, evaluatedItems] using h
          exact h.elim id And.right
        · exact evaluated_single h
  all_goals exact absurd h hliteral

lemma evaluated_accumulatorForm {ofArrays : Bool}
    (h : s ∈ evaluated (accumulatorForm a ofArrays arg)) : s ∈ evaluated arg := by
  unfold accumulatorForm at h
  split at h
  · have h := evaluated_single (evaluated_single h)
    split at h <;> simpa [evaluated, evaluatedFields, evaluatedItems] using h
  · simpa [evaluated, evaluatedFields, evaluatedItems] using h
  · exact evaluated_single h

lemma evaluated_assemble (h : s ∈ evaluated (assemble parts fs).unwrap) :
    s ∈ evaluatedFields fs ∨ ∃ b ∈ parts, s ∈ evaluated b.unwrap := by
  induction parts generalizing fs with
  | nil => exact .inl h
  | cons b rest ih =>
    unfold assemble at h
    split at h
    · next heq => cases heq
    · next inner _ heq =>
      cases heq
      exact .inr ⟨_, mem_cons_self, h⟩
    · next object more heq =>
      cases heq
      rcases ih h with hfs | ⟨c, hc, hs⟩
      · obtain ⟨f, hf, hkey, hs⟩ := mem_evaluatedFields.1 hfs
        rcases Fields.mem_of_mem_extend hf with hf | hf
        · exact .inr ⟨_, mem_cons_self, mem_evaluatedFields.2 ⟨f, hf, hkey, hs⟩⟩
        · exact .inl (mem_evaluatedFields.2 ⟨f, hf, hkey, hs⟩)
      · exact .inr ⟨c, mem_cons_of_mem _ hc, hs⟩
    · next more _ heq =>
      cases heq
      rcases ih h with hfs | ⟨c, hc, hs⟩
      · exact .inl hfs
      · exact .inr ⟨c, mem_cons_of_mem _ hc, hs⟩

lemma elaborateObject_built (keys : List String) (parts : List Elaborated) :
    (elaborateObject ctx site keys parts).built = assemble (parts.map Elaborated.built) [] := by
  unfold elaborateObject
  split
  · split <;> rfl
  · rfl

/-- The value of a field, or one that replaces the whole field. -/
def StandsFor (key : String) : Built → Prop
  | .value _ => True
  | .replace b => ∃ v, b = .value (.obj [(key, v)])

/-- A part of an object that stands for a field: what replaces the object may stand for it. -/
def PartOf (key : String) (b : Built) : Prop := ∀ inner, b = .replace inner → StandsFor key inner

lemma assemble_standsFor (h : ∀ b ∈ parts, PartOf key b) (fs : Fields) :
    StandsFor key (assemble parts fs) := by
  induction parts generalizing fs with
  | nil => trivial
  | cons b rest ih =>
    obtain ⟨hb, hrest⟩ := forall_mem_cons.1 h
    unfold assemble
    split
    · trivial
    · next inner _ heq =>
      cases heq
      exact hb inner rfl
    · next heq =>
      cases heq
      exact ih hrest _
    · next heq =>
      cases heq
      exact ih hrest _

lemma fieldForm_standsFor (h : StandsFor key b) :
    ∃ v, fieldForm key b = .value (.obj [(key, v)]) := by
  cases b with
  | value v => exact ⟨v, rfl⟩
  | replace inner => exact h

lemma evaluated_fieldForm (h : s ∈ evaluated (fieldForm key b).unwrap) :
    s ∈ evaluated b.unwrap := by
  cases b with
  | value v => exact evaluated_single h
  | replace inner => exact h

lemma operatorForm_partOf (key : String) (op : ExprOp) (arg : Json) :
    PartOf key (operatorForm op arg) := by
  intro inner hinner
  unfold operatorForm at hinner
  split at hinner
  case h_9 => cases hinner
  case h_10 =>
    split at hinner
    · cases hinner
      trivial
    · cases hinner
  all_goals
    cases hinner
    trivial

/-! ### The strings of elaborated parts -/

lemma isProtected_accumulator (a : Accumulator) : isProtected a.key = false := by
  cases a <;> decide

lemma accumulatorAt?_key (h : accumulatorAt? ctx site = some a) : a.key = site.key := by
  unfold accumulatorAt? at h
  split at h
  · split at h
    · simpa using List.find?_some h
    · cases h
  · cases h

lemma applyOperator_emits {texts : List String} (key : String)
    (he : Emits ctx texts paths e.built.unwrap) (hexpand : site.key ≠ ExprOp.expand.key)
    (h : applyOperator ctx site e = ⟨.ok first, notes⟩) :
    Emits ctx (if isProtected site.key then [] else texts) paths first.built.unwrap ∧
      PartOf key first.built := by
  unfold applyOperator at h
  split at h
  · next hacc =>
    simp only [bind_ok_iff] at h
    obtain ⟨_, _, _, -, h, -⟩ := h
    cases h
    have hkey := accumulatorAt?_key hacc
    rw [if_neg (by rw [← hkey, isProtected_accumulator]; exact Bool.false_ne_true)]
    refine ⟨he.of_subset fun s hs => evaluated_accumulatorForm hs, fun inner hinner => ?_⟩
    cases hinner
  · next op _ hop =>
    simp only [bind_ok_iff] at h
    obtain ⟨_, _, _, -, h, -⟩ := h
    cases h
    refine ⟨fun s hs => ?_, operatorForm_partOf key op _⟩
    obtain ⟨hshape, hs⟩ := evaluated_operatorForm hs
    have hexpands : op.shape ≠ .expand := by
      intro hshape
      refine hexpand ?_
      rw [← ofKey?_key hop]
      revert hshape
      cases op <;> decide
    rw [if_neg (by simp [isProtected, hop, hshape, hexpands])]
    exact he s hs
  · cases h

lemma elaborateExpand_emits (h : elaborateExpand ctx (site.child key) v = ⟨.ok e, notes⟩)
    (texts : List String) :
    Emits ctx texts [(site.child key).propertyPath] e.built.unwrap ∧ PartOf site.key e.built := by
  simp only [elaborateExpand] at h
  split at h
  · simp only [throw_eq, error_bind, mk.injEq, reduceCtorEq, false_and] at h
  · simp only [bind_ok_iff] at h
    obtain ⟨r, _, _, -, ⟨_, _, _, -, h, -⟩, -⟩ := h
    cases h
    refine ⟨fun s hs => .inr ⟨_, mem_singleton_self _, .inl ?_⟩, fun inner hinner => ?_⟩
    · have hs := evaluated_single hs
      split at hs
      · exact mem_singleton.1 hs
      · cases hs
    · cases hinner
      exact ⟨_, rfl⟩

lemma elaborateSimple_emits {v : Json} (h : elaborateSimple ctx site v = ⟨.ok e, notes⟩) :
    Emits ctx (evaluated v) (reads ctx site (.simple v)) e.built.unwrap ∧
      StandsFor site.key e.built := by
  simp only [elaborateSimple] at h
  split at h
  · cases h
    exact ⟨fun s hs => .inl hs, trivial⟩
  · next hsite =>
    simp only [bind_ok_iff] at h
    obtain ⟨r, _, _, hr, h, -⟩ := h
    cases h
    refine ⟨?_, trivial⟩
    rw [reads, if_neg hsite, Built.unwrap]
    split
    · exact emits_fieldReference hr _
    · exact fun s hs => .inl hs

lemma isProtected_of_field (h : Path.isOperator key = false) : isProtected key = false := by
  unfold isProtected
  split
  · next op hop =>
    have hkey : Path.isOperator op.key = true := by
      cases op <;> decide +kernel
    rw [ofKey?_key hop, h] at hkey
    cases hkey
  · rfl

/-- A field or operator of an expression emits its own strings and references to what it reads, if
its value does. -/
lemma elaborateChild_emits (hv : ∀ e m, elaborate ctx (site.child key) v = ⟨.ok e, m⟩ →
      Emits ctx (ownTexts v) (reads ctx (site.child key) v) e.built.unwrap ∧ StandsFor key e.built)
    (h : elaborateChild ctx site key v = ⟨.ok first, notes⟩) :
    Emits ctx (ownTextsBelow [(key, v)]) (readsBelow ctx site [(key, v)]) first.built.unwrap ∧
      PartOf site.key first.built := by
  rw [ownTextsBelow, ownTextsBelow, readsBelow, readsBelow, append_nil, append_nil]
  rcases elaborateChild_cases h with ⟨hkey, hexpand⟩ | ⟨hkey, e, back, he, -, hcase⟩
  · rw [if_pos hkey]
    exact elaborateExpand_emits hexpand _
  · rw [if_neg hkey]
    obtain ⟨hemits, hstands⟩ := hv e back he
    rcases hcase with ⟨-, n, happly⟩ | ⟨hop, n, hname⟩
    · exact applyOperator_emits site.key hemits hkey happly
    · simp only [nameField, bind_ok_iff] at hname
      obtain ⟨_, _, _, -, hname, -⟩ := hname
      cases hname
      rw [if_neg (by rw [isProtected_of_field hop]; exact Bool.false_ne_true)]
      refine ⟨hemits.of_subset fun s hs => evaluated_fieldForm hs, fun inner hinner => ?_⟩
      obtain ⟨w, hw⟩ := fieldForm_standsFor hstands
      rw [show (site.child key).key = key from rfl, hw] at hinner
      cases hinner

lemma ownTextsBelow_cons (key : String) (v : Operand) (rest : Children) :
    ownTextsBelow ((key, v) :: rest) = ownTextsBelow [(key, v)] ++ ownTextsBelow rest := by
  simp [ownTextsBelow]

lemma readsBelow_cons (site : Site) (key : String) (v : Operand) (rest : Children) :
    readsBelow ctx site ((key, v) :: rest) =
      readsBelow ctx site [(key, v)] ++ readsBelow ctx site rest := by
  simp [readsBelow]

mutual

/-- **Elaborating brings in no strings but those of the value and references to what it reads.** -/
lemma elaborate_emits : ∀ (v : Operand) (site : Site) (e : Elaborated) (notes : List Event),
    elaborate ctx site v = ⟨.ok e, notes⟩ →
      Emits ctx (ownTexts v) (reads ctx site v) e.built.unwrap ∧ StandsFor site.key e.built
  | .variable _, _, _, _, h | .raw _, _, _, _, h => by
    cases h
    exact ⟨fun s hs => .inl hs, trivial⟩
  | .simple v, site, e, notes, h => elaborateSimple_emits h
  | .property path, site, e, notes, h => by
    simp only [elaborate, bind_ok_iff] at h
    obtain ⟨r, _, _, hr, h, -⟩ := h
    cases h
    exact ⟨emits_fieldReference hr _, trivial⟩
  | .array elements, site, e, notes, h => by
    simp only [elaborate, bind_ok_iff] at h
    obtain ⟨parts, m, _, hparts, h, -⟩ := h
    cases h
    refine ⟨fun s hs => ?_, trivial⟩
    obtain ⟨v, hv, hs⟩ := mem_evaluatedItems.1 hs
    obtain ⟨part, hpart, rfl⟩ := mem_map.1 hv
    exact elaborateItems_emits elements site parts m hparts part hpart s hs
  | .expression cs, site, e, notes, h => by
    simp only [elaborate, bind_ok_iff] at h
    obtain ⟨parts, m, _, hparts, h, -⟩ := h
    cases h
    have hall := elaborateChildren_emits cs site parts m hparts
    rw [elaborateObject_built]
    refine ⟨fun s hs => ?_, assemble_standsFor (fun b hb => ?_) []⟩
    · rcases evaluated_assemble hs with hs | ⟨b, hb, hs⟩
      · cases hs
      · obtain ⟨part, hpart, rfl⟩ := mem_map.1 hb
        exact (hall part hpart).1 s hs
    · obtain ⟨part, hpart, rfl⟩ := mem_map.1 hb
      exact (hall part hpart).2

lemma elaborateItems_emits : ∀ (vs : List Operand) (site : Site) (parts : List Elaborated)
    (notes : List Event), elaborateItems ctx site vs = ⟨.ok parts, notes⟩ → ∀ part ∈ parts,
      Emits ctx (ownTextsAmong vs) (readsAmong ctx site vs) part.built.unwrap
  | [], _, _, _, h => by
    cases h
    exact nofun
  | v :: rest, site, parts, notes, h => by
    simp only [elaborateItems, bind_ok_iff] at h
    obtain ⟨first, m, _, hfirst, ⟨more, m', _, hmore, h, -⟩, -⟩ := h
    cases h
    rw [forall_mem_cons]
    exact ⟨(elaborate_emits v site first m hfirst).1.mono (subset_append_left _ _)
        (subset_append_left _ _),
      fun part hpart => (elaborateItems_emits rest site more m' hmore part hpart).mono
        (subset_append_right _ _) (subset_append_right _ _)⟩

lemma elaborateChildren_emits : ∀ (cs : Children) (site : Site)
    (parts : List Elaborated) (notes : List Event),
    elaborateChildren ctx site cs = ⟨.ok parts, notes⟩ → ∀ part ∈ parts,
      Emits ctx (ownTextsBelow cs) (readsBelow ctx site cs) part.built.unwrap ∧
        PartOf site.key part.built
  | [], _, _, _, h => by
    cases h
    exact nofun
  | (key, v) :: rest, site, parts, notes, h => by
    simp only [elaborateChildren_cons, bind_ok_iff] at h
    obtain ⟨first, m, _, hfirst, ⟨more, m', _, hmore, h, -⟩, -⟩ := h
    cases h
    obtain ⟨hemits, hpart⟩ := elaborateChild_emits (elaborate_emits v (site.child key)) hfirst
    rw [ownTextsBelow_cons, readsBelow_cons, forall_mem_cons]
    refine ⟨⟨hemits.mono (subset_append_left _ _) (subset_append_left _ _), hpart⟩,
      fun part hmem => ?_⟩
    obtain ⟨hemits, hpart⟩ := elaborateChildren_emits rest site more m' hmore part hmem
    exact ⟨hemits.mono (subset_append_right _ _) (subset_append_right _ _), hpart⟩

end

/-! ### Stages -/

/-- An object is assembled from its fields, unless one of its parts stands for it. -/
lemma assemble_cases {Q : String → Json → Prop} {parts : List Built} {fs : Fields}
    (h : ∀ b ∈ parts, (∃ inner, b = .replace inner) ∨ ∃ key v, Q key v ∧ b = .value (.obj [(key, v)]))
    (hfs : ∀ f ∈ fs, Q f.1 f.2) (hnodup : (Fields.keys fs).Nodup) :
    .replace (assemble parts fs) ∈ parts ∨
      ∃ out, assemble parts fs = .value (.obj out) ∧ (Fields.keys out).Nodup ∧
        ∀ f ∈ out, Q f.1 f.2 := by
  induction parts generalizing fs with
  | nil => exact .inr ⟨fs, rfl, hnodup, hfs⟩
  | cons b rest ih =>
    obtain ⟨⟨inner, rfl⟩ | ⟨key, v, hv, rfl⟩, hrest⟩ := forall_mem_cons.1 h
    · exact .inl mem_cons_self
    · refine (ih hrest (fun f hf => ?_) (Fields.nodup_extend hnodup _)).imp_left (mem_cons_of_mem _)
      rcases Fields.mem_of_mem_extend hf with hf | hf
      · rw [mem_singleton.1 hf]
        exact hv
      · exact hfs f hf

lemma elaborateChildren_fieldForms {parts : List Elaborated}
    (hcs : ∀ c ∈ cs, Path.isOperator c.1 = false)
    (h : elaborateChildren ctx site cs = ⟨.ok parts, notes⟩) :
    ∀ part ∈ parts, ∃ key v, Path.isOperator key = false ∧ part.built = .value (.obj [(key, v)]) := by
  induction cs generalizing parts notes with
  | nil =>
    cases h
    exact nofun
  | cons c rest ih =>
    obtain ⟨key, v⟩ := c
    obtain ⟨hkey, hrest⟩ := forall_mem_cons.1 hcs
    simp only [elaborateChildren_cons, bind_ok_iff] at h
    obtain ⟨first, _, _, hfirst, ⟨more, _, _, hmore, h, -⟩, -⟩ := h
    cases h
    rw [forall_mem_cons]
    refine ⟨?_, ih hrest hmore⟩
    rcases elaborateChild_cases hfirst with ⟨rfl, -⟩ | ⟨-, e, back, he, -, hcase⟩
    · exact absurd (show Path.isOperator ExprOp.expand.key = false from hkey) (by decide +kernel)
    · rcases hcase with ⟨hop, -⟩ | ⟨-, n, hname⟩
      · rw [hkey] at hop
        cases hop
      · simp only [nameField, bind_ok_iff] at hname
        obtain ⟨_, _, _, -, hname, -⟩ := hname
        cases hname
        obtain ⟨w, hw⟩ := fieldForm_standsFor (elaborate_emits v (site.child key) e back he).2
        exact ⟨key, w, hkey, hw⟩

lemma elaborateStage_emits {o : Outcome} (h : elaborateStage ctx v = ⟨.ok o, notes⟩) :
    Emits ctx (ownTextsBelow v.children) (readsBelow ctx (Site.root ctx.kind.key) v.children)
        (.obj o.body) ∧
      ((∀ c ∈ v.children, Path.isOperator c.1 = false) →
        ∀ f ∈ o.body, Path.isOperator f.1 = false) := by
  simp only [elaborateStage, bind_ok_iff] at h
  obtain ⟨parts, m, _, hparts, h, -⟩ := h
  cases h
  refine ⟨fun s hs => ?_, fun hfields => ?_⟩
  · have hs : s ∈ evaluated (assemble (parts.map Elaborated.built) []).unwrap := by
      split at hs
      · next heq => rwa [heq]
      · cases hs
    rcases evaluated_assemble hs with hs | ⟨b, hb, hs⟩
    · cases hs
    · obtain ⟨part, hpart, rfl⟩ := mem_map.1 hb
      exact (elaborateChildren_emits v.children _ parts m hparts part hpart).1 s hs
  · have hall := elaborateChildren_fieldForms hfields hparts
    rcases @assemble_cases (fun key _ => Path.isOperator key = false)
      (parts.map Elaborated.built) [] (fun b hb => by
        obtain ⟨part, hpart, rfl⟩ := mem_map.1 hb
        exact .inr (hall part hpart))
      (fun f hf => (not_mem_nil hf).elim) nodup_nil with hmem | ⟨out, hout, -, hkeys⟩
    · obtain ⟨part, hpart, heq⟩ := mem_map.1 hmem
      obtain ⟨_, _, -, hbuilt⟩ := hall part hpart
      rw [hbuilt] at heq
      cases heq
    · rw [hout]
      exact hkeys

end

end Expression

open Expression

section

variable {ctx : Context} {notes : List Event} {fs : Fields} {v : Operand} {o : Outcome} {s : String}
  {out : StageOutput}

/-! ## Emitted stages -/

/-- The formats and time zones of the dates in a parsed stage. -/
def parsedDateTexts : Except CompileError Operand → List String
  | .ok v => dateTexts v
  | .error _ => []

/-- The formats and time zones of the dates in a stage of output fields. -/
def stageDateTexts (ctx : Context) (value : Json) : List String :=
  parsedDateTexts (if ctx.kind = .group then Group.parse ctx value else Project.parse ctx value)

/-- The body of a stage holds strings of its dates and references to what it reads. -/
def Traced (ctx : Context) (dates paths : List String) (json : Json) : Prop :=
  ∀ s ∈ evaluated json, s.startsWith "$" = true → s ∈ dates ∨ Referenced ctx paths s

lemma Group.evaluated_addLabels (h : s ∈ evaluatedFields (addLabels ctx o).body) :
    s ∈ evaluatedFields o.body := by
  have hlabel : ∀ label w, label ≠ "$literal" → keyLabel? o.body label = some w →
      s ∈ evaluated w → s ∈ evaluatedFields o.body := by
    intro label w hne hw hs
    simp only [keyLabel?, Option.bind_eq_bind, Option.bind_eq_some_iff] at hw
    obtain ⟨key, hkey, found, hfound, hw⟩ := hw
    cases found with
    | str t =>
      dsimp only at hw
      split at hw
      · cases hw
        have hs : s = t := mem_singleton.1 (evaluated_single hs)
        cases key with
        | obj fs =>
          refine mem_evaluatedFields.2 ⟨_, Fields.mem_of_get? hkey, by simp, ?_⟩
          refine mem_evaluatedFields.2 ⟨_, Fields.mem_of_get? hfound, hne, ?_⟩
          exact hs ▸ mem_singleton_self s
        | _ => cases hfound
      · cases hw
    | _ => cases hw
  have hconstant : ∀ t, s ∉ evaluated (constant t) := by
    intro t
    simp [constant, evaluated, evaluatedFields]
  have hadd : ∀ label (w : Option Json) (p : Outcome),
      (∀ v, w = some v → s ∈ evaluated v → s ∈ evaluatedFields o.body) →
      (s ∈ evaluatedFields p.body → s ∈ evaluatedFields o.body) →
      s ∈ evaluatedFields (addLabel label w p).body → s ∈ evaluatedFields o.body := by
    intro label w p hw hp hs
    unfold addLabel at hs
    split at hs
    · split at hs
      · exact hp hs
      · obtain ⟨f, hf, hkey, hs⟩ := mem_evaluatedFields.1 hs
        rcases Fields.mem_of_mem_insert hf with rfl | hf
        · exact hw _ rfl hs
        · exact hp (mem_evaluatedFields.2 ⟨f, hf, hkey, hs⟩)
    · exact hp hs
  refine hadd "type" _ _ (fun v hv hs => ?_) (hadd "object" _ _ (fun v hv hs => ?_) id) h
  · rcases Option.or_eq_some_iff.1 hv with hv | ⟨-, hv⟩
    · exact hlabel "type" v (by decide) hv hs
    · obtain ⟨t, -, rfl⟩ := Option.map_eq_some_iff.1 hv
      exact absurd hs (hconstant t)
  · cases hlabels : keyLabel? o.body "object" with
    | none =>
      rw [hlabels] at hv
      cases hv
      exact absurd hs (hconstant _)
    | some w =>
      rw [hlabels] at hv
      cases hv
      exact hlabel "object" _ (by decide) hlabels hs

lemma Traced.of_subset {dates : List String} {v w : Json} (h : Traced ctx dates paths v)
    (hsub : evaluated w ⊆ evaluated v) : Traced ctx dates paths w :=
  fun s hs => h s (hsub hs)

lemma elaborateStage_traced (hquoted : Quoted (ownTextsBelow v.children) (dateTexts v))
    (h : elaborateStage ctx v = ⟨.ok o, notes⟩) :
    Traced ctx (parsedDateTexts (.ok v)) ((outputReads ctx (.ok v)).map PathRead.path)
      (.obj o.body) := by
  have hpaths : (outputReads ctx (.ok v)).map PathRead.path =
      readsBelow ctx (Site.root ctx.kind.key) v.children := by
    rw [outputReads, readsOf, map_map]
    exact map_id _
  rw [hpaths]
  exact fun s hs hdollar => ((elaborateStage_emits h).1 s hs).imp
    (fun hs => hquoted s hs hdollar) id

lemma Group.compile_traced (h : Group.compile ctx value = ⟨.ok out, notes⟩) :
    Traced ctx (parsedDateTexts (Group.parse ctx value))
      ((outputReads ctx (Group.parse ctx value)).map PathRead.path) out.json := by
  simp only [Group.compile, of_eq, bind_ok_iff] at h
  obtain ⟨v, _, _, hparse, ⟨o, _, _, ho, h, -⟩, -⟩ := h
  injection hparse with hparse _
  cases h
  rw [hparse]
  simp only [Group.parse, except_bind_ok_iff] at hparse
  obtain ⟨_, -, _, -, cs, hcs, hv⟩ := hparse
  cases hv
  exact (@elaborateStage_traced _ _ (.expression cs) _ (parseAll_vetted hcs).1 ho).of_subset
    fun s hs => evaluated_addLabels (evaluated_single hs)

lemma Project.compile_traced (h : Project.compile ctx value = ⟨.ok out, notes⟩) :
    Traced ctx (parsedDateTexts (Project.parse ctx value))
      ((outputReads ctx (Project.parse ctx value)).map PathRead.path) out.json := by
  simp only [Project.compile, of_eq, bind_ok_iff] at h
  obtain ⟨v, _, _, hparse, ⟨o, _, _, ho, h, -⟩, -⟩ := h
  injection hparse with hparse _
  obtain ⟨_, -, -, -, hquoted, hfields⟩ := parse_vetted hparse
  have hbody := elaborateStage_traced hquoted ho
  have hkeys : ∀ f ∈ o.body, f.1 ≠ "$literal" := by
    intro f hf hkey
    have hfield := (elaborateStage_emits ho).2 hfields f hf
    rw [hkey] at hfield
    exact absurd hfield (by decide +kernel)
  rw [hparse]
  split at h
  · cases h
    exact hbody.of_subset fun s hs => evaluated_single hs
  · rw [bind_ok_iff] at h
    obtain ⟨body, _, _, hcollapse, h, -⟩ := h
    injection hcollapse with hcollapse _
    cases h
    simp only [except_bind_ok_iff] at hcollapse
    obtain ⟨selected, hselected, hcollapse⟩ := hcollapse
    cases hcollapse
    refine hbody.of_subset fun s hs => Fields.evaluated_flatten hkeys ?_
    refine evaluated_addDependencies hselected ?_
    obtain ⟨f, hf, hkey, hs⟩ := mem_evaluatedFields.1 (evaluated_single hs)
    exact mem_evaluatedFields.2 ⟨f, mem_of_mem_filter hf, hkey, hs⟩

/-- A localized reference is made of the table of locales, variables and the locale. -/
lemma localizedValue_reference {path locale : String}
    (h : s ∈ evaluated (localizedValue path locale)) (hdollar : s.startsWith "$" = true)
    (hvariable : s.startsWith "$$" = false) : s = "$locales." ++ path ∨ s = locale := by
  have hcases : s = "$locales." ++ path ∨ s = "loc" ∨ s = "$$loc.locale" ∨ s = locale ∨
      s = "$$localize.value" ∨ s = "" := by
    simpa [localizedValue, evaluated, evaluatedFields, evaluatedItems] using h
  rcases hcases with hs | rfl | rfl | hs | rfl | rfl
  · exact .inl hs
  · exact absurd hdollar (by decide +kernel)
  · exact absurd hvariable (by decide +kernel)
  · exact .inr hs
  · exact absurd hvariable (by decide +kernel)
  · exact absurd hdollar (by decide +kernel)

/-- **Every reference that a stage of output fields emits is authorized**: it names a path that the
stage reads, or its table of locales, and each node of the path may be read with all that is above
it.  Only the formats and time zones of dates, and the names of locales, are emitted as they are. -/
theorem references_are_authorized {value : Json} {out : StageOutput}
    (hkind : ctx.kind = .project ∨ ctx.kind = .addFields ∨ ctx.kind = .group)
    (hacl : ctx.skipAcl = false) (h : compileStage ctx value = ⟨.ok out, notes⟩) :
    ∀ s ∈ fieldReferences out.json, (∃ read ∈ stageReads ctx value,
        (s = "$" ++ read.path ∨ s = "$locales." ++ read.path) ∧
        ctx.ClearsRead ctx.kind.counts (requiredAccess notes) read.nodes) ∨
      s ∈ stageDateTexts ctx value ∨ IsLocale ctx s := by
  have hclears := compileStage_clears hacl h
  have htraced : Traced ctx (stageDateTexts ctx value) ((stageReads ctx value).map PathRead.path)
      out.json ∧ ∀ read ∈ stageReads ctx value, read.isOpen = false := by
    simp only [compileStage, bind_ok_iff] at h
    obtain ⟨_, _, _, -, h, -⟩ := h
    have hclosed : ∀ x, ∀ read ∈ outputReads ctx x, read.isOpen = false := by
      intro x read hread
      cases x with
      | error e => cases hread
      | ok v =>
        obtain ⟨path, -, rfl⟩ := List.mem_map.1 hread
        rfl
    rcases hkind with hkind | hkind | hkind
    all_goals simp only [stageReads, stageDateTexts, hkind] at h ⊢
    · exact ⟨Project.compile_traced h, hclosed _⟩
    · exact ⟨Project.compile_traced h, hclosed _⟩
    · exact ⟨Group.compile_traced h, hclosed _⟩
  intro s hs
  simp only [fieldReferences, List.mem_filter, Bool.and_eq_true, Bool.not_eq_true'] at hs
  obtain ⟨hs, hdollar, hvariable⟩ := hs
  rcases htraced.1 s hs hdollar with hdate | ⟨path, hpath, href⟩
  · exact .inr (.inl hdate)
  · obtain ⟨read, hread, rfl⟩ := List.mem_map.1 hpath
    have hcleared := hclears read hread (htraced.2 read hread)
    rcases href with rfl | ⟨locale, hlocale, href⟩
    · exact .inl ⟨read, hread, .inl rfl, hcleared⟩
    · rcases localizedValue_reference href hdollar hvariable with rfl | rfl
      · exact .inl ⟨read, hread, .inr rfl, hcleared⟩
      · exact .inr (.inr hlocale)

end

/-- A schema with a property that nobody may read. -/
def hiddenSchema : Json :=
  .obj [("objects", .arr [.obj [("name", .str "c_pet"), ("properties", .arr [
    .obj [("name", .str "c_name"), ("type", .str "String")],
    .obj [("name", .str "c_born"), ("type", .str "Date")],
    .obj [("name", .str "c_secret"), ("type", .str "String"), ("readAccess", .str "system")]])]])]

def hiddenCatalog : Catalog := ((Catalog.load hiddenSchema).toOption).getD {}

/-- A stage of output fields over that schema. -/
def hiddenContext (kind : StageKind) : Context where
  catalog := hiddenCatalog
  options := { object := "c_pet" }
  indexes := fun _ => []
  kind
  models := ((hiddenCatalog.objectModels "c_pet").toOption).getD []

/-- A name with a text that looks like a reference, and a year. -/
def nameAndYear : Json := .obj [("c_x", .obj [("$concat", .arr [.str "c_name", .str "$c_secret",
    .obj [("$dateToString", .arr [.str "%Y", .str "c_born"])]])])]

/-- The text is emitted as a literal, and the references are authorized. -/
theorem name_and_year_authorized :
    let ctx := hiddenContext .addFields
    ∃ out notes, compileStage ctx nameAndYear = ⟨.ok out, notes⟩ ∧
      fieldReferences out.json = ["$c_name", "$c_born"] ∧ ∀ s ∈ fieldReferences out.json,
        (∃ read ∈ stageReads ctx nameAndYear,
          (s = "$" ++ read.path ∨ s = "$locales." ++ read.path) ∧
          ctx.ClearsRead ctx.kind.counts (requiredAccess notes) read.nodes) ∨
        s ∈ stageDateTexts ctx nameAndYear ∨ IsLocale ctx s := by
  intro ctx
  obtain ⟨out, hresult, hrefs⟩ : ∃ out, (compileStage ctx nameAndYear).result = .ok out ∧
      fieldReferences out.json = ["$c_name", "$c_born"] := exists_eq_ok_and (by decide +kernel)
  have hcompile := eq_ok_of_result hresult
  exact ⟨out, _, hcompile, hrefs, references_are_authorized (.inr (.inl rfl)) rfl hcompile⟩

/-- A year in a time zone that looks like a reference. -/
def yearInZone : Json :=
  .obj [("c_x", .obj [("$dateToString", .arr [.str "%Y", .str "c_born", .str "$c_secret"])])]

/-- **A time zone reads a field that nobody may read**: it is emitted as a reference that the stage
has not read. -/
theorem zone_reads_hidden_field :
    let ctx := hiddenContext .project
    ∃ out, (compileStage ctx yearInZone).result = .ok out ∧ "$c_secret" ∈ fieldReferences out.json ∧
      (∀ read ∈ stageReads ctx yearInZone, read.path ≠ "c_secret") ∧
      ∃ id ∈ readNodesOf ctx "c_secret", ¬ctx.Clears id := by
  intro ctx
  obtain ⟨out, hresult, hrefs⟩ : ∃ out, (compileStage ctx yearInZone).result = .ok out ∧
      "$c_secret" ∈ fieldReferences out.json := exists_eq_ok_and (by decide +kernel)
  obtain ⟨id, hid, hsystem⟩ : ∃ id ∈ readNodesOf ctx "c_secret",
      (ctx.catalog.node id).readAccess = .system := by
    decide +kernel
  refine ⟨out, hresult, hrefs, by decide +kernel, id, hid, fun hclears => ?_⟩
  exact Bool.false_ne_true (hclears.system hsystem)

end Conduit
