import Conduit.Proofs.Authorization
import Conduit.Proofs.Reads
import Conduit.Schema.Load

/-!
# Authorization is complete

Whatever a stage of a compiled pipeline reads has been authorized, up to the top of the document,
and counts for the required access where the stage tells something about its values
(`compile_authorizes_reads`).

Each stage has a walk of its own, so there is one lemma for each: `Match.compile_clears`,
`Sort.compile_clears`, `Unwind.compile_clears` and, over all expressions,
`Expression.elaborateChildren_ok`.  Operators that compare with placeholders only are not checked
at all: `placeholder_escapes_entries` is such a match.
-/

namespace Conduit

open Journaled

/-- All that a path may mean, and all that lies above, may be read by the stage. -/
def Context.ClearsRead (ctx : Context) (counts : Bool) (access : AccessLevel)
    (nodes : List NodeId) : Prop :=
  ∀ id ∈ nodes, ctx.ClearsAll counts access (ctx.catalog.lineage id)

lemma Context.ClearsRead.mono {ctx : Context} {counts : Bool} {low high : AccessLevel}
    {nodes : List NodeId} (h : ctx.ClearsRead counts low nodes) (hle : low ≤ high) :
    ctx.ClearsRead counts high nodes :=
  fun id hid => (h id hid).mono hle

/-- One node more is cleared by the check of its lineage, with what comes later in the journal. -/
lemma Context.ClearsRead.cons {ctx : Context} {counts : Bool} {refuses : NodeId → Bool}
    {fault : String → Fault} {path : String} {id : NodeId} {rest : List NodeId}
    {m n n' : List Event} (hacl : ctx.skipAcl = false)
    (hid : ctx.checkLineage counts refuses fault path (ctx.catalog.lineage id) = ⟨.ok (), m⟩)
    (hrest : ctx.ClearsRead counts (requiredAccess n) rest) (hn : n <:+: n') :
    ctx.ClearsRead counts (requiredAccess (m ++ n')) (id :: rest) :=
  List.forall_mem_cons.2 ⟨(checkLineage_ok hacl hid).mono (requiredAccess_le_append_left _ _),
    hrest.mono (requiredAccess_mono (hn.trans (List.suffix_append m n').isInfix))⟩

end Conduit

/-! ## Matches -/

namespace Conduit.Match

open Journaled List

variable {ctx : Context} {notes : List Event}

variable {f : Findings} {trail : Trail} {xs ys : List LeafAt} {element : Nat}
  {elements : List Operand}

lemma checkNodes_ok (hacl : ctx.skipAcl = false) {ids : List NodeId}
    (h : checkNodes ctx trail ids = ⟨.ok f, notes⟩) :
    ctx.ClearsRead true (requiredAccess notes) ids := by
  induction ids generalizing f notes with
  | nil => exact nofun
  | cons id rest ih =>
    simp only [checkNodes, bind_ok_iff, guard_ok_iff] at h
    obtain ⟨_, m, n, hid, ⟨-, g, m', n', hrest, -, rfl⟩, rfl⟩ := h
    exact .cons hacl hid (ih hrest) ⟨[], n', rfl⟩

lemma checkProperty_ok (hacl : ctx.skipAcl = false) (h : checkProperty ctx trail = ⟨.ok f, notes⟩) :
    ctx.ClearsRead true (requiredAccess notes) (trailNodes trail) := by
  simp only [checkProperty, bind_ok_iff] at h
  obtain ⟨c, m, n, hc, h, rfl⟩ := h
  cases c with
  | none => cases h
  | some c =>
    simp only [bind_ok_iff] at h
    obtain ⟨g, m', n', hnodes, -, rfl⟩ := h
    rw [trailNodes_eq (congrArg result hc)]
    exact (checkNodes_ok hacl hnodes).mono (requiredAccess_mono ⟨m, n', by simp⟩)

/-- Every leaf that compares with something, and not with placeholders only, is checked, and what
the check finds is among the findings. -/
def ChecksLeaves (ctx : Context) (f : Findings) (notes : List Event)
    (leaves : List LeafAt) : Prop :=
  ∀ leaf ∈ leaves, isEmptyLeaf leaf.2 = false → isOpenLeaf leaf.1.site leaf.2 = false →
    ∃ g m, checkProperty ctx leaf.1 = ⟨.ok g, m⟩ ∧ g.checks ⊆ f.checks ∧ m <:+: notes

lemma checksLeaves_nil : ChecksLeaves ctx f notes [] := nofun

lemma ChecksLeaves.append (hx : ChecksLeaves ctx f notes xs) (hy : ChecksLeaves ctx f notes ys) :
    ChecksLeaves ctx f notes (xs ++ ys) :=
  fun leaf hleaf => (mem_append.1 hleaf).elim (hx leaf) (hy leaf)

lemma ChecksLeaves.both {g : Findings} {m n : List Event} (hx : ChecksLeaves ctx f m xs)
    (hy : ChecksLeaves ctx g n ys) : ChecksLeaves ctx (f ++ g) (m ++ n) (xs ++ ys) := by
  intro leaf hleaf hempty hopen
  rcases mem_append.1 hleaf with hleaf | hleaf
  · obtain ⟨found, m', hfound, hchecks, hnotes⟩ := hx leaf hleaf hempty hopen
    exact ⟨found, m', hfound, fun _ hc => mem_append_left _ (hchecks hc),
      hnotes.trans (prefix_append m n).isInfix⟩
  · obtain ⟨found, m', hfound, hchecks, hnotes⟩ := hy leaf hleaf hempty hopen
    exact ⟨found, m', hfound, fun _ hc => mem_append_right _ (hchecks hc),
      hnotes.trans (suffix_append m n).isInfix⟩

lemma checksLeaves_singleton {v : Operand} (h : checkProperty ctx trail = ⟨.ok f, notes⟩) :
    ChecksLeaves ctx f notes [(trail, v)] := by
  intro leaf hleaf _ _
  cases mem_singleton.1 hleaf
  exact ⟨f, notes, h, fun _ => id, infix_rfl⟩

lemma leavesAmong_eq_nil (h : ∀ v ∈ elements, v.isExpression = false) :
    leavesAmong ctx trail element elements = [] := by
  induction elements generalizing element with
  | nil => rfl
  | cons v rest ih =>
    cases v <;> simp_all [leavesAmong, Operand.isExpression]

lemma checkAllElements_literal (hsimple : elements.any Operand.isSimple = true)
    (hexpr : elements.any Operand.isExpression = false) :
    checkAllElements ctx trail element elements = checkProperty ctx trail := by
  induction elements generalizing element with
  | nil => cases hsimple
  | cons v rest ih =>
    cases v with
    | simple _ => simp only [checkAllElements]
    | expression _ => cases hexpr
    | «variable» _ | array _ | property _ | raw _ =>
      exact ih hsimple hexpr

mutual

lemma checkComponent_leaves : ∀ (v : Operand) (trail : Trail)
    (f : Findings) (notes : List Event), trail ≠ [] → Shaped trail.site v →
    checkComponent ctx trail v = ⟨.ok f, notes⟩ → ChecksLeaves ctx f notes (leaves ctx trail v)
  | .variable name, trail, f, notes, _, _, h => by
    simp only [checkComponent] at h
    split at h
    · next hop =>
      intro leaf hleaf _ hopen
      cases mem_singleton.1 hleaf
      simp [isOpenLeaf, hop] at hopen
    · exact checksLeaves_singleton h
  | .expression cs, trail, f, notes, htrail, hshape, h => by
    exact checkChildren_leaves cs trail 0 0 f notes htrail hshape.2 h
  | .array elements, trail, f, notes, htrail, hshape, h => by
    rcases hshape with ⟨hop, hflat⟩ | ⟨hop, hunmixed, hshape⟩ | ⟨hop, hshape⟩
    · -- A value list: one leaf, checked unless it is empty.
      have hself : leaves ctx trail (.array elements) = [(trail, .array elements)] := by
        rcases hop with hop | hop <;> simp [leaves, holdsConditions, hop, leavesAmong_eq_nil hflat]
      have hcheck : (if elements.isEmpty then pure {} else checkProperty ctx trail) =
          (⟨.ok f, notes⟩ : Compile Findings) := by
        rcases hop with hop | hop <;> simpa only [checkComponent, hop] using h
      rw [hself]
      cases elements with
      | nil =>
        intro leaf hleaf hempty
        cases mem_singleton.1 hleaf
        cases hempty
      | cons v rest => exact checksLeaves_singleton hcheck
    · simp only [checkComponent, hop] at h
      cases hlit : elements.any Operand.isSimple with
      | true =>
        -- With a literal, there are no objects, and the list itself is the one leaf.
        rw [hlit, Bool.true_and] at hunmixed
        rw [checkAllElements_literal hlit hunmixed] at h
        have hflat : ∀ v ∈ elements, v.isExpression = false := by
          simpa [any_eq_false] using hunmixed
        rw [leaves, leavesAmong_eq_nil hflat, append_nil]
        split
        · exact checksLeaves_nil
        · exact checksLeaves_singleton h
      | false =>
        -- Without one, the list itself is open, and the objects are checked one by one.
        rw [← checkElements_eq (by simpa using hlit)] at h
        refine .append ?_ (checkElements_leaves elements trail 0 f notes htrail hshape h)
        split
        · exact checksLeaves_nil
        · intro leaf hleaf _ hopen
          cases mem_singleton.1 hleaf
          simp [isOpenLeaf, hop, hlit] at hopen
    · have hcheck : checkElements ctx trail 0 elements = ⟨.ok f, notes⟩ := by
        rcases hop with hop | hop <;> simpa only [checkComponent, hop] using h
      have hself : leaves ctx trail (.array elements) = leavesAmong ctx trail 0 elements := by
        rcases hop with hop | hop <;> simp [leaves, holdsConditions, hop]
      rw [hself]
      exact checkElements_leaves elements trail 0 f notes htrail hshape hcheck
  | .simple v, trail, f, notes, _, hshape, h => by
    simp only [checkComponent] at h
    split at h
    case h_1 =>
      simp only [bind_ok_iff] at h
      obtain ⟨g, m, n, hg, ⟨_, _, _, -, hf, -⟩, rfl⟩ := h
      cases hf
      intro leaf hleaf _ _
      cases mem_singleton.1 hleaf
      exact ⟨f, m, hg, fun _ => id, (prefix_append m n).isInfix⟩
    case h_8 => exact checksLeaves_singleton h
    -- The other operators hold no literal.
    all_goals next hop => cases hshape _ hop
  | .property _, _, _, _, _, hshape, _ | .raw _, _, _, _, _, hshape, _ => hshape.elim

lemma checkChildren_leaves : ∀ (cs : Children)
    (trail : Trail) (element index : Nat) (f : Findings) (notes : List Event), trail ≠ [] →
    ShapedChildren trail.site cs → checkChildren ctx trail element index cs = ⟨.ok f, notes⟩ →
      ChecksLeaves ctx f notes (leavesBelow ctx trail element index cs)
  | [], _, _, _, _, _, _, _, _ => checksLeaves_nil
  | (key, v) :: rest, trail, element, index, f, notes, htrail, hshape, h => by
    simp only [checkChildren, bind_ok_iff] at h
    obtain ⟨first, m, n, hfirst, ⟨g, m', n', hrest, hf, rfl⟩, rfl⟩ := h
    cases hf
    rw [append_nil]
    refine .both ?_ (checkChildren_leaves rest trail element (index + 1) g m' htrail hshape.2 hrest)
    refine checkComponent_leaves v _ first m (child_ne_nil htrail _ _ _ _) ?_ hfirst
    rw [site_child htrail]
    exact hshape.1

lemma checkElements_leaves : ∀ (elements : List Operand)
    (trail : Trail) (element : Nat) (f : Findings) (notes : List Event), trail ≠ [] →
    ShapedElements trail.site elements → checkElements ctx trail element elements = ⟨.ok f, notes⟩ →
      ChecksLeaves ctx f notes (leavesAmong ctx trail element elements)
  | [], _, _, _, _, _, _, _ => checksLeaves_nil
  | v :: rest, trail, element, f, notes, htrail, hshape, h => by
    cases v with
    | expression cs =>
      simp only [checkElements, bind_ok_iff] at h
      obtain ⟨first, m, n, hfirst, ⟨g, m', n', hrest, hf, rfl⟩, rfl⟩ := h
      cases hf
      rw [append_nil]
      exact .both (checkChildren_leaves cs trail element 0 first m htrail hshape.1 hfirst)
        (checkElements_leaves rest trail (element + 1) g m' htrail hshape.2 hrest)
    | _ =>
      exact checkElements_leaves rest trail (element + 1) f notes htrail hshape h

end

/-- **A match clears what it compares**, except with placeholders only. -/
lemma compile_clears (hacl : ctx.skipAcl = false) (hkind : ctx.kind = .match) {value : Json}
    {output : StageOutput} (h : Match.compile ctx value = ⟨.ok output, notes⟩) :
    ∀ read ∈ Match.reads ctx value, read.isOpen = false →
      ctx.ClearsRead true (requiredAccess notes) read.nodes := by
  simp only [Match.compile, Trail.root, of_eq, bind_ok_iff] at h
  obtain ⟨v, m₁, n₁, hparse, ⟨models, m₂, n₂, -, ⟨properties, m₃, n₃, -, ⟨f, m₄, n₄, hcheck, -, rfl⟩,
    rfl⟩, rfl⟩, rfl⟩ := h
  injection hparse with hparse _
  have hshape : ShapedChildren (Trail.root ctx v).site v.children := by
    show ShapedChildren (Site.root ctx.kind.key) v.children
    rw [hkind]
    exact parse_shaped hparse
  have hleaves := checkChildren_leaves v.children _ 0 0 f m₄ (root_ne_nil ctx v) hshape hcheck
  intro read hread hopen
  simp only [Match.reads, hparse, matchLeaves, mem_map, mem_filter] at hread
  obtain ⟨leaf, ⟨hleaf, hempty⟩, rfl⟩ := hread
  obtain ⟨g, m, hg, -, hnotes⟩ := hleaves leaf hleaf (by simpa using hempty) hopen
  refine (checkProperty_ok hacl hg).mono (requiredAccess_mono (hnotes.trans ?_))
  exact ⟨m₁ ++ (m₂ ++ m₃), n₄, by simp⟩

end Conduit.Match

/-! ## Sorts and unwinds -/

namespace Conduit.Sort

open Journaled

variable {ctx : Context} {notes : List Event} {path : String} {properties : List Candidate}
  (hacl : ctx.skipAcl = false)

include hacl

lemma survey_ok {ids : List NodeId} {a b : Survey} (h : survey ctx path ids a = ⟨.ok b, notes⟩) :
    ctx.ClearsRead true (requiredAccess notes) ids := by
  induction ids generalizing a notes with
  | nil => exact nofun
  | cons id rest ih =>
    simp only [survey, bind_ok_iff, guard_ok_iff] at h
    obtain ⟨_, m, n, hid, ⟨-, c, m', n', -, hrest, rfl⟩, rfl⟩ := h
    exact .cons hacl hid (ih hrest) ⟨m', [], List.append_nil _⟩

lemma sortKey_ok {key : String × List (String × NodeId)}
    (h : sortKey ctx properties path = ⟨.ok key, notes⟩) :
    ctx.ClearsRead true (requiredAccess notes) (Candidate.nodesOf properties path) := by
  simp only [sortKey] at h
  split at h
  · cases h
  · next c hc =>
    simp only [bind_ok_iff, guard_ok_iff] at h
    obtain ⟨-, s, m, n, hs, -, rfl⟩ := h
    rw [Candidate.nodesOf, hc]
    exact (survey_ok hacl hs).mono (requiredAccess_le_append_left _ _)

lemma sortKeys_ok {fields : List (String × Direction)}
    {keys : Fields} {checks : List (String × NodeId)} {found : Fields × List (String × NodeId)}
    (h : sortKeys ctx properties fields keys checks = ⟨.ok found, notes⟩) :
    ∀ f ∈ fields, ctx.ClearsRead true (requiredAccess notes)
      (Candidate.nodesOf properties f.1) := by
  induction fields generalizing keys checks notes with
  | nil => exact nofun
  | cons first rest ih =>
    simp only [sortKeys, bind_ok_iff] at h
    obtain ⟨key, m, n, hkey, hrest, rfl⟩ := h
    intro f hf
    rcases List.mem_cons.1 hf with rfl | hf
    · exact (sortKey_ok hacl hkey).mono (requiredAccess_le_append_left _ _)
    · exact (ih hrest f hf).mono (requiredAccess_le_append_right _ _)

/-- **A sort clears what it orders by.** -/
lemma compile_clears {value : Json} {output : StageOutput}
    (h : Sort.compile ctx value = ⟨.ok output, notes⟩) :
    ∀ read ∈ Sort.reads ctx value, ctx.ClearsRead true (requiredAccess notes) read.nodes := by
  simp only [Sort.compile, of_eq, bind_ok_iff] at h
  obtain ⟨fields, m₁, n₁, hparse, ⟨properties, m₂, n₂, hcandidates, ⟨found, m₃, n₃, hkeys, -, rfl⟩,
    rfl⟩, rfl⟩ := h
  injection hparse with hparse _
  injection hcandidates with hcandidates _
  intro read hread
  simp only [Sort.reads, hparse, hcandidates, List.mem_map] at hread
  obtain ⟨f, hf, rfl⟩ := hread
  exact (sortKeys_ok hacl hkeys f hf).mono (requiredAccess_mono ⟨m₁ ++ m₂, n₃, by simp⟩)

end Conduit.Sort

namespace Conduit.Unwind

open Journaled

variable {ctx : Context} {notes : List Event}

lemma checkNodes_ok (hacl : ctx.skipAcl = false) {path : String} {ids : List NodeId} {u : Unit}
    (h : checkNodes ctx path ids = ⟨.ok u, notes⟩) :
    ctx.ClearsRead false (requiredAccess notes) ids := by
  induction ids generalizing notes with
  | nil => exact nofun
  | cons id rest ih =>
    simp only [checkNodes, bind_ok_iff] at h
    obtain ⟨_, m, n, hid, hrest, rfl⟩ := h
    exact .cons hacl hid (ih hrest) (List.infix_refl _)

/-- **An unwind clears its path.** -/
lemma compile_clears (hacl : ctx.skipAcl = false) {value : Json} {output : StageOutput}
    (h : Unwind.compile ctx value = ⟨.ok output, notes⟩) :
    ∀ read ∈ Unwind.reads ctx value, ctx.ClearsRead false (requiredAccess notes) read.nodes := by
  simp only [Unwind.compile, of_eq, bind_ok_iff] at h
  obtain ⟨v, m, n, hv, h, rfl⟩ := h
  injection hv with hv _
  intro read hread
  simp only [Unwind.reads, Unwind.path?] at hread
  rw [show (fieldsOf value >>= pathOf) = .ok v from hv] at hread
  split at h
  · next name hname => simp [hname] at hread
  · next hname =>
    simp only [bind_ok_iff] at h
    obtain ⟨path, m', n', hpath, ⟨properties, m₂, n₂, hcandidates, h, rfl⟩, rfl⟩ := h
    injection hpath with hpath _
    injection hcandidates with hcandidates _
    simp only [hname, Option.isSome_none, Bool.false_eq_true, if_false, hpath, Except.toOption,
      hcandidates, List.mem_singleton] at hread
    subst hread
    split at h
    · simp only [throw_eq, error_bind, mk.injEq, reduceCtorEq, false_and] at h
    · next c hc =>
      simp only [bind_ok_iff] at h
      obtain ⟨_, m₃, n₃, hnodes, -, rfl⟩ := h
      simp only [Candidate.nodesOf, hc]
      exact (checkNodes_ok hacl hnodes).mono (requiredAccess_mono ⟨m ++ (m' ++ m₂), n₃, by simp⟩)

end Conduit.Unwind

/-! ## Expressions -/

namespace Conduit.Expression

open Journaled List

variable {ctx : Context} {notes : List Event}

variable {site : Site} {inclusion : Bool} {path : String} {r : Reading} {v : Operand}
  {e : Elaborated}

lemma readNodes_ok (hacl : ctx.skipAcl = false) {ids : List NodeId} {u : Unit}
    (h : readNodes ctx site inclusion ids = ⟨.ok u, notes⟩) :
    ctx.ClearsRead (ctx.kind = .group) (requiredAccess notes) ids := by
  induction ids generalizing notes with
  | nil => exact nofun
  | cons id rest ih =>
    simp only [readNodes, bind_ok_iff] at h
    obtain ⟨_, m, n, hid, h, rfl⟩ := h
    have hrest : ∃ m' n', readNodes ctx site inclusion rest = ⟨.ok u, n'⟩ ∧ n = m' ++ n' := by
      split at h
      · simp only [bind_ok_iff] at h
        obtain ⟨_, m', n', -, hrest, rfl⟩ := h
        exact ⟨m', n', hrest, rfl⟩
      · exact ⟨[], n, h, rfl⟩
    obtain ⟨m', n', hrest, rfl⟩ := hrest
    exact .cons hacl hid (ih hrest) ⟨m', [], append_nil _⟩

lemma read_ok (hacl : ctx.skipAcl = false) (h : read ctx site path inclusion = ⟨.ok r, notes⟩) :
    ctx.ClearsRead (ctx.kind = .group) (requiredAccess notes) (readNodesOf ctx path) := by
  simp only [read] at h
  split at h
  · next hempty =>
    rw [readNodesOf, isEmpty_iff.1 hempty]
    exact nofun
  · simp only [bind_ok_iff] at h
    obtain ⟨_, m, n, hnodes, -, rfl⟩ := h
    exact (readNodes_ok hacl hnodes).mono (requiredAccess_le_append_left _ _)

/-- All these paths are cleared. -/
def ClearsPaths (ctx : Context) (access : AccessLevel) (paths : List String) : Prop :=
  ∀ path ∈ paths, ctx.ClearsRead (ctx.kind = .group) access (readNodesOf ctx path)

lemma ClearsPaths.mono {low high : AccessLevel} {paths : List String}
    (h : ClearsPaths ctx low paths) (hle : low ≤ high) : ClearsPaths ctx high paths :=
  fun path hpath => (h path hpath).mono hle

lemma clearsPaths_nil {access : AccessLevel} : ClearsPaths ctx access [] :=
  nofun

lemma ClearsPaths.both {m n : List Event} {xs ys : List String}
    (hx : ClearsPaths ctx (requiredAccess m) xs) (hy : ClearsPaths ctx (requiredAccess n) ys) :
    ClearsPaths ctx (requiredAccess (m ++ n)) (xs ++ ys) := by
  intro path hpath
  rcases mem_append.1 hpath with hpath | hpath
  · exact (hx path hpath).mono (requiredAccess_le_append_left _ _)
  · exact (hy path hpath).mono (requiredAccess_le_append_right _ _)

section

variable (hacl : ctx.skipAcl = false)

include hacl

lemma clearsPaths_of_read (h : read ctx site path inclusion = ⟨.ok r, notes⟩) :
    ClearsPaths ctx (requiredAccess notes) [path] := by
  intro other hother
  cases mem_singleton.1 hother
  exact read_ok hacl h

lemma elaborateSimple_ok {v : Json} (h : elaborateSimple ctx site v = ⟨.ok e, notes⟩) :
    ClearsPaths ctx (requiredAccess notes) (reads ctx site (.simple v)) := by
  simp only [elaborateSimple] at h
  rw [reads]
  split at h
  · next hop =>
    rw [if_pos hop]
    exact clearsPaths_nil
  · next hop =>
    rw [if_neg hop]
    simp only [bind_ok_iff] at h
    obtain ⟨r, m, n, hr, -, rfl⟩ := h
    exact (clearsPaths_of_read hacl hr).mono (requiredAccess_le_append_left _ _)

lemma elaborateExpand_ok (h : elaborateExpand ctx site v = ⟨.ok e, notes⟩) :
    ClearsPaths ctx (requiredAccess notes) [site.propertyPath] := by
  simp only [elaborateExpand] at h
  split at h
  · simp only [throw_eq, error_bind, mk.injEq, reduceCtorEq, false_and] at h
  · simp only [bind_ok_iff] at h
    obtain ⟨r, m, n, hr, -, rfl⟩ := h
    exact (clearsPaths_of_read hacl hr).mono (requiredAccess_le_append_left _ _)

end

/-- A field or operator of an expression with its elaborated value: its own round of
`elaborateChildren`. -/
def elaborateChild (ctx : Context) (site : Site) (key : String) (v : Operand) :
    Compile Elaborated :=
  if key = ExprOp.expand.key then elaborateExpand ctx (site.child key) v
  else if Path.isOperator key then
    elaborate ctx (site.child key) v >>= applyOperator ctx (site.child key)
  else do
    if ctx.kind = .project then of (checkRename ctx (site.child key) v)
    nameField ctx (site.child key) (← elaborate ctx (site.child key) v)

lemma elaborateChildren_cons (site : Site) (key : String) (v : Operand) (rest : Children) :
    elaborateChildren ctx site ((key, v) :: rest) = (do
      let first ← elaborateChild ctx site key v
      return first :: (← elaborateChildren ctx site rest)) := by
  rw [elaborateChildren, elaborateChild]
  split
  · rfl
  · split
    · simp only [bind_assoc]
    · split
      · simp only [bind_assoc]
      · simp only [bind_assoc]

/-- What becomes of a field or operator: an expansion stands for itself, and otherwise the value
is elaborated first. -/
lemma elaborateChild_cases {key : String} {first : Elaborated}
    (h : elaborateChild ctx site key v = ⟨.ok first, notes⟩) :
    (key = ExprOp.expand.key ∧ elaborateExpand ctx (site.child key) v = ⟨.ok first, notes⟩) ∨
      (key ≠ ExprOp.expand.key ∧ ∃ e m, elaborate ctx (site.child key) v = ⟨.ok e, m⟩ ∧
        m <:+: notes ∧
        ((Path.isOperator key = true ∧ ∃ n, applyOperator ctx (site.child key) e = ⟨.ok first, n⟩) ∨
          (Path.isOperator key = false ∧
            ∃ n, nameField ctx (site.child key) e = ⟨.ok first, n⟩))) := by
  simp only [elaborateChild] at h
  split at h
  · next hkey => exact .inl ⟨hkey, h⟩
  · next hkey =>
    refine .inr ⟨hkey, ?_⟩
    split at h
    · next hop =>
      simp only [bind_ok_iff] at h
      obtain ⟨e, m, n, he, h, rfl⟩ := h
      exact ⟨e, m, he, ⟨[], n, by simp⟩, .inl ⟨hop, n, h⟩⟩
    · next hop =>
      have hop : Path.isOperator key = false := by simpa using hop
      split at h
      · simp only [bind_ok_iff] at h
        obtain ⟨_, front, _, -, ⟨e, m, n, he, h, rfl⟩, rfl⟩ := h
        exact ⟨e, m, he, ⟨front, n, by simp⟩, .inr ⟨hop, n, h⟩⟩
      · simp only [bind_ok_iff] at h
        obtain ⟨e, m, n, he, h, rfl⟩ := h
        exact ⟨e, m, he, ⟨[], n, by simp⟩, .inr ⟨hop, n, h⟩⟩

mutual

lemma elaborate_ok (hacl : ctx.skipAcl = false) : ∀ (v : Operand) (site : Site) (e : Elaborated)
    (notes : List Event), elaborate ctx site v = ⟨.ok e, notes⟩ →
      ClearsPaths ctx (requiredAccess notes) (reads ctx site v)
  | .variable _, _, _, _, _ | .raw _, _, _, _, _ => clearsPaths_nil
  | .simple v, site, e, notes, h => elaborateSimple_ok hacl h
  | .property path, site, e, notes, h => by
    simp only [elaborate, bind_ok_iff] at h
    obtain ⟨r, m, n, hr, -, rfl⟩ := h
    exact (clearsPaths_of_read hacl hr).mono (requiredAccess_le_append_left _ _)
  | .array elements, site, e, notes, h => by
    simp only [elaborate, bind_ok_iff] at h
    obtain ⟨parts, m, n, hparts, -, rfl⟩ := h
    exact (elaborateItems_ok hacl elements site parts m hparts).mono
      (requiredAccess_le_append_left _ _)
  | .expression cs, site, e, notes, h => by
    simp only [elaborate, bind_ok_iff] at h
    obtain ⟨parts, m, n, hparts, -, rfl⟩ := h
    exact (elaborateChildren_ok hacl cs site parts m hparts).mono
      (requiredAccess_le_append_left _ _)

lemma elaborateItems_ok (hacl : ctx.skipAcl = false) : ∀ (vs : List Operand) (site : Site)
    (parts : List Elaborated) (notes : List Event),
    elaborateItems ctx site vs = ⟨.ok parts, notes⟩ →
      ClearsPaths ctx (requiredAccess notes) (readsAmong ctx site vs)
  | [], _, _, _, _ => clearsPaths_nil
  | v :: rest, site, parts, notes, h => by
    simp only [elaborateItems, bind_ok_iff] at h
    obtain ⟨first, m, n, hfirst, ⟨more, m', n', hrest, hparts, rfl⟩, rfl⟩ := h
    cases hparts
    rw [append_nil]
    exact .both (elaborate_ok hacl v site first m hfirst)
      (elaborateItems_ok hacl rest site more m' hrest)

lemma elaborateChildren_ok (hacl : ctx.skipAcl = false) : ∀ (cs : Children)
    (site : Site) (parts : List Elaborated) (notes : List Event),
    elaborateChildren ctx site cs = ⟨.ok parts, notes⟩ →
      ClearsPaths ctx (requiredAccess notes) (readsBelow ctx site cs)
  | [], _, _, _, _ => clearsPaths_nil
  | (key, v) :: rest, site, parts, notes, h => by
    simp only [elaborateChildren_cons, bind_ok_iff] at h
    obtain ⟨first, m, n, hfirst, ⟨more, m', n', hrest, hparts, rfl⟩, rfl⟩ := h
    cases hparts
    rw [append_nil]
    refine .both ?_ (elaborateChildren_ok hacl rest site more m' hrest)
    rcases elaborateChild_cases hfirst with ⟨hkey, hexpand⟩ | ⟨hkey, e, back, he, hpart, -⟩
    · rw [if_pos hkey]
      exact elaborateExpand_ok hacl hexpand
    · rw [if_neg hkey]
      exact (elaborate_ok hacl v _ e back he).mono (requiredAccess_mono hpart)

end

end Conduit.Expression

/-! ## Stages and pipelines -/

namespace Conduit

open Journaled

variable {ctx : Context} {notes : List Event}

/-- The stages that tell something about the values they read, and so need their level of the
whole pipeline. -/
def StageKind.counts : StageKind → Bool
  | .match | .sort | .group => true
  | _ => false

lemma Expression.elaborateStage_ok (hacl : ctx.skipAcl = false) {v : Operand} {o : Outcome}
    (h : elaborateStage ctx v = ⟨.ok o, notes⟩) : ∀ read ∈ readsOf ctx v,
      ctx.ClearsRead (ctx.kind = .group) (requiredAccess notes) read.nodes := by
  simp only [elaborateStage, bind_ok_iff] at h
  obtain ⟨parts, m, n, hparts, -, rfl⟩ := h
  intro read hread
  obtain ⟨path, hpath, rfl⟩ := List.mem_map.1 hread
  exact (elaborateChildren_ok hacl v.children _ parts m hparts path hpath).mono
    (requiredAccess_le_append_left _ _)

variable {output : StageOutput} {value : Json}

lemma Expression.output_clears (hacl : ctx.skipAcl = false) {parsed : Except CompileError Operand}
    {rest : Operand → Outcome → Compile StageOutput}
    (h : (Journaled.of parsed >>= fun v => elaborateStage ctx v >>= rest v) =
      ⟨.ok output, notes⟩) : ∀ read ∈ outputReads ctx parsed,
      ctx.ClearsRead (ctx.kind = .group) (requiredAccess notes) read.nodes := by
  simp only [of_eq, bind_ok_iff] at h
  obtain ⟨v, m, n, hparse, ⟨o, m', n', ho, -, rfl⟩, rfl⟩ := h
  injection hparse with hparse _
  rw [hparse]
  intro read hread
  exact (elaborateStage_ok hacl ho read hread).mono (requiredAccess_mono ⟨m, n', by simp⟩)

/-- **A stage clears what it reads**, except what it compares with placeholders only. -/
lemma compileStage_clears (hacl : ctx.skipAcl = false)
    (h : compileStage ctx value = ⟨.ok output, notes⟩) :
    ∀ read ∈ stageReads ctx value, read.isOpen = false →
      ctx.ClearsRead ctx.kind.counts (requiredAccess notes) read.nodes := by
  simp only [compileStage, bind_ok_iff] at h
  obtain ⟨_, m, n, -, h, rfl⟩ := h
  intro read hread hopen
  refine Context.ClearsRead.mono ?_ (requiredAccess_le_append_right m n)
  cases hkind : ctx.kind
  all_goals simp only [stageReads, hkind] at hread h
  case «match» => exact Match.compile_clears hacl hkind h read hread hopen
  case sort => exact Sort.compile_clears hacl h read hread
  case group | project | addFields =>
    simpa [hkind, StageKind.counts] using Expression.output_clears hacl h read hread
  case unwind => exact Unwind.compile_clears hacl h read hread
  case limit | skip => cases hread

namespace Pipeline

variable {s : Setting} {p : Progress} {position : Nat} {stage : PendingStage}
  {rest stages : List PendingStage} {outputs : List (CompiledStage × StageOutput)}

/-- A stage of a run that succeeds, and the rest of the run. -/
lemma compileFrom_cons_ok (h : compileFrom s position (stage :: rest) p = ⟨.ok outputs, notes⟩) :
    ∃ output next more m m' n,
      compileStage (contextOf s position (rest.map PendingStage.kind) stage p) stage.value =
          ⟨.ok output, m⟩ ∧
        advance s (contextOf s position (rest.map PendingStage.kind) stage p) output p =
          ⟨.ok next, m'⟩ ∧
        compileFrom s (position + 1) rest next = ⟨.ok more, n⟩ ∧
        (∃ first : CompiledStage, first.kind = stage.kind ∧ outputs = (first, output) :: more) ∧
        notes = m ++ (m' ++ n) := by
  simp only [compileFrom, bind_ok_iff] at h
  obtain ⟨output, m, n, hstage, ⟨next, m', n', hnext, ⟨more, m'', n'', hmore, hout, rfl⟩, rfl⟩,
    rfl⟩ := h
  cases hout
  exact ⟨output, next, more, m, m', m'', hstage, hnext, hmore, ⟨_, rfl, rfl⟩, by simp⟩

lemma reachedFrom_cons {next : Progress} {m m' : List Event}
    (hstage : compileStage (contextOf s position (rest.map PendingStage.kind) stage p) stage.value =
      ⟨.ok output, m⟩)
    (hnext : advance s (contextOf s position (rest.map PendingStage.kind) stage p) output p =
      ⟨.ok next, m'⟩) :
    reachedFrom s position (stage :: rest) p =
      (contextOf s position (rest.map PendingStage.kind) stage p, stage.value) ::
        reachedFrom s (position + 1) rest next := by
  simp only [reachedFrom, hstage, hnext]

lemma compileFrom_clears (h : compileFrom s position stages p = ⟨.ok outputs, notes⟩) :
    ∀ r ∈ reachedFrom s position stages p, r.1.skipAcl = false →
      ∀ read ∈ stageReads r.1 r.2, read.isOpen = false →
        r.1.ClearsRead r.1.kind.counts (requiredAccess notes) read.nodes := by
  induction stages generalizing position p outputs notes with
  | nil => exact fun r hr => nomatch hr
  | cons stage rest ih =>
    obtain ⟨output, next, more, m, m', n, hstage, hnext, hmore, -, rfl⟩ := compileFrom_cons_ok h
    rw [reachedFrom_cons hstage hnext]
    intro r hr hacl read hread hopen
    rcases List.mem_cons.1 hr with rfl | hr
    · exact (compileStage_clears hacl hstage read hread hopen).mono
        (requiredAccess_le_append_left _ _)
    · exact (ih hmore r hr hacl read hread hopen).mono (requiredAccess_mono ⟨m ++ m', [], by simp⟩)

lemma reachedFrom_setting :
    ∀ r ∈ reachedFrom s position stages p, r.1.options = s.options ∧ r.1.policy = s.policy := by
  induction stages generalizing position p with
  | nil => exact fun r hr => nomatch hr
  | cons stage rest ih =>
    intro r hr
    rcases List.mem_cons.1 hr with rfl | hr
    · exact ⟨rfl, rfl⟩
    · split at hr
      · split at hr
        · exact ih r hr
        · cases hr
      · cases hr

/-- A pipeline that compiles is a run of its stages, and needs what the run needs. -/
lemma compile_ok {v : Json} {p : CompiledPipeline} (h : (compile s v).result = .ok p) :
    ∃ stages start outputs notes, stagesOf s.options v = .ok stages ∧
      Pipeline.start s = .ok start ∧ reached s v = reachedFrom s 0 stages start ∧
      compileFrom s 0 stages start = ⟨.ok outputs, notes⟩ ∧
      p = assemble outputs (requiredAccess notes) := by
  simp only [compile] at h
  split at h
  · cases h
  · next outputs hrun =>
    cases h
    have hrun := eq_ok_of_result hrun
    generalize (compileStages s v).journal = notes at hrun
    simp only [compileStages, of_eq, bind_ok_iff] at hrun
    obtain ⟨stages, m, n, hstages, ⟨start, m', n', hstart, hfrom, rfl⟩, rfl⟩ := hrun
    injection hstages with hstages hm
    injection hstart with hstart hm'
    subst hm hm'
    exact ⟨stages, start, outputs, n', hstages, hstart, by simp only [reached, hstages, hstart],
      hfrom, rfl⟩

/-- **Authorization is complete.**  Whatever a stage of a compiled pipeline reads, apart from
internal stages and from operators that compare with placeholders only, every node it may mean
and every node above that one is readable, open to the caller, and, where the stage tells
something about its values, within the required access. -/
theorem compile_authorizes_reads {s : Setting} {v : Json} {p : CompiledPipeline}
    {level : AccessLevel} (hpolicy : s.policy = .principal level)
    (h : (compile s v).result = .ok p) {ctx : Context} {value : Json}
    (hstage : (ctx, value) ∈ reached s v) (hacl : ctx.skipAcl = false) {read : PathRead}
    (hread : read ∈ stageReads ctx value) (hopen : read.isOpen = false) {id ancestor : NodeId}
    (hid : id ∈ read.nodes) (hancestor : ancestor ∈ ctx.catalog.lineage id) :
    let n := ctx.catalog.node ancestor
    n.readable = true ∧ (n.readAccess = .system → s.options.allowSystemAccess = true) ∧
      (n.type ≠ .list → n.acl ≠ some .untargeted ∧
        ∀ needed, n.acl = some (.targeted needed) → needed ≤ level) ∧
      (ctx.kind ∈ [.match, .sort, .group] → n.type ≠ .list → n.acl = none →
        n.readAccess ≤ p.requiredAccess) := by
  obtain ⟨stages, start, outputs, notes, -, -, hreached, hrun, rfl⟩ := compile_ok h
  rw [hreached] at hstage
  obtain ⟨hoptions, hprincipal⟩ := reachedFrom_setting _ hstage
  have ⟨hclear, hcount⟩ :=
    compileFrom_clears hrun _ hstage hacl read hread hopen id hid ancestor hancestor
  refine ⟨hclear.readable, fun hs => ?_, fun ht => ⟨hclear.untargeted ht, fun needed hn => ?_⟩,
    fun hkind ht ha => ?_⟩
  · rw [← hoptions]
    exact hclear.system hs
  · have hgrants := hclear.targeted ht needed hn
    rw [hprincipal, hpolicy] at hgrants
    simpa [Policy.grants] using hgrants
  · refine hcount ?_ ht ha
    revert hkind
    cases ctx.kind <;> simp [StageKind.counts]

/-- A schema with a property of a high level and one whose access depends on the document. -/
def guardedSchema : Json :=
  .obj [("objects", .arr [.obj [("name", .str "c_pet"), ("properties", .arr [
    .obj [("name", .str "c_weight"), ("type", .str "Number"), ("readAccess", .str "delete")],
    .obj [("name", .str "c_owner"), ("type", .str "Number"),
      ("acl", .obj [("kind", .str "nonTargeted")])]])]])]

/-- A caller who may use placeholders over that schema. -/
def guardedSetting : Setting where
  catalog := ((Catalog.load guardedSchema).toOption).getD {}
  options := { object := "c_pet", withVariables := true, skipIndexChecks := true }
  policy := .principal .read
  indexes := fun _ => []

/-- A match of one property by `$gt`. -/
def greaterMatch (property : String) (v : Json) : Json :=
  .arr [.obj [("$match", .obj [(property, .obj [("$gt", v)])])]]

/-- Comparing a property of a high level with a literal needs that level. -/
theorem weight_match_needs_delete :
    ∃ p, (compile guardedSetting (greaterMatch "c_weight" (.int 1))).result = .ok p ∧
      AccessLevel.delete ≤ p.requiredAccess := by
  obtain ⟨p, hp⟩ : ∃ p, (compile guardedSetting (greaterMatch "c_weight" (.int 1))).result = .ok p :=
    exists_eq_ok (by decide +kernel)
  have hread : ∃ r ∈ reached guardedSetting (greaterMatch "c_weight" (.int 1)),
      r.1.skipAcl = false ∧ r.1.kind ∈ [.match, .sort, .group] ∧
      ∃ read ∈ stageReads r.1 r.2, read.isOpen = false ∧ ∃ id ∈ read.nodes,
        ∃ ancestor ∈ r.1.catalog.lineage id, (r.1.catalog.node ancestor).type ≠ .list ∧
          (r.1.catalog.node ancestor).acl = none ∧
          (r.1.catalog.node ancestor).readAccess = .delete := by
    decide +kernel
  obtain ⟨⟨ctx, value⟩, hstage, hacl, hkind, read, hread, hopen, id, hid, ancestor, hancestor, ht,
    ha, haccess⟩ := hread
  have hall := compile_authorizes_reads rfl hp hstage hacl hread hopen hid hancestor
  exact ⟨p, hp, haccess ▸ hall.2.2.2 hkind ht ha⟩

/-- Compared with a placeholder, a property whose access depends on the document goes unchecked. -/
theorem placeholder_escapes_entries :
    (compile guardedSetting (greaterMatch "c_owner" (.str "\x7b\x7bx\x7d\x7d"))).result.isOk = true ∧
      ∃ r ∈ reached guardedSetting (greaterMatch "c_owner" (.str "\x7b\x7bx\x7d\x7d")),
        r.1.skipAcl = false ∧ ∃ read ∈ stageReads r.1 r.2, ∃ id ∈ read.nodes,
          ∃ ancestor ∈ r.1.catalog.lineage id, (r.1.catalog.node ancestor).type ≠ .list ∧
            (r.1.catalog.node ancestor).acl = some .untargeted := by
  decide +kernel

end Pipeline

end Conduit
