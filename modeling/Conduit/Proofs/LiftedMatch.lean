import Conduit.Proofs.Lifting
import Conduit.Proofs.TrailSteps

/-!
# Matches under looser checks

A match is compiled the same under looser checks.  What a condition finds is found again, since a
strict pipeline only refuses to find nothing; the frames of a trail are therefore related one by one
(`Trail.Loosens`), and so are the passes that go down a trail (`buildNatural_lifts`).

Only the check of native indexes differs: with all properties counted as indexed it has nothing to
do, and with more indexes it notes that more is covered.
-/

namespace Conduit.Match

open Journaled

/-! ## Parsing -/

section

variable {ctx : Context} {k : Checks} (hk : k.LooserThan ctx.checks)

include hk

lemma lifts_readsInStep : ReadsInStep ctx (ctx.under k) Eq (Lifts Eq) where
  placeholder? := funext (Context.placeholder?_under ctx k)
  ok _ := .refl _
  error _ := .error _ _
  bind := .bind
  child _ hs := hs ▸ rfl
  checkExpression v hs := hs ▸ checkExpression_lifts (Context.limits_under hk) _ v
  validate v hs := hs ▸ Pattern.validate_lifts (Context.limits_under hk) v _
  checkAll _ _ _ _ hs := hs ▸ Rule.checkAll_lifts (Context.limits_under hk) _ _ _ _ _
  allows hallowed := by
    simp only [Options.allowsOperator, List.any_eq_true] at hallowed ⊢
    obtain ⟨allowed, hmem, hallowed⟩ := hallowed
    exact ⟨allowed, hk.allowedRestrictedOps hmem, hallowed⟩
  allElements := (Context.limits_under hk).exceeds Limits.allElements rfl

lemma parse_lifts (v : Json) : Lifted ctx k (parse · v) :=
  .bind (.refl _) fun _ => (lifts_readsInStep hk).parseExpression rfl _

/-! ## Narrowing -/

variable {s s' : Site} {models : List ModelId}

lemma and_strict_under {c : Bool} (h : (c && (ctx.under k).strict) = true) :
    (c && ctx.strict) = true := by
  rw [Bool.and_comm] at h ⊢
  exact Context.strict_and_under hk h

omit hk in
lemma nameTest_lifts (field : Selector) (v : Json) (op : CompareOp) :
    Lifts Eq (nameTest s field v op) (nameTest s' field v op) := by
  unfold nameTest
  dsimp only
  split
  · exact .refl _
  · exact .error _ _

omit hk in
lemma exclusions_lifts (field : Selector) : ∀ elements : List Operand,
    Lifts Eq (exclusions s field elements) (exclusions s' field elements)
  | [] => .refl _
  | .simple v :: rest =>
    .bind (nameTest_lifts field v .eq) fun _ => .bind (exclusions_lifts field rest) fun _ => .refl _
  | .variable _ :: _ | .raw _ :: _ | .property _ :: _ | .array _ :: _ | .expression _ :: _ => .refl _

lemma modelsMatching_lifts (field : Selector) (filter : NameFilter) :
    Lifts Eq (modelsMatching ctx s field filter models)
      (modelsMatching (ctx.under k) s' field filter models) := by
  cases field with
  | object => exact .guard (and_strict_under hk) (.refl _)
  | type =>
    unfold modelsMatching
    dsimp only
    cases hstrict : (ctx.under k).strict with
    | true =>
      rw [show ctx.strict = true from hk.strict hstrict, if_pos rfl, if_pos rfl]
      exact .guard id (.guard id (.refl _))
    | false =>
      -- what only a strict match refuses is no longer looked at
      split
      · exact .drop (.drop (.refl _))
      · exact .refl _

lemma modelsOneOf_lifts (field : Selector) : ∀ elements : List Operand,
    Lifts Eq (modelsOneOf ctx s field models elements)
      (modelsOneOf (ctx.under k) s' field models elements)
  | [] => .refl _
  | .simple v :: rest =>
    .bind (nameTest_lifts field v .eq) fun _ => .bind (modelsMatching_lifts hk field _) fun _ =>
      .bind (modelsOneOf_lifts field rest) fun _ => .refl _
  | .variable _ :: rest | .raw _ :: rest | .property _ :: rest | .array _ :: rest
  | .expression _ :: rest => .bind (modelsOneOf_lifts field rest) fun _ => .refl _

lemma leafModels_lifts (field : Selector) (op : MatchOp) (v : Operand) :
    Lifts Eq (leafModels ctx s field op v models)
      (leafModels (ctx.under k) s' field op v models) := by
  unfold leafModels
  split
  · exact (modelsOneOf_lifts hk field _).map _
  · refine .bind (exclusions_lifts field _) fun ts => ?_
    cases ts with
    | some ts => exact modelsMatching_lifts hk field _
    | none => exact .refl _
  · exact .bind (nameTest_lifts field _ _) fun _ => modelsMatching_lifts hk field _
  · exact .error _ _

omit hk in
mutual

/-- A condition leaves the same models, also at another place of the same property. -/
lemma childModels_lifts (hk : k.LooserThan ctx.checks) {s s' : Site} (h : SamePlace s s') :
    ∀ v : Operand, Lifts Eq (childModels ctx s models v) (childModels (ctx.under k) s' models v)
  | .variable _ => .refl _
  | .expression cs => by
    rw [childModels, childModels, h.matchOp?, h.propertyPath]
    cases s'.matchOp? with
    | some op => exact .refl _
    | none =>
      cases Selector.ofPath? s'.propertyPath with
      | some field => exact (childrenModels_lifts hk h.names cs).map _
      | none => exact .refl _
  | .array elements => by
    rw [childModels, childModels, h.matchOp?, h.propertyPath]
    cases s'.matchOp? with
    | some op =>
      cases op with
      | and | all | or => exact (elementsModels_lifts hk h.names elements).map _
      | oneOf | noneOf =>
        cases Selector.ofPath? s'.propertyPath with
        | some field => exact leafModels_lifts hk field _ _
        | none => exact .refl _
      | _ => exact .refl _
    | none =>
      cases Selector.ofPath? s'.propertyPath with
      | some field => exact .error _ _
      | none => exact .refl _
  | .simple v | .raw v | .property v => by
    unfold childModels
    rw [h.matchOp?, h.propertyPath]
    cases Selector.ofPath? s'.propertyPath with
    | none => exact .refl _
    | some field =>
      cases s'.matchOp? with
      | none => exact leafModels_lifts hk field _ _
      | some op =>
        cases op with
        | hasType | present | size | within | elemMatch => exact .refl _
        | _ => exact leafModels_lifts hk field _ _

lemma childrenModels_lifts (hk : k.LooserThan ctx.checks) {s s' : Site} (h : names s = names s') :
    ∀ cs : Children,
      Lifts Eq (childrenModels ctx s models cs) (childrenModels (ctx.under k) s' models cs)
  | [] => .refl _
  | (key, v) :: rest =>
    .bind (childModels_lifts hk (samePlace_child h key) v) fun _ =>
      .bind (childrenModels_lifts hk h rest) fun _ => .refl _

lemma elementsModels_lifts (hk : k.LooserThan ctx.checks) {s s' : Site} (h : names s = names s') :
    ∀ elements : List Operand, Lifts Eq (elementsModels ctx s models elements)
        (elementsModels (ctx.under k) s' models elements)
  | [] => .refl _
  | .expression cs :: rest =>
    .bind (childrenModels_lifts hk h cs) fun _ =>
      .bind (elementsModels_lifts hk h rest) fun _ => .refl _
  | .variable _ :: rest | .raw _ :: rest | .property _ :: rest | .array _ :: rest
  | .simple _ :: rest => .bind (elementsModels_lifts hk h rest) fun _ => .refl _

end

lemma expressionModels_lifts (site : Site) (cs : Children) (models : List ModelId) :
    Lifted ctx k (expressionModels · site cs models) :=
  (childrenModels_lifts hk rfl cs).map _

lemma componentModels_lifts (site : Site) (v : Operand) (models : List ModelId) :
    Lifted ctx k (componentModels · site v models) := by
  refine .ite (.refl _) ?_
  cases v with
  | expression cs => exact expressionModels_lifts hk site cs models
  | array elements => exact (elementsModels_lifts hk rfl elements).map _
  | _ => exact .refl _

lemma resolveProperty_lifts (site : Site) (models : List ModelId) (properties : List Candidate)
    (demand : Demand) : LiftedRun ctx k (resolveProperty · site models properties demand) := by
  exact .bind (.refl _) fun _ => .guard (and_strict_under hk) (.refl _)

lemma resolveEach_lifts (site : Site) (models : List ModelId) (properties : List Candidate)
    (elements : List Operand) :
    LiftedRun ctx k (resolveEach · site models properties elements) := by
  induction elements with
  | nil => exact .refl _
  | cons v rest ih =>
    exact .bind (resolveProperty_lifts hk site models properties _) fun _ =>
      .bind ih fun _ => .refl _

lemma leafProperties_lifts (site : Site) (models : List ModelId) (properties : List Candidate)
    (op : MatchOp) (v : Operand) :
    LiftedRun ctx k (leafProperties · site models properties op v) := by
  unfold leafProperties
  split
  · exact .refl _
  · exact .refl _
  · exact .bind (resolveEach_lifts hk site models properties _) fun _ => .refl _
  iterate 2
    · exact resolveProperty_lifts hk site models properties _
  · exact .refl _

omit hk in
mutual

lemma childProperties_lifts (hk : k.LooserThan ctx.checks) (models : List ModelId)
    (label : String) (site : Site) (properties : List Candidate) : ∀ v : Operand,
      LiftedRun ctx k (childProperties · models label site properties v)
  | .variable _ => resolveProperty_lifts hk site models properties _
  | .expression cs => by
    simp only [childProperties]
    split
    · exact .bind (childrenProperties_lifts hk models _ site properties cs) fun _ => .refl _
    · exact leafProperties_lifts hk site models properties _ _
    · exact .bind (childrenProperties_lifts hk models _ site properties cs) fun _ => .refl _
  | .array elements => by
    simp only [childProperties]
    cases site.matchOp? with
    | none => exact .refl _
    | some op =>
      cases op with
      | and | all | or =>
        exact .bind (elementsProperties_lifts hk models _ site properties elements) fun _ =>
          .refl _
      | elemMatch => exact .refl _
      | _ => exact leafProperties_lifts hk site models properties _ _
  | .simple v => by
    simp only [childProperties]
    cases site.matchOp? with
    | none => exact resolveProperty_lifts hk site models properties _
    | some op =>
      cases op with
      | and | or | all | oneOf | noneOf | elemMatch => exact .refl _
      | _ => exact leafProperties_lifts hk site models properties _ _
  | .raw _ | .property _ => .refl _

lemma childrenProperties_lifts (hk : k.LooserThan ctx.checks) (models : List ModelId)
    (label : String) (site : Site) (properties : List Candidate) : ∀ cs : Children,
      LiftedRun ctx k (childrenProperties · models label site properties cs)
  | [] => .refl _
  | (key, v) :: rest => by
    exact .bind (childProperties_lifts hk models label _ properties v) fun _ =>
      .bind (childrenProperties_lifts hk models label site properties rest) fun _ => .refl _

lemma elementsProperties_lifts (hk : k.LooserThan ctx.checks) (models : List ModelId)
    (literals : Bool) (site : Site) (properties : List Candidate) : ∀ elements : List Operand,
      LiftedRun ctx k (elementsProperties · models literals site properties elements)
  | [] => .refl _
  | .expression cs :: rest =>
    .bind (childrenProperties_lifts hk models _ site properties cs) fun _ =>
      .bind (.refl _) fun _ =>
        .bind (elementsProperties_lifts hk models literals site properties rest) fun _ => .refl _
  | .simple v :: rest => by
    refine .ite (.bind (resolveProperty_lifts hk site models properties _) fun _ => ?_)
      (.bind (.refl _) fun _ => ?_)
    all_goals
      exact .bind (elementsProperties_lifts hk models literals site properties rest) fun _ =>
        .refl _
  | .variable _ :: rest | .raw _ :: rest | .property _ :: rest | .array _ :: rest =>
    .bind (elementsProperties_lifts hk models literals site properties rest) fun _ => .refl _

end

lemma componentProperties_lifts (site : Site) (models : List ModelId) (v : Operand)
    (properties : List Candidate) :
    LiftedRun ctx k (componentProperties · site models v properties) := by
  cases v with
  | expression cs =>
    exact .bind (childrenProperties_lifts hk models _ site properties cs) fun _ => .refl _
  | array elements =>
    exact .bind (elementsProperties_lifts hk models _ site properties elements) fun _ => .refl _
  | _ => exact .refl _

end

/-! ## Trails -/

/-- Frames of one component under two checks. -/
structure Frame.Loosens (f g : Frame) : Prop where
  site : g.site = f.site
  address : g.address = f.address
  element : g.element = f.element
  width : g.width = f.width
  models : Conduit.Lifts Eq f.models.get g.models.get
  properties : Journaled.Lifts Eq f.properties.get g.properties.get

/-- Trails of one component under two checks. -/
abbrev Trail.Loosens (t u : Trail) : Prop := List.Forall₂ Frame.Loosens t u

namespace Trail

variable {ctx : Context} {k : Checks} {t u : Trail}

section

variable (hk : k.LooserThan ctx.checks)

include hk

lemma narrowTwice_lifts (address : List Nat) (site : Site) (v : Operand)
    {models models' : Except CompileError (List ModelId)} {above above' : Compile (List Candidate)}
    (hmodels : Conduit.Lifts Eq models models') (habove : Journaled.Lifts Eq above above') :
    Journaled.Lifts Eq (narrowTwice ctx address site v models above)
      (narrowTwice (ctx.under k) address site v models' above') :=
  .mapNotes (.bind (.of hmodels) fun _ => .bind habove fun _ =>
    .bind (componentProperties_lifts hk site _ v _) fun _ =>
      componentProperties_lifts hk site _ v _) _

lemma root_lifts (v : Operand) : Loosens (root ctx v) (root (ctx.under k) v) := by
  have hmodels := expressionModels_lifts hk (Site.root ctx.kind.key) v.children ctx.models
  exact .cons ⟨rfl, rfl, rfl, rfl, hmodels, narrowTwice_lifts hk _ _ v hmodels (.refl _)⟩ .nil

lemma Loosens.child (h : Loosens t u) (element index : Nat) (key : String) (v : Operand) :
    Loosens (t.child ctx element index key v) (u.child (ctx.under k) element index key v) := by
  cases h with
  | nil => exact .nil
  | @cons f g t u hfg h =>
    obtain ⟨site, address, felement, width, models, properties⟩ := f
    obtain ⟨site', address', gelement, width', models', properties'⟩ := g
    obtain ⟨rfl, rfl, rfl, rfl, hmodels, hproperties⟩ := hfg
    have hbelow : Conduit.Lifts Eq (do componentModels ctx (site'.child key) v (← models.get))
        (do componentModels (ctx.under k) (site'.child key) v (← models'.get)) :=
      .bind hmodels fun _ => componentModels_lifts hk _ v _
    exact .cons ⟨rfl, rfl, rfl, rfl, hbelow, narrowTwice_lifts hk _ _ v hbelow hproperties⟩
      (.cons ⟨rfl, rfl, rfl, rfl, hmodels, hproperties⟩ h)

end

variable (h : Loosens t u)

include h

lemma Loosens.site : u.site = t.site := by
  cases h with
  | nil => rfl
  | cons hfg _ => exact hfg.site

lemma Loosens.fullpath : u.fullpath = t.fullpath :=
  congrArg Site.fullpath h.site

lemma Loosens.address : u.address = t.address := by
  cases h with
  | nil => rfl
  | cons hfg _ => exact hfg.address

lemma Loosens.parent : Loosens t.parent u.parent := by
  cases h with
  | nil => exact .nil
  | cons hfg h =>
    cases h with
    | nil => exact .cons hfg .nil
    | cons hgh h => exact .cons hgh h

lemma Loosens.named : Loosens t.named u.named := by
  induction h with
  | nil => exact .nil
  | cons hfg h ih =>
    rw [Trail.named, Trail.named, hfg.site]
    split
    · exact .cons hfg h
    · exact ih

lemma Loosens.referenced : u.referenced = t.referenced := by
  induction h with
  | nil => rfl
  | cons hfg h ih =>
    cases h with
    | nil => rw [Trail.referenced, Trail.referenced, hfg.address]
    | cons hgh h => rw [Trail.referenced, Trail.referenced, hfg.address, hfg.site, hgh.site, ih]

lemma Loosens.steps : u.steps = t.steps := by
  induction h with
  | nil => rfl
  | cons hfg h ih =>
    cases h with
    | nil => rfl
    | cons hgh h =>
      rw [Trail.steps, Trail.steps, ih, hgh.site, hgh.width, hfg.element]

lemma Loosens.property : Journaled.Lifts Eq t.property u.property := by
  cases h with
  | nil => exact .refl _
  | cons hfg h =>
    rw [Trail.property, Trail.property, hfg.site]
    exact .bind hfg.properties fun _ => .refl _

end Trail

/-! ## Checking -/

/-- What is found under other checks. -/
def Findings.under (k : Checks) (f : Findings) : Findings := { f with checks := k.pending f.checks }

lemma Findings.under_empty (k : Checks) : ({} : Findings).under k = {} := by
  simp [Findings.under]

lemma Findings.under_append (k : Checks) (f g : Findings) :
    (f ++ g).under k = f.under k ++ g.under k :=
  congrArg (Findings.mk _) (k.pending_append _ _)

lemma checkStrings_lifts {ctx : Context} {k : Checks} {t u : Trail} (h : Trail.Loosens t u) :
    Journaled.Lifts Eq (checkStrings ctx t) (checkStrings (ctx.under k) u) := by
  unfold checkStrings
  rw [h.fullpath]
  exact .bind h.property fun _ => .refl _

section

variable {ctx : Context} {k : Checks} {t u : Trail} (hk : k.LooserThan ctx.checks)

include hk

lemma checkNodes_lifts (h : Trail.Loosens t u) : ∀ ids : List NodeId,
    Journaled.Lifts (fun a b => b = a.under k) (checkNodes ctx t ids)
      (checkNodes (ctx.under k) u ids)
  | [] => .ok (Findings.under_empty k).symm
  | id :: rest => by
    rw [checkNodes, checkNodes, h.fullpath, h.referenced]
    refine .bind (Context.checkLineage_lifts hk _ _ _ _ _) fun _ => .guard (fun hrefused => ?_)
      (.bindBy (checkNodes_lifts h rest) fun a b hab => .ok ?_)
    · rw [Bool.and_assoc] at hrefused ⊢
      exact Context.strict_and_under hk hrefused
    · rw [hab, Findings.under_append]
      exact congrArg (Findings.mk _ · ++ a.under k) (Context.pending_under hk _ _)

lemma checkProperty_lifts (h : Trail.Loosens t u) :
    Journaled.Lifts (fun a b => b = a.under k) (checkProperty ctx t)
      (checkProperty (ctx.under k) u) := by
  refine .bind h.property fun c => ?_
  cases c with
  | none => exact .error _ _ _
  | some c =>
    exact .bindBy (checkNodes_lifts hk h _) fun _ _ hab => .guard id (.ok hab)

lemma lifts_checksInStep : ChecksInStep ctx (ctx.under k) Trail.Loosens
    (Journaled.Lifts fun a b => b = a.under k) where
  none := .ok (Findings.under_empty k).symm
  both hx hy := .bindBy hx fun _ _ hab => .bindBy hy fun _ _ hcd =>
    .ok (by rw [hab, hcd, Findings.under_append])
  refused _ := .error _ _ _
  property ht := checkProperty_lifts hk ht
  strings ht := .bindBy (checkProperty_lifts hk ht) fun _ _ hab =>
    .bind (checkStrings_lifts ht) fun _ => .ok hab
  site ht := ht.site
  child element index key v ht := ht.child hk element index key v

end

/-! ## Building -/

namespace Builder

variable {ctx : Context} {k : Checks} {t u : Trail} {references : List (List Nat)}

/-- Every step of building is taken under looser checks too, with the same notes. -/
lemma lifts_inStep : InStep ⟨ctx, references⟩ ⟨ctx.under k, references⟩ Trail.Loosens
    (Journaled.Lifts Eq) where
  catalog := rfl
  usesIndex := rfl
  currentLocale := rfl
  ok _ := .refl _
  error _ := .refl _
  bind hxy hfg := by
    intro c notes h
    obtain ⟨a, front, back, hx, hf, rfl⟩ := bind_ok_iff.1 h
    obtain ⟨_, hy, rfl⟩ := hxy a front hx
    obtain ⟨_, hg, rfl⟩ := hfg a (congrArg result hx) c back hf
    exact ⟨c, bind_ok_iff.2 ⟨a, front, back, hy, hg, rfl⟩, rfl⟩
  incomplete := .refl _
  cast _ _ _ _ := .refl _
  site ht := ht.site
  parent ht := ht.parent
  buildKey ht := by rw [buildKey, buildKey, isReference, isReference, ht.address, ht.site]
  property ht := .mapNotes ht.property _
  enter ht _ pairs := by
    refine ⟨?_, ?_⟩
    · rw [indexKey, indexKey, isReference, isReference, ht.named.address, ht.named.site]
    · rw [enter, enter, ht.named.fullpath, ht.named.steps]
      exact .refl _

lemma buildNatural_lifts (hk : k.LooserThan ctx.checks) (h : Trail.Loosens t u) (v : Operand) :
    Journaled.Lifts Eq (buildNatural ⟨ctx, references⟩ t v)
      (buildNatural ⟨ctx.under k, references⟩ u v) :=
  lifts_inStep.buildNatural (P := fun t u _ => Trail.Loosens t u)
    ⟨id, fun ht _ => ht.child hk _ _ _ _⟩ v h

end Builder

/-! ## The query -/

section

variable {ctx : Context} {k : Checks} (hk : k.LooserThan ctx.checks)

include hk

lemma checkNativeIndexes_keeps (findings : Findings) (query : Json) :
    Keeps (checkNativeIndexes ctx findings.checks query)
      (checkNativeIndexes (ctx.under k) (findings.under k).checks query) := by
  let keys (paths : List String) := (query.queryKeys []).map fun key =>
    (paths.find? fun p => Path.isBelow p key).getD key
  exact Context.demandIndexed_keeps hk .matchCoverage .matchNotIndexed keys findings.checks
    fun _ _ => rfl

lemma build_keeps {t u : Trail} (h : Trail.Loosens t u) (v : Operand) (findings : Findings) :
    Keeps (build ctx t v findings) (build (ctx.under k) u v (findings.under k)) := by
  intro query notes hquery
  have hbuilt : ∃ natural, (Builder.buildNatural ⟨ctx, findings.references⟩ t v).result =
      .ok natural := by
    simp only [build, bind_ok_iff, of_eq] at hquery
    obtain ⟨_, _, _, -, ⟨natural, _, _, hnatural, -, -⟩, -⟩ := hquery
    exact ⟨natural, congrArg result hnatural⟩
  obtain ⟨natural, hnatural⟩ := hbuilt
  -- The index query is made from the notes of the native one, so these have to be the same too.
  have hsame : Builder.buildNatural ⟨ctx.under k, (findings.under k).references⟩ u v =
      Builder.buildNatural ⟨ctx, findings.references⟩ t v := by
    obtain ⟨_, hnatural', rfl⟩ :=
      Builder.buildNatural_lifts hk h v _ _ (eq_ok_of_result hnatural)
    exact hnatural'.trans (eq_ok_of_result hnatural).symm
  suffices Keeps (build ctx t v findings) (build (ctx.under k) u v (findings.under k)) from
    this _ _ hquery
  unfold build
  rw [hsame]
  refine .bind (.refl _) fun indexing => .bind (.refl _) fun natural => ?_
  have hcheck : ∀ query : Json, Keeps
      (checkNativeIndexes ctx findings.checks query >>= fun _ => pure query)
      (checkNativeIndexes (ctx.under k) (findings.under k).checks query >>= fun _ => pure query) :=
    fun query => (checkNativeIndexes_keeps hk findings query).bind fun _ => .refl _
  cases indexing.entries.finish with
  | none => exact .bind (.refl _) hcheck
  | some index =>
    exact .bind (.refl _) fun _ => .ite (.bind (.refl _) hcheck) (.bind (.refl _) hcheck)

lemma compile_keeps (value : Json) : Keeps (compile ctx value) (compile (ctx.under k) value) := by
  refine (Journaled.Lifts.of (parse_lifts hk value)).keeps.bind fun v => ?_
  have hroot := Trail.root_lifts hk v
  revert hroot
  cases Trail.root ctx v with
  | nil => exact fun _ => (Journaled.Lifts.error _ _ _).keeps
  | cons f t =>
    cases Trail.root (ctx.under k) v with
    | nil =>
      intro hroot
      cases hroot
    | cons g u =>
      intro hroot
      obtain ⟨hfg, -⟩ := List.forall₂_cons.1 hroot
      refine .bind (Journaled.Lifts.of hfg.models).keeps fun models =>
        .bind hfg.properties.keeps fun properties =>
          ((lifts_checksInStep hk).checkChildren hroot 0 0 v.children).bindKeeps fun a b hab => ?_
      subst hab
      exact .bind (build_keeps hk hroot v a) fun _ => .refl _

end

end Conduit.Match
