import Conduit.Proofs.Reads

/-!
# What stages hand on

A stage is compiled against the models and candidates that the stages before it left, and hands
models and candidates on.  `Handover` lists the ways in which it can do so while documents keep
their shape; otherwise the new shape is the only model, and no candidate is left.  A run is one
step after the other (`reached_runs`, `Runs.split`, `Step.cases`).

What every step keeps therefore holds of every stage that is reached (`Runs.keeps`).
-/

namespace Conduit

open Journaled

/-- The models and candidates that a stage hands on if documents keep their shape. -/
inductive Handover (ctx : Context) (value : Json) : List ModelId → List Candidate → Prop
  /-- A match narrows both, and the candidates in two rounds. -/
  | narrowed {v : Operand} {models : List ModelId} {once twice : List Candidate}
    (hkind : ctx.kind = .match) (hparse : Match.parse ctx value = .ok v)
    (hmodels : Match.expressionModels ctx (Site.root ctx.kind.key) v.children ctx.models =
      .ok models)
    (honce : (Match.componentProperties ctx (Site.root ctx.kind.key) models v
      ctx.properties).result = .ok once)
    (htwice : (Match.componentProperties ctx (Site.root ctx.kind.key) models v once).result =
      .ok twice) : Handover ctx value models twice
  | sorted {fields : List (String × Sort.Direction)} {properties : List Candidate}
    (hkind : ctx.kind = .sort) (hparse : Sort.parse ctx value = .ok fields)
    (hfound : Sort.candidates ctx (fields.map Prod.fst) = .ok properties) :
    Handover ctx value ctx.models properties
  | unwound {path : String} {properties : List Candidate} (hkind : ctx.kind = .unwind)
    (hpath : Unwind.path? ctx value = some path)
    (hfound : Unwind.candidates ctx path = .ok properties) :
    Handover ctx value ctx.models properties
  | kept : Handover ctx value ctx.models ctx.properties

/-! ## Stages -/

variable {ctx : Context} {value : Json} {output : StageOutput}

namespace Match

lemma narrowTwice_ok {address : List Nat} {site : Site} {v : Operand} {models : List ModelId}
    {above : Compile (List Candidate)} {out : List Candidate}
    (h : (Trail.narrowTwice ctx address site v (.ok models) above).result = .ok out) :
    ∃ ps once, above.result = .ok ps ∧
      (componentProperties ctx site models v ps).result = .ok once ∧
      (componentProperties ctx site models v once).result = .ok out := by
  obtain ⟨_, hmodels, h⟩ := result_bind_ok_iff.1 h
  cases hmodels
  obtain ⟨ps, hps, h⟩ := result_bind_ok_iff.1 h
  obtain ⟨once, honce, h⟩ := result_bind_ok_iff.1 h
  exact ⟨ps, once, hps, honce, h⟩

/-- The steps of a compiled match: it is read, narrowed in two rounds, checked and built. -/
lemma compile_rounds (h : (compile ctx value).result = .ok output) : ∃ v once findings query,
    parse ctx value = .ok v ∧
      expressionModels ctx (Site.root ctx.kind.key) v.children ctx.models = .ok output.models ∧
      (componentProperties ctx (Site.root ctx.kind.key) output.models v ctx.properties).result =
        .ok once ∧
      (componentProperties ctx (Site.root ctx.kind.key) output.models v once).result =
        .ok output.properties ∧
      (build ctx (Trail.root ctx v) v findings).result = .ok query ∧ output.projection = none := by
  obtain ⟨v, hparse, h⟩ := result_bind_ok_iff.1 h
  obtain ⟨models, hmodels, h⟩ := result_bind_ok_iff.1 h
  obtain ⟨properties, hproperties, h⟩ := result_bind_ok_iff.1 h
  obtain ⟨findings, -, h⟩ := result_bind_ok_iff.1 h
  obtain ⟨query, hquery, h⟩ := result_bind_ok_iff.1 h
  cases h
  have hroot : expressionModels ctx (Site.root ctx.kind.key) v.children ctx.models = .ok models :=
    hmodels
  rw [hroot] at hproperties
  obtain ⟨_, once, hps, honce, htwice⟩ := narrowTwice_ok hproperties
  cases hps
  exact ⟨v, once, findings, query, hparse, hroot, honce, htwice, hquery, rfl⟩

end Match

lemma Sort.compile_handover (hkind : ctx.kind = .sort)
    (h : (Sort.compile ctx value).result = .ok output) :
    output.projection = none ∧ Handover ctx value output.models output.properties := by
  obtain ⟨fields, hparse, h⟩ := result_bind_ok_iff.1 h
  obtain ⟨properties, hfound, h⟩ := result_bind_ok_iff.1 h
  obtain ⟨_, -, h⟩ := result_bind_ok_iff.1 h
  obtain ⟨_, -, h⟩ := result_bind_ok_iff.1 h
  cases h
  exact ⟨rfl, .sorted hkind hparse hfound⟩

lemma Unwind.compile_handover (hkind : ctx.kind = .unwind)
    (h : (Unwind.compile ctx value).result = .ok output) :
    output.projection = none ∧ Handover ctx value output.models output.properties := by
  obtain ⟨v, hv, h⟩ := result_bind_ok_iff.1 h
  split at h
  · cases h
    exact ⟨rfl, .kept⟩
  · next hname =>
    obtain ⟨path, hpath, h⟩ := result_bind_ok_iff.1 h
    obtain ⟨properties, hfound, h⟩ := result_bind_ok_iff.1 h
    have hread : Unwind.path? ctx value = some path := by
      have hv : (fieldsOf value >>= pathOf) = .ok v := hv
      have hpath : propertyOf v = .ok path := hpath
      rw [Unwind.path?, hv]
      simp only [hname, hpath]
      rfl
    split at h
    · obtain ⟨_, hthrow, -⟩ := result_bind_ok_iff.1 h
      cases hthrow
    · obtain ⟨_, -, h⟩ := result_bind_ok_iff.1 h
      cases h
      exact ⟨rfl, .unwound hkind hread hfound⟩

lemma Bound.compile_handover (h : (Bound.compile ctx value).result = .ok output) :
    output.projection = none ∧ Handover ctx value output.models output.properties := by
  simp only [Bound.compile] at h
  split at h
  · cases h
    exact ⟨rfl, .kept⟩
  · split at h
    · cases h
      exact ⟨rfl, .kept⟩
    · cases h

/-- A projection describes the new shape of documents.  That of `$addFields` extends the old. -/
lemma Project.compile_projects (h : (Project.compile ctx value).result = .ok output) :
    ∃ projection, output.projection = some projection ∧ output.models = ctx.models ∧
      output.properties = [] ∧ (projection.extendsInput = true ↔ ctx.kind = .addFields) := by
  obtain ⟨v, -, h⟩ := result_bind_ok_iff.1 h
  obtain ⟨outcome, -, h⟩ := result_bind_ok_iff.1 h
  dsimp only at h
  split at h <;>
  · obtain ⟨body, -, h⟩ := result_bind_ok_iff.1 h
    cases h
    exact ⟨_, rfl, rfl, rfl, decide_eq_true_iff⟩

lemma Group.compile_projects (h : (Group.compile ctx value).result = .ok output) :
    ∃ projection, output.projection = some projection ∧ output.models = ctx.models ∧
      output.properties = [] ∧ projection.extendsInput = false := by
  obtain ⟨v, -, h⟩ := result_bind_ok_iff.1 h
  obtain ⟨outcome, -, h⟩ := result_bind_ok_iff.1 h
  cases h
  exact ⟨_, rfl, rfl, rfl, rfl⟩

/-- **What a stage hands on**: models and candidates, or the new shape of documents. -/
lemma compileStage_cases (h : (compileStage ctx value).result = .ok output) :
    (ctx.kind.isProjection = false ∧ output.projection = none ∧
      Handover ctx value output.models output.properties) ∨
    (ctx.kind.isProjection = true ∧ ∃ projection, output.projection = some projection ∧
      output.models = ctx.models ∧ output.properties = [] ∧
      (projection.extendsInput = true ↔ ctx.kind = .addFields)) := by
  obtain ⟨_, -, h⟩ := result_bind_ok_iff.1 h
  cases hkind : ctx.kind with
  | «match» =>
    rw [hkind] at h
    obtain ⟨v, once, _, _, hparse, hmodels, honce, htwice, -, hnone⟩ := Match.compile_rounds h
    exact .inl ⟨rfl, hnone, .narrowed hkind hparse hmodels honce htwice⟩
  | sort =>
    rw [hkind] at h
    exact .inl ⟨rfl, Sort.compile_handover hkind h⟩
  | unwind =>
    rw [hkind] at h
    exact .inl ⟨rfl, Unwind.compile_handover hkind h⟩
  | limit | skip =>
    rw [hkind] at h
    exact .inl ⟨rfl, Bound.compile_handover h⟩
  | project | addFields =>
    rw [hkind] at h
    obtain ⟨projection, hprojection, hmodels, hnil, hextends⟩ := Project.compile_projects h
    exact .inr ⟨rfl, projection, hprojection, hmodels, hnil, hkind ▸ hextends⟩
  | group =>
    rw [hkind] at h
    obtain ⟨projection, hprojection, hmodels, hnil, hextends⟩ := Group.compile_projects h
    exact .inr ⟨rfl, projection, hprojection, hmodels, hnil, by simp [hextends]⟩

/-! ## Runs -/

namespace Pipeline

variable {s : Setting} {p q next : Progress} {r : Context × Json} {done rest : List (Context × Json)}
  {v : Json}

/-- A stage is compiled in a state. -/
def CompilesIn (s : Setting) (p : Progress) (r : Context × Json) : Prop :=
  ∃ position later stage, r = (contextOf s position later stage p, stage.value)

/-- A stage leads from one state to the next. -/
def Step (s : Setting) (p : Progress) (r : Context × Json) (next : Progress) : Prop :=
  CompilesIn s p r ∧ ∃ output, (compileStage r.1 r.2).result = .ok output ∧
    (advance s r.1 output p).result = .ok next

/-- Some stages lead from one state to another. -/
inductive Runs (s : Setting) : Progress → List (Context × Json) → Progress → Prop
  | done (p : Progress) : Runs s p [] p
  | step {p next q : Progress} {r : Context × Json} {rest : List (Context × Json)}
    (hstep : Step s p r next) (hrest : Runs s next rest q) : Runs s p (r :: rest) q

/-- What each step keeps is kept by a run; it may depend on the stages so far. -/
lemma Runs.keeps {P : List (Context × Json) → Progress → Prop}
    (hstep : ∀ {done p r next}, P done p → Step s p r next → P (done ++ [r]) next)
    (h : Runs s p rest q) (done : List (Context × Json)) (hp : P done p) : P (done ++ rest) q := by
  induction h generalizing done with
  | done p => rwa [List.append_nil]
  | step hr _ ih =>
    rw [List.append_cons]
    exact ih _ (hstep hp hr)

lemma Runs.split (h : Runs s p (done ++ r :: rest) q) :
    ∃ before after, Runs s p done before ∧ Step s before r after ∧ Runs s after rest q := by
  induction done generalizing p with
  | nil =>
    cases h with
    | step hr hrest => exact ⟨p, _, .done p, hr, hrest⟩
  | cons first more ih =>
    cases h with
    | step hr hrest =>
      obtain ⟨before, after, hbefore, hr', hafter⟩ := ih hrest
      exact ⟨before, after, .step hr hbefore, hr', hafter⟩

lemma reachedFrom_runs {stages : List PendingStage} {position : Nat}
    (h : reachedFrom s position stages p = done ++ r :: rest) :
    ∃ q, Runs s p done q ∧ CompilesIn s q r := by
  induction stages generalizing position p done with
  | nil => simp [reachedFrom] at h
  | cons stage more ih =>
    cases done with
    | nil => exact ⟨p, .done p, _, _, _, (List.cons.inj h).1.symm⟩
    | cons first done =>
      obtain ⟨hfirst, h⟩ := List.cons.inj h
      split at h
      · next output houtput =>
        split at h
        · next next hnext =>
          obtain ⟨q, hq, hr⟩ := ih h
          exact ⟨q, .step ⟨⟨_, _, _, hfirst.symm⟩, output, by rw [← hfirst]; exact houtput,
            by rw [← hfirst]; exact hnext⟩ hq, hr⟩
        · simp at h
      · simp at h

/-- **The stages before a reached one are a run**, which leads to the state it is compiled in. -/
lemma reached_runs (h : reached s v = done ++ r :: rest) :
    ∃ p q, start s = .ok p ∧ Runs s p done q ∧ CompilesIn s q r := by
  unfold reached at h
  split at h
  · next p _ hp =>
    obtain ⟨q, hq, hr⟩ := reachedFrom_runs h
    exact ⟨p, q, hp, hq, hr⟩
  · simp at h

lemma CompilesIn.context (h : CompilesIn s p r) :
    r.1.catalog = p.catalog ∧ r.1.models = p.models ∧ r.1.properties = p.properties ∧
      r.1.options = s.options := by
  obtain ⟨position, later, stage, rfl⟩ := h
  exact ⟨rfl, rfl, rfl, rfl⟩

lemma reached_strict (h : r ∈ reached s v) : r.1.strict = s.options.strict := by
  obtain ⟨front, back, hreached⟩ := List.append_of_mem h
  obtain ⟨_, _, -, -, hr⟩ := reached_runs hreached
  rw [Context.strict, hr.context.2.2.2]

/-- **A step keeps the catalog and hands on what the stage leaves, or registers the new shape of
documents** as the only model.  Only `$addFields` has it extend other models. -/
lemma Step.cases (h : Step s p r next) : (r.1.kind.isProjection = false ∧ next.catalog = p.catalog ∧
      Handover r.1 r.2 next.models next.properties) ∨
    (r.1.kind.isProjection = true ∧ ∃ output projection,
      (compileStage r.1 r.2).result = .ok output ∧ output.projection = some projection ∧
      next.properties = [] ∧
      let added := p.catalog.addProjected s.options.object (p.catalog.agreedType r.1.models)
        projection.nodes (if r.1.kind = .addFields then r.1.models else [])
      next.catalog = added.2 ∧ next.models = [added.1]) := by
  obtain ⟨-, output, houtput, hnext⟩ := h
  rcases compileStage_cases houtput with
    ⟨hkind, hnone, hover⟩ | ⟨hkind, projection, hsome, hsame, -, hextends⟩
  · simp only [advance, hnone] at hnext
    cases hnext
    exact .inl ⟨hkind, rfl, hover⟩
  · simp only [advance, hsome, hsame, hextends] at hnext
    cases hnext
    exact .inr ⟨hkind, output, projection, houtput, hsome, rfl, rfl, rfl⟩

end Pipeline

end Conduit
