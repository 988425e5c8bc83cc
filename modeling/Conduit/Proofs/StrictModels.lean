import Conduit.Proofs.ObjectModels
import Conduit.Proofs.ResolvedNodes

/-!
# What strict pipelines hand on

In a strict pipeline every candidate that a stage hands on has a node.  Models run out only where a
match tests names, and not if it resolves a path as well, since no path is found without models
(`strict_candidates_left`).

A match that loses the models compiles nevertheless, as `contrary_types_leave_none` shows.
-/

namespace Conduit

open List Candidate

variable {ctx : Context} {value : Json} {output : StageOutput} {models : List ModelId}
  {ps : List Candidate} {M : String → NodeId → Prop}

/-- A match that leaves none of the models it is given, and resolves no path: what it hands on was
known before. -/
structure LosesModels (ctx : Context) (value : Json) (output : StageOutput) : Prop where
  kind : ctx.kind = .match
  compiled : (compileStage ctx value).result = .ok output
  given : ctx.models ≠ []
  left : output.models = []
  known : ∀ c ∈ output.properties, (find? ctx.properties c.path).isSome = true

/-- One of the stages loses the models. -/
def ModelsLost (done : List (Context × Json)) : Prop :=
  ∃ u ∈ done, ∃ output, LosesModels u.1 u.2 output

lemma Handover.kind_of_models (h : Handover ctx value models ps)
    (hchanged : models ≠ ctx.models) : ctx.kind = .match := by
  cases h with
  | narrowed hkind => exact hkind
  | _ => exact absurd rfl hchanged

/-- Candidates of a strict stage are known, or some model is left that has their nodes. -/
lemma Handover.known (h : Handover ctx value models ps) (hstrict : ctx.strict = true)
    (hps : ctx.Sound M) (hleft : models = []) :
    ∀ c ∈ ps, (find? ctx.properties c.path).isSome = true := by
  have hknown : Candidate.Sound (fun path _ => (find? ctx.properties path).isSome = true)
      ctx.strict ctx.properties := hps.mono fun p hp _ _ _ => by
    rw [hps.find?_of_mem hp]
    rfl
  have hmeets : ctx.catalog.Meets models ctx.properties
      fun path _ => (find? ctx.properties path).isSome = true := by
    rintro path n - ⟨m, hm, -⟩
    rw [hleft] at hm
    exact absurd hm not_mem_nil
  intro c hc
  have hsound := h.sound hknown hmeets
  obtain ⟨n, hn⟩ := exists_mem_of_ne_nil _ (hsound.inhabited hstrict c hc)
  exact hsound.meaning c hc n hn

/-- **A strict stage hands on candidates with nodes**, and models unless they are lost. -/
lemma compileStage_strict {done : List (Context × Json)}
    (h : (compileStage ctx value).result = .ok output) (hstrict : ctx.strict = true)
    (hps : ctx.Sound M) (hdone : ctx.models = [] → ModelsLost done) :
    (∀ c ∈ output.properties, c.nodes ≠ []) ∧
      (output.models = [] → ModelsLost (done ++ [(ctx, value)])) := by
  have hbefore : ctx.models = [] → ModelsLost (done ++ [(ctx, value)]) := fun hnil => by
    obtain ⟨u, hu, hlost⟩ := hdone hnil
    exact ⟨u, mem_append_left _ hu, hlost⟩
  rcases compileStage_cases h with ⟨-, -, hover⟩ | ⟨-, _, -, hmodels, hnil, -⟩
  · have htrue : ctx.Sound (fun _ _ => True) :=
      hps.mono fun _ _ _ _ _ => trivial
    refine ⟨(hover.sound htrue fun _ _ _ _ => trivial).inhabited hstrict, fun hleft => ?_⟩
    by_cases hgiven : ctx.models = []
    · exact hbefore hgiven
    · have hkind := hover.kind_of_models fun hsame => hgiven (hsame ▸ hleft)
      exact ⟨(ctx, value), mem_append_right _ mem_cons_self, output, hkind, h, hgiven, hleft,
        hover.known hstrict hps hleft⟩
  · rw [hnil, hmodels]
    exact ⟨nofun, hbefore⟩

namespace Pipeline

variable {s : Setting}

lemma start_models {document : Json} {p : Progress}
    (hload : Catalog.load document = .ok s.catalog) (h : start s = .ok p) :
    p.catalog = s.catalog ∧ p.models ≠ [] ∧ ∀ m ∈ p.models, m < s.catalog.models.size := by
  obtain ⟨models, hmodels, h⟩ := except_bind_ok_iff.1 h
  cases h
  unfold Catalog.objectModels at hmodels
  split at hmodels
  · next o ho =>
    cases hmodels
    exact ⟨rfl, (Catalog.load_layered hload).2 o (mem_of_find?_eq_some ho)⟩
  · cases hmodels

/-- **Strict pipelines do not go on without candidates**: every candidate that a stage hands on has
a node, and models are left unless a match loses them that resolves no path. -/
theorem strict_candidates_left {document v : Json} {r : Context × Json}
    {front back : List (Context × Json)} (hload : Catalog.load document = .ok s.catalog)
    (hstrict : s.options.strict = true) (h : reached s v = front ++ r :: back)
    (hok : (compileStage r.1 r.2).result = .ok output) :
    (∀ c ∈ output.properties, c.nodes ≠ []) ∧ (output.models = [] → ModelsLost (front ++ [r])) := by
  have hstep : ∀ {done : List (Context × Json)} {ctx : Context} {value : Json}
      {output : StageOutput}, (compileStage ctx value).result = .ok output →
      Handover ctx value output.models output.properties → ctx.options = s.options →
      ctx.Sound (fun _ _ => True) → (ctx.models = [] → ModelsLost done) →
      output.models = [] → ModelsLost (done ++ [(ctx, value)]) :=
    fun hok _ hoptions hps hdone =>
      (compileStage_strict hok (by rw [Context.strict, hoptions, hstrict]) hps hdone).2
  obtain ⟨hsound, hfront⟩ := reached_keeps
    (P := fun done _ models _ => models = [] → ModelsLost done)
    (fun hp hnil => absurd hnil (start_models hload hp).2.1) (fun hnil => by cases hnil) hstep h
  have hr := reached_strict (h ▸ mem_append_right _ mem_cons_self)
  rw [← hr] at hsound
  exact compileStage_strict hok (hr.trans hstrict) hsound hfront

/-- The pets, strictly. -/
def strictPets : Setting := { taggedPets with options := { taggedPets.options with strict := true } }

/-- Cats and dogs, and of these those that are both. -/
def catsAndDogs : Json :=
  .arr [.obj [("$match", .obj [("type", .obj [("$in", .arr [.str "c_dog", .str "c_cat"])])])],
    .obj [("$match", .obj [("$and",
      .arr [.obj [("type", .str "c_dog")], .obj [("type", .str "c_cat")]])])]]

/-- **A match for two types at once compiles and leaves no model.** -/
theorem contrary_types_leave_none : (compile strictPets catsAndDogs).result.isOk = true ∧
    ∃ r ∈ reached strictPets catsAndDogs,
      ((compileStage r.1 r.2).result.toOption.map StageOutput.models) = some [] := by
  decide +kernel

/-- The match for two types loses the models. -/
theorem cats_and_dogs_lost : ∃ front r back output,
    Catalog.load petSchema = .ok strictPets.catalog ∧ strictPets.options.strict = true ∧
      reached strictPets catsAndDogs = front ++ r :: back ∧
      (compileStage r.1 r.2).result = .ok output ∧ output.models = [] ∧
      ModelsLost (front ++ [r]) := by
  have hload : Catalog.load petSchema = .ok strictPets.catalog := by
    simp only [strictPets]
    exact petSchema_loads
  obtain ⟨r, hr, hmodels⟩ : ∃ r ∈ reached strictPets catsAndDogs,
      ((compileStage r.1 r.2).result.toOption.map StageOutput.models) = some [] := by
    decide +kernel
  obtain ⟨front, back, hreached⟩ := append_of_mem hr
  obtain ⟨output, houtput, hnil⟩ := Option.map_eq_some_iff.1 hmodels
  have hresult := eq_ok_of_mem houtput
  exact ⟨front, r, back, output, hload, rfl, hreached, hresult, hnil,
    (strict_candidates_left hload rfl hreached hresult).2 hnil⟩

end Pipeline

end Conduit
