import Conduit.Proofs.SoundCandidates

/-!
# Where candidates come from

The nodes of a candidate are looked up once, by the first stage that names its path, in the models
that this stage leaves.  Later stages narrow the nodes and never look the path up again
(`candidates_resolved`).

A match that later leaves fewer models keeps the nodes of those it excludes, as
`excluded_variant_stays` shows for the tags of pets.
-/

namespace Conduit

open List Candidate

variable {ctx : Context} {value : Json} {done : List (Context × Json)} {c : Catalog}
  {models : List ModelId} {path : String} {n : NodeId}

/-- One of the stages resolved the path, which had no candidate before and has had one since, and
the node is found in a model that was left by this stage.  The models are those left by the last
stage. -/
def Resolved (c : Catalog) (models : List ModelId) (done : List (Context × Json)) (path : String)
    (n : NodeId) : Prop :=
  ∃ before u after, done = before ++ u :: after ∧ find? u.1.properties path = none ∧
    (∀ w ∈ after, (find? w.1.properties path).isSome = true) ∧
    c.FoundIn ((after.head?.map fun next => next.1.models).getD models) path n

lemma resolved_now (hnew : find? ctx.properties path = none) (h : c.FoundIn models path n) :
    Resolved c models (done ++ [(ctx, value)]) path n :=
  ⟨done, (ctx, value), [], rfl, hnew, fun _ hw => absurd hw not_mem_nil, h⟩

lemma Resolved.concat (h : Resolved c ctx.models done path n)
    (hknown : (find? ctx.properties path).isSome = true) (models : List ModelId) (value : Json) :
    Resolved c models (done ++ [(ctx, value)]) path n := by
  obtain ⟨before, u, after, rfl, hnew, hsince, hfound⟩ := h
  refine ⟨before, u, after ++ [(ctx, value)], by simp, hnew, fun w hw => ?_, ?_⟩
  · rcases mem_append.1 hw with hw | hw
    · exact hsince w hw
    · rw [mem_singleton.1 hw]
      exact hknown
  · cases after with
    | nil => exact hfound
    | cons next rest => exact hfound

/-- **A stage looks up the paths that are new to it**, and of the others keeps nodes that it was
given. -/
lemma Handover.resolved {ps : List Candidate} (h : Handover ctx value models ps)
    (hps : ctx.Sound (Resolved ctx.catalog ctx.models done)) :
    Candidate.Sound (Resolved ctx.catalog models (done ++ [(ctx, value)])) ctx.strict ps := by
  have hlater : Candidate.Sound (Resolved ctx.catalog models (done ++ [(ctx, value)])) ctx.strict
      ctx.properties := by
    refine { hps with meaning := fun p hp n hn => ?_ }
    refine (hps.meaning p hp n hn).concat ?_ models value
    rw [hps.find?_of_mem hp]
    rfl
  exact h.sound hlater fun path n hnew hfound => resolved_now hnew hfound

namespace Pipeline

variable {s : Setting}

/-- **Candidates are realized where they were resolved**: every node of a candidate is found, at the
path, in a model which was left by the stage that first named the path. -/
theorem candidates_resolved {v : Json} {r : Context × Json} {back : List (Context × Json)}
    (h : reached s v = done ++ r :: back) {c : Candidate} (hc : c ∈ r.1.properties)
    (hn : n ∈ c.nodes) : Resolved r.1.catalog r.1.models done c.path n := by
  have hsound := (reached_keeps (P := fun done c models ps =>
    Candidate.Sound (Resolved c models done) s.options.strict ps) (fun _ => sound_nil) sound_nil
    (fun _ hover hoptions _ hps => ?_) h).2
  · exact hsound.meaning c hc n hn
  · rw [← hoptions] at hps ⊢
    exact hover.resolved hps

/-- Cats, whose tags are strings, and dogs, whose tags are numbers. -/
def petSchema : Json :=
  .obj [("objects", .arr [.obj [("name", .str "c_pet"), ("properties", .arr []), ("types", .arr [
    .obj [("name", .str "c_cat"), ("properties", .arr [
      .obj [("name", .str "c_tag"), ("type", .str "String")]])],
    .obj [("name", .str "c_dog"), ("properties", .arr [
      .obj [("name", .str "c_tag"), ("type", .str "Number")]])]])]])]

def taggedPets : Setting where
  catalog := (Catalog.load petSchema).toOption.getD {}
  options := { object := "c_pet", skipIndexChecks := true }
  indexes := fun _ => []

lemma petSchema_loads : Catalog.load petSchema = .ok taggedPets.catalog := by
  have hok : (Catalog.load petSchema).isOk = true := by decide +kernel
  simp only [taggedPets]
  generalize Catalog.load petSchema = loaded at hok ⊢
  exact eq_ok_getD hok {}

/-- Pets with a tag, of these the dogs, and of these those with a given tag. -/
def taggedDogs : Json := .arr [.obj [("$match", .obj [("c_tag", .obj [("$exists", .bool true)])])],
    .obj [("$match", .obj [("type", .str "c_dog")])], .obj [("$match", .obj [("c_tag", .str "5")])]]

/-- The tag of a cat among the candidates of dogs was resolved when cats were left. -/
theorem cat_tag_resolved : ∃ done r back c n, reached taggedPets taggedDogs = done ++ r :: back ∧
    c ∈ r.1.properties ∧ n ∈ c.nodes ∧ (∀ m ∈ r.1.models, n ∉ r.1.catalog.findNodes m c.path) ∧
      Resolved r.1.catalog r.1.models done c.path n := by
  obtain ⟨r, hr, c, hc, n, hn, hexcluded⟩ : ∃ r ∈ reached taggedPets taggedDogs,
      ∃ c ∈ r.1.properties, ∃ n ∈ c.nodes, ∀ m ∈ r.1.models, n ∉ r.1.catalog.findNodes m c.path := by
    decide +kernel
  obtain ⟨done, back, hreached⟩ := append_of_mem hr
  exact ⟨done, r, back, c, n, hreached, hc, hn, hexcluded, candidates_resolved hreached hc hn⟩

/-- **A variant that is excluded later stays**: when the dogs among the pets with a tag are asked
for one, the tag may still be that of a cat, which no model that is left has. -/
theorem excluded_variant_stays : ∃ r ∈ reached taggedPets taggedDogs, ∃ c ∈ r.1.properties,
    ∃ n ∈ c.nodes, ∀ m ∈ r.1.models, ∀ n' ∈ r.1.catalog.findNodes m c.path,
      (r.1.catalog.node n').qualifiedPath ≠ (r.1.catalog.node n).qualifiedPath := by
  decide +kernel

end Pipeline

end Conduit
