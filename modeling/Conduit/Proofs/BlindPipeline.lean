import Conduit.Proofs.BlindSchema
import Conduit.Proofs.BlindStages

/-!
# Pipelines that see nothing of indexes

With `skipIndexChecks` no stage uses an index, whatever the stages before it left, so a pipeline
compiles as it does in a setting without index data (`compile_blind`).

Two settings that are alike but for index data are equal once it is erased, so their compiles are
the same run (`index_data_immaterial`): the same result and the same notes.
-/

namespace Conduit

lemma Journaled.map_bind {ν α β γ : Type} (f : α → β) (x : Journaled ν α)
    (g : β → Journaled ν γ) : (f <$> x) >>= g = x >>= fun a => g (f a) := by
  change x >>= (fun a => pure (f a)) >>= g = _
  rw [Journaled.bind_assoc]
  rfl

lemma Journaled.bind_congr {ν α β : Type} {x : Journaled ν α} {f g : α → Journaled ν β}
    (h : ∀ a, x.result = .ok a → f a = g a) : x >>= f = x >>= g := by
  obtain ⟨r, m⟩ := x
  cases r with
  | error e => rfl
  | ok a => simp only [Journaled.ok_bind, h a rfl]

/-! ## Pipelines -/

namespace Pipeline

/-- A setting in which nothing is said of indexes. -/
@[simps] def Setting.blind (s : Setting) : Setting :=
  { s with catalog := s.catalog.blind, options := s.options.blind, indexes := fun _ => [] }

/-- What the stages so far leave, without what is said of indexes. -/
@[simps] def Progress.blind (p : Progress) : Progress := { p with catalog := p.catalog.blind }

variable (s : Setting)

lemma contextOf_blind (position : Nat) (later : List StageKind) (stage : PendingStage)
    (p : Progress) :
    contextOf s.blind position later stage p.blind = (contextOf s position later stage p).blind :=
  rfl

lemma advance_blind (ctx : Context) (output : StageOutput) (p : Progress) :
    advance s.blind ctx.blind output p.blind = Progress.blind <$> advance s ctx output p := by
  unfold advance
  cases output.projection with
  | none => rfl
  | some projection =>
    simp only [Progress.blind_catalog, Catalog.addProjected_blind, Catalog.agreedType_blind]
    rfl

variable {s} in
lemma advance_usesIndex {ctx : Context} {output : StageOutput} {p next : Progress}
    (h : (advance s ctx output p).result = .ok next) : next.usesIndex = ctx.usesIndex := by
  unfold advance at h
  cases hprojection : output.projection with
  | none =>
    rw [hprojection] at h
    cases h
    rfl
  | some projection =>
    rw [hprojection] at h
    cases h
    rfl

lemma compileFrom_blind : ∀ (stages : List PendingStage) (position : Nat) (p : Progress),
    p.usesIndex = false →
    compileFrom s.blind position stages p.blind = compileFrom s position stages p
  | [], _, _, _ => rfl
  | stage :: rest, position, p, hp => by
    have hindex :
        (contextOf s position (rest.map PendingStage.kind) stage p).usesIndex = false := by
      simp [contextOf, hp]
    simp only [compileFrom, contextOf_blind, compileStage_blind hindex, advance_blind,
      Journaled.map_bind, Context.blind_usesIndex]
    refine Journaled.bind_congr fun output _ => Journaled.bind_congr fun next hnext => ?_
    rw [compileFrom_blind rest (position + 1) next ((advance_usesIndex hnext).trans hindex)]

lemma start_blind : (Journaled.of (start s.blind) : Compile Progress) =
      Progress.blind <$> Journaled.of (start s) := by
  have hmodels : s.blind.catalog.objectModels s.blind.options.object =
    s.catalog.objectModels s.options.object := rfl
  simp only [start, hmodels]
  cases s.catalog.objectModels s.options.object with
  | error e => rfl
  | ok models => rfl

variable {s}

section

variable (hskip : s.options.skipIndexChecks = true)

include hskip

lemma start_usesIndex {p : Progress} (h : start s = .ok p) : p.usesIndex = false := by
  obtain ⟨models, _, hp⟩ := except_bind_ok_iff.mp h
  cases hp
  simp [hskip]

lemma compileStages_blind (v : Json) : compileStages s.blind v = compileStages s v := by
  have hstages : stagesOf s.blind.options v = stagesOf s.options v := rfl
  simp only [compileStages, hstages, start_blind, Journaled.map_bind]
  refine Journaled.bind_congr fun stages _ => Journaled.bind_congr fun p hp => ?_
  exact compileFrom_blind s stages 0 p (start_usesIndex hskip hp)

/-- **A pipeline that checks no index compiles to the same** without all that is said of
indexes. -/
lemma compile_blind (v : Json) : compile s.blind v = compile s v := by
  simp only [compile, compileStages_blind hskip]
  rfl

end

/-- **Index data does not matter where index checks are skipped**: schemas that differ only in
what they say about indexes, options that differ only in base find, collection and `unindexed`,
and any native indexes, give the same compile with the same patterns kept. -/
theorem index_data_immaterial {d d' : SchemaDefinition} (hd : d.blind = d'.blind) {c c' : Catalog}
    (hc : Catalog.ofDefinition d = .ok c) (hc' : Catalog.ofDefinition d' = .ok c')
    {o o' : Options} (ho : o.blind = o'.blind) (hskip : o.skipIndexChecks = true)
    (policy : Policy) (indexes indexes' : String → List IndexDefinition)
    (patterns : Nat → Pattern.Cache) (v : Json) : compile ⟨c, o, policy, indexes, patterns⟩ v =
      compile ⟨c', o', policy, indexes', patterns⟩ v := by
  have hskip' : o'.skipIndexChecks = true := by
    rw [← Options.blind_skipIndexChecks, ← ho]
    exact hskip
  have hsettings : Setting.blind ⟨c, o, policy, indexes, patterns⟩ =
      Setting.blind ⟨c', o', policy, indexes', patterns⟩ := by
    simp only [Setting.blind, Catalog.ofDefinition_alike hd hc hc', ho]
  rw [← compile_blind hskip v, hsettings, compile_blind hskip' v]

/-- A schema whose tag is indexed in some slot, or not at all. -/
def slottedSchema (slot : Option String) : SchemaDefinition where
  objects := [
    { name := "c_pet"
      properties := [
        { traits := { name := "c_tag", type := "String", indexed := slot.isSome, slot } }] }]
  indexes := [("contexts", [])]

def slottedCatalog (slot : Option String) : Catalog :=
  ((Catalog.ofDefinition (slottedSchema slot)).toOption).getD {}

def slottedOptions (slot : Option String) (skipIndexChecks : Bool) : Options :=
  { object := "c_pet", skipIndexChecks, baseFind := slot.toList.map fun s => (s, .null) }

def slottedSetting (slot : Option String) (skipIndexChecks : Bool) : Setting where
  catalog := slottedCatalog slot
  options := slottedOptions slot skipIndexChecks
  indexes := fun _ => []

/-- The tag of some pets. -/
def slottedMatch : Json := .obj [("$match", .obj [("c_tag", .str "x")])]

/-- Without index checks the slot of the tag does not show; with them the match compiles only if
there is one. -/
theorem slot_shows_in_checks :
    compile (slottedSetting (some "a1") true) slottedMatch =
      compile (slottedSetting none true) slottedMatch ∧
    (compile (slottedSetting (some "a1") false) slottedMatch).result.isOk = true ∧
    (compile (slottedSetting none false) slottedMatch).result.isOk = false := by
  have hslot :
      Catalog.ofDefinition (slottedSchema (some "a1")) = .ok (slottedCatalog (some "a1")) :=
    eq_ok_getD (by decide +kernel) {}
  have hnone : Catalog.ofDefinition (slottedSchema none) = .ok (slottedCatalog none) :=
    eq_ok_getD (by decide +kernel) {}
  have hschemas : (slottedSchema (some "a1")).blind = (slottedSchema none).blind := rfl
  have hoptions : (slottedOptions (some "a1") true).blind = (slottedOptions none true).blind := rfl
  exact ⟨index_data_immaterial hschemas hslot hnone hoptions rfl .allowAll (fun _ => [])
    (fun _ => []) (fun _ => []) slottedMatch, by decide +kernel, by decide +kernel⟩

end Pipeline

end Conduit
