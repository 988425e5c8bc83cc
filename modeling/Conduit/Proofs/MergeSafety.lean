import Conduit.Proofs.SoundCandidates

/-!
# Merging candidates never fails

Merging lists of candidates fails where candidates of different paths meet, or where they disagree
on whether the path holds arrays.  No stage that a pipeline reaches fails for that reason
(`candidates_merge`).

The candidates of a reached stage are distinct (`reached_sound`), and remain so in all parts of a
match (`TrailSound`).  Whatever else is refused while a stage is read, checked and built has a fault
of its own.  This is followed through each of these passes, along their binds and branches.
-/

namespace Conduit

open List

/-- The computation does not fail because candidates cannot be merged. -/
def Harmless {α : Type} (x : Except CompileError α) : Prop := Spares (fun _ => True) x

attribute [grind] Fault.isMerge

namespace Harmless

variable {α β ν : Type} {x : Except CompileError α} {f : Fault} {path : String}

@[grind ←] lemma ok (a : α) : Harmless (.ok a) := Spares.ok trivial

@[grind ←] lemma pure (a : α) : Harmless (Pure.pure a) := ok a

@[grind ←] lemma error (h : f.isMerge = false) :
    Harmless (.error (f.at path) : Except CompileError α) := Spares.error h

@[grind ←] lemma throw (h : f.isMerge = false) :
    Harmless (throw (f.at path) : Except CompileError α) := error h

@[grind ←] lemma bind {f : α → Except CompileError β} (h : Harmless x)
    (hf : ∀ a, Harmless (f a)) : Harmless (x >>= f) := Spares.bind h fun a _ _ => hf a

@[grind ←] lemma mapM {f : β → Except CompileError α} (h : ∀ b, Harmless (f b)) (bs : List β) :
    Harmless (bs.mapM f) :=
  (Spares.mapM fun b _ => h b).imp fun _ _ _ => trivial

@[grind ←] lemma pureResult (a : α) : Harmless (Pure.pure a : Journaled ν α).result := ok a

@[grind ←] lemma throwResult (h : f.isMerge = false) :
    Harmless (MonadExcept.throw (f.at path) : Journaled ν α).result := error h

@[grind ←] lemma noteResult (n : ν) : Harmless (Journaled.note n).result := ok ()

@[grind ←] lemma ofResult (h : Harmless x) : Harmless (Journaled.of x : Journaled ν α).result := h

@[grind ←] lemma bindResult {x : Journaled ν α} {f : α → Journaled ν β} (h : Harmless x.result)
    (hf : ∀ a, Harmless (f a).result) : Harmless (x >>= f).result :=
  Spares.bindResult h fun a _ _ => hf a

end Harmless

/-! ## Reading -/

@[grind ←] lemma stageObject_harmless (kind : StageKind) (v : Json) :
    Harmless (stageObject kind v) := by
  unfold stageObject
  grind

@[grind ←] lemma checkExpression_harmless (limits : Limits) (site : Site) (v : Json) :
    Harmless (checkExpression limits site v) := by
  unfold checkExpression
  grind

@[grind ←] lemma Rule.checkAll_harmless (rules : List Rule) (site : Site) (op : String) (v : Json)
    (isVariable : Bool) (limits : Limits) :
    Harmless (checkAll rules site op v isVariable limits) := by
  unfold checkAll
  split
  · next f hf =>
    obtain ⟨r, -, hr⟩ := exists_of_findSome?_eq_some hf
    refine .error ?_
    cases r <;> simp only [fault?, valueListFault, conditionsFault] at hr <;> grind
  · exact .ok ()

@[grind ←] lemma Pattern.validate_harmless (cache : Cache) (v : Json) (limits : Limits)
    (path : String) : Harmless (cache.validate v limits path) := by
  unfold Cache.validate
  grind

namespace Match

variable {ctx : Context}

lemma harmless_readsInStep : ReadsInStep ctx ctx Eq fun x _ => Harmless x where
  placeholder? := rfl
  ok := .ok
  error := .error
  bind := .bind
  child _ hs := hs ▸ rfl
  checkExpression v _ := checkExpression_harmless _ _ v
  validate v _ := Pattern.validate_harmless _ v _ _
  checkAll _ _ _ _ _ := Rule.checkAll_harmless _ _ _ _ _ _
  allows := id
  allElements := id

end Match

/-! ## Checking -/

@[grind ←] lemma Context.authorize_harmless (ctx : Context) (id : NodeId) (counts : Bool) :
    Harmless (ctx.authorize id counts).result := by
  unfold authorize authorizeEntries
  grind

@[grind ←] lemma Context.checkLineage_harmless (ctx : Context) (counts : Bool)
    (refuses : NodeId → Bool) {fault : String → Fault} (h : ∀ name, (fault name).isMerge = false)
    (path : String) (ids : List NodeId) :
    Harmless (ctx.checkLineage counts refuses fault path ids).result := by
  induction ids with
  | nil => exact .ok _
  | cons id rest ih =>
    unfold checkLineage
    grind

namespace Match

variable {ctx : Context} {trail : Trail}

@[grind ←] lemma checkNodes_harmless (trail : Trail) (ids : List NodeId) :
    Harmless (checkNodes ctx trail ids).result := by
  induction ids with
  | nil => exact .ok _
  | cons id rest ih =>
    unfold checkNodes
    grind

@[grind ←] lemma checkProperty_harmless (h : Harmless trail.property.result) :
    Harmless (checkProperty ctx trail).result := by
  unfold checkProperty
  grind

@[grind ←] lemma checkStrings_harmless (h : Harmless trail.property.result) :
    Harmless (checkStrings ctx trail).result := by
  unfold checkStrings
  grind

/-- What is left inside the components on the way is found without a failed merge. -/
abbrev TrailMerges (ctx : Context) (trail : Trail) : Prop :=
  TrailSound ctx (fun _ _ => True) ctx.models trail

namespace TrailMerges

variable (h : TrailMerges ctx trail)

include h

lemma property : Harmless trail.property.result := (property_sound h).imp fun _ _ _ => trivial

lemma child (element index : Nat) (key : String) (v : Operand) :
    TrailMerges ctx (trail.child ctx element index key v) :=
  child_sound (fun _ _ _ _ => trivial) h element index key v

lemma parent : TrailMerges ctx trail.parent := by
  cases trail with
  | nil => exact h
  | cons f rest =>
    cases rest with
    | nil => exact h
    | cons g rest => exact fun f hf => h f (mem_cons_of_mem _ hf)

end TrailMerges

lemma harmless_checksInStep (ctx : Context) : ChecksInStep ctx ctx
    (fun t u => t = u ∧ TrailMerges ctx t) fun x _ => Harmless x.result where
  none := .ok _
  both hx hy := Spares.bindResult hx fun _ _ _ => Spares.bindResult hy fun _ _ _ => .ok trivial
  refused _ := .error rfl
  property ht := checkProperty_harmless ht.2.property
  strings ht := Spares.bindResult (checkProperty_harmless ht.2.property) fun _ _ _ =>
    Spares.bindResult (checkStrings_harmless ht.2.property) fun _ _ _ => .ok trivial
  site ht := ht.1 ▸ rfl
  child element index key v ht := ⟨ht.1 ▸ rfl, ht.2.child element index key v⟩

/-! ## Building -/

@[grind ←] lemma castValue_harmless (caster : Caster) (type : PropertyType) (path : String)
    (raw : Json × Bool) : Harmless (Builder.castValue caster type path raw) := by
  unfold Builder.castValue castForQuery
  grind

lemma harmless_inStep (b : Builder) : Builder.InStep b b (fun t u => t = u ∧ TrailMerges b.ctx t)
    fun x _ => Harmless x.result where
  catalog := rfl
  usesIndex := rfl
  currentLocale := rfl
  ok _ := .ok _
  error hf := .error hf
  bind hx hf := Spares.bindResult hx fun a ha _ => hf a ha
  incomplete := .ok ()
  cast _ _ _ _ := .mapM (fun _ => castValue_harmless _ _ _ _) _
  site ht := ht.1 ▸ rfl
  parent ht := ⟨ht.1 ▸ rfl, ht.2.parent⟩
  buildKey ht := ht.1 ▸ rfl
  property ht := ht.2.property
  enter ht _ _ := ⟨ht.1 ▸ rfl, .ok ()⟩

end Match

/-! ## Entering leaves -/

namespace IndexEntries

/-- A leaf that does not fit has a fault of its own. -/
def Misfits (f : Option Fault) : Prop := ∀ g, f = some g → g.isMerge = false

variable {base : Fields}

lemma addPair_misfits (fix : Bool) (fs : Fields) (key : String) (v : Json) :
    Misfits (addPair base fix fs key v).2 := by
  unfold addPair Misfits
  grind

lemma addPairs_misfits (fix : Bool) (pairs : Fields) (fs : Fields) :
    Misfits (addPairs base fix pairs fs).2 := by
  induction pairs generalizing fs with
  | nil =>
    rintro _ ⟨⟩
  | cons kv rest ih =>
    have hfirst := @addPair_misfits base fix fs kv.1 kv.2
    unfold addPairs
    grind

lemma addLeaf_misfits (pairs : Fields) (fs : Fields) : Misfits (addLeaf base pairs fs).2 := by
  unfold addLeaf
  grind [addPairs_misfits, Misfits]

lemma insertAt_misfits {leaf : Fields → Fields × Option Fault} (hleaf : ∀ fs, Misfits (leaf fs).2)
    (steps : List IndexStep) (v : Json) : Misfits (insertAt base leaf steps v).2 := by
  fun_induction insertAt base leaf steps v <;> grind [Misfits]

lemma insert_misfits (e : IndexEntries) (steps : List IndexStep) (pairs : Fields) :
    Misfits (e.insert steps pairs).2 := by
  have hinserted := @insertAt_misfits e.baseFind (addLeaf e.baseFind pairs) (addLeaf_misfits pairs)
  unfold insert
  grind

end IndexEntries

namespace Match

variable {ctx : Context}

@[grind ←] lemma runSteps_harmless (steps : List Step) (i : Indexing) :
    Harmless (runSteps steps i).result := by
  induction steps generalizing i with
  | nil => exact .ok _
  | cons step rest ih =>
    cases step with
    | enter steps pairs path =>
      have hfit := i.entries.insert_misfits steps pairs
      unfold runSteps
      grind [IndexEntries.Misfits]
    | _ =>
      unfold runSteps
      grind

@[grind ←] lemma checkNativeIndexes_harmless (checks : List (String × NodeId)) (query : Json) :
    Harmless (checkNativeIndexes ctx checks query).result := by
  unfold checkNativeIndexes
  grind

lemma build_harmless {root : Trail} (hroot : TrailMerges ctx root) (v : Operand)
    (findings : Findings) : Harmless (build ctx root v findings).result := by
  have hnatural := (harmless_inStep ⟨ctx, findings.references⟩).buildNatural
    (P := fun t u _ => t = u ∧ TrailMerges ctx t)
    ⟨id, fun ht _ => ⟨ht.1 ▸ rfl, ht.2.child _ _ _ _⟩⟩ v ⟨rfl, hroot⟩
  unfold build
  grind

/-- **A match never fails to merge candidates**, if those it is given are sound. -/
lemma compile_harmless (hps : ctx.Sound (fun _ _ => True))
    (value : Json) : Harmless (compile ctx value).result := by
  have hparse : Harmless (parse ctx value) :=
    (stageObject_harmless ..).bind fun fs => harmless_readsInStep.parseExpression rfl (.obj fs)
  refine hparse.ofResult.bindResult fun v => ?_
  have hmodels := @expressionModels_spares ctx ctx.models (Site.root ctx.kind.key) v.children
  have hroot : TrailMerges ctx _ := root_sound v hps hmodels fun _ _ _ _ => trivial
  have hharmless : Harmless _ := hmodels.imp fun _ _ _ => trivial
  refine hharmless.ofResult.bindResult fun models =>
    .bindResult ((hroot _ mem_cons_self).2.imp fun _ _ _ => trivial) fun properties => ?_
  exact ((harmless_checksInStep ctx).checkChildren ⟨rfl, hroot⟩ 0 0 v.children).bindResult fun findings =>
    (build_harmless hroot v findings).bindResult fun _ => .ok _

end Conduit.Match

/-! ## Sorting -/

namespace Conduit.Sort

variable {ctx : Context}

@[grind ←] lemma mergeItems_harmless (vs : List Json) (fs : Fields) :
    Harmless (mergeItems vs fs) := by
  induction vs generalizing fs with
  | nil => exact .ok _
  | cons v rest ih =>
    cases v <;> unfold mergeItems <;> grind

@[grind ←] lemma parseFields_harmless (fs : Fields) : Harmless (parseFields ctx fs) := by
  induction fs with
  | nil => exact .ok _
  | cons f rest ih =>
    unfold parseFields
    grind

lemma parse_harmless (v : Json) : Harmless (parse ctx v) := by
  unfold parse fieldsOf
  grind

@[grind ←] lemma surveyIndex_harmless (path : String) (id : NodeId) (s : Survey) :
    Harmless (surveyIndex ctx path id s) := by
  unfold surveyIndex surveySlot
  grind

@[grind ←] lemma survey_harmless (path : String) (ids : List NodeId) (s : Survey) :
    Harmless (survey ctx path ids s).result := by
  induction ids generalizing s with
  | nil => exact .ok _
  | cons id rest ih =>
    unfold survey
    grind

@[grind ←] lemma sortKey_harmless (properties : List Candidate) (path : String) :
    Harmless (sortKey ctx properties path).result := by
  unfold sortKey
  grind

@[grind ←] lemma sortKeys_harmless (properties : List Candidate)
    (fields : List (String × Direction)) (keys : Fields) (checks : List (String × NodeId)) :
    Harmless (sortKeys ctx properties fields keys checks).result := by
  induction fields generalizing keys checks with
  | nil => exact .ok _
  | cons f rest ih =>
    unfold sortKeys
    grind

@[grind ←] lemma checkNativeIndexes_harmless (sort : Json) (checks : List (String × NodeId)) :
    Harmless (checkNativeIndexes ctx sort checks).result := by
  unfold checkNativeIndexes
  grind

/-- **A sort never fails to merge candidates**, if those it is given are sound. -/
lemma compile_harmless (hps : ctx.Sound (fun _ _ => True))
    (value : Json) : Harmless (compile ctx value).result := by
  refine (parse_harmless value).ofResult.bindResult fun fields => ?_
  have hfound : Harmless (candidates ctx (fields.map Prod.fst)) :=
    (candidates_spares hps (fun _ _ _ _ => trivial) _).imp fun _ _ _ => trivial
  refine hfound.ofResult.bindResult fun properties => ?_
  grind

end Conduit.Sort

/-! ## Pipelines -/

namespace Conduit.Pipeline

/-- **Candidates stay consistent.**  The candidates that any stage of a pipeline starts from have
pairwise distinct paths, and none lists a node twice; so a match or a sort never fails because
candidates of different paths meet, or because they disagree on whether a path holds arrays. -/
theorem candidates_merge {s : Setting} {v : Json} {ctx : Context} {value : Json}
    (h : (ctx, value) ∈ reached s v) :
    (ctx.properties.map Candidate.path).Nodup ∧ (∀ c ∈ ctx.properties, c.nodes.Nodup) ∧
      (ctx.kind = .match ∨ ctx.kind = .sort → ∀ e, (compileStage ctx value).result = .error e →
        e.fault ≠ .pathsDiffer ∧ e.fault ≠ .arraySettingsDiffer) := by
  have hsound := reached_sound h
  refine ⟨hsound.paths, hsound.nodes, fun hkind e he => ?_⟩
  have hharmless : Harmless (compileStage ctx value).result := by
    rw [← reached_strict h] at hsound
    rcases hkind with hkind | hkind <;> rw [compileStage, hkind]
    · exact (Harmless.noteResult _).bindResult fun _ => Match.compile_harmless hsound value
    · exact (Harmless.noteResult _).bindResult fun _ => Sort.compile_harmless hsound value
  rw [he] at hharmless
  cases hharmless with
  | error hmerge =>
    constructor <;>
    · intro hfault
      rw [hfault] at hmerge
      cases hmerge

/-- The shelves, in a strict pipeline. -/
def shelves : Setting where
  catalog := Match.shelfContext.catalog
  options := { object := "c_shelf", strict := true, skipIndexChecks := true }
  indexes := fun _ => []

/-- Values in either document, and then a pattern in the one that holds numbers. -/
def shelfPattern : Json := .arr [ .obj [("$match", .obj [("$or", .arr [
      .obj [("c_s.name", .str "a"), ("c_s.c_v", .str "5")],
      .obj [("c_s.name", .str "b"), ("c_s.c_v", .str "6")]])])],
    .obj [("$match", .obj [("c_s.name", .str "a"), ("c_s.c_v", .obj [("$regex", .str "/x/")])])]]

/-- The second match starts from two candidates and fails, but not to merge them. -/
theorem shelf_pattern_merges : ∃ r ∈ reached shelves shelfPattern, r.1.properties.length = 2 ∧
    (r.1.properties.map Candidate.path).Nodup ∧ ∃ e, (compileStage r.1 r.2).result = .error e ∧
      e.fault ≠ .pathsDiffer ∧ e.fault ≠ .arraySettingsDiffer := by
  obtain ⟨r, hr, hkind, hlength, hfails⟩ : ∃ r ∈ reached shelves shelfPattern, r.1.kind = .match ∧
      r.1.properties.length = 2 ∧ (compileStage r.1 r.2).result.isOk = false := by
    decide +kernel
  obtain ⟨hpaths, -, hmerge⟩ := candidates_merge hr
  cases he : (compileStage r.1 r.2).result with
  | ok output =>
    rw [he] at hfails
    cases hfails
  | error e => exact ⟨r, hr, hlength, hpaths, e, he, hmerge (.inl hkind) e he⟩

end Conduit.Pipeline
