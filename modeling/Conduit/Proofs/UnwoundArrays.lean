import Conduit.Proofs.SoundCandidates

/-!
# Unwound arrays

A sort refuses a path that lies in an array, unless the candidate of the path says that it is a
single value.  Only an unwind says so, and only of the path that it names; every later stage that
keeps the shape of documents keeps this setting, and a new shape drops it (`Handover.unwinds`).

So a path in an array is sorted by only after it was unwound itself (`sorted_array_unwound`).  The
arrays above it need not be: `inner_unwind_suffices` sorts by an element of an array that is still
inside another one.
-/

namespace Conduit

open List Journaled

variable {ctx : Context} {value : Json} {done : List (Context × Json)} {ps qs : List Candidate}
  {path : String} {c : Candidate}

/-- The stage unwinds the path. -/
def UnwindsPath (r : Context × Json) (path : String) : Prop :=
  r.1.kind = .unwind ∧ Unwind.path? r.1 r.2 = some path

instance (r : Context × Json) (path : String) : Decidable (UnwindsPath r path) :=
  inferInstanceAs (Decidable (_ ∧ _))

/-- A candidate with a setting is a single value, and one of the stages unwinds its path. -/
def Unwinds (done : List (Context × Json)) (ps : List Candidate) : Prop :=
  ∀ c ∈ ps, ∀ b, c.isArray = some b → b = false ∧ ∃ u ∈ done, UnwindsPath u c.path

lemma unwinds_nil : Unwinds done [] := nofun

lemma Unwinds.of_clean (h : Unwinds done ps) (hclean : Candidate.Clean (Candidate.flag ps) qs) :
    Unwinds done qs := by
  intro c hc b hb
  rw [hclean.flags c hc, Candidate.flag, Option.bind_eq_some_iff] at hb
  obtain ⟨d, hd, hb⟩ := hb
  obtain ⟨hmem, hpath⟩ := Candidate.mem_of_find? hd
  exact hpath ▸ h d hmem b hb

lemma Unwinds.concat (h : Unwinds done ps) (r : Context × Json) : Unwinds (done ++ [r]) ps := by
  intro c hc b hb
  obtain ⟨hfalse, u, hu, hpath⟩ := h c hc b hb
  exact ⟨hfalse, u, mem_append_left _ hu, hpath⟩

/-! ## Stages -/

lemma Unwind.mem_setSingle (h : c ∈ candidates.setSingle path ps) :
    c ∈ ps ∨ c.path = path ∧ c.isArray = some false := by
  induction ps with
  | nil => exact .inl h
  | cons d rest ih =>
    rw [candidates.setSingle] at h
    split at h
    · next hpath =>
      rcases mem_cons.1 h with rfl | h
      · exact .inr ⟨hpath, rfl⟩
      · exact .inl (mem_cons_of_mem _ h)
    · rcases mem_cons.1 h with rfl | h
      · exact .inl mem_cons_self
      · exact (ih h).imp_left (mem_cons_of_mem _)

/-- An unwind keeps candidates, or makes that of its path a single value. -/
lemma Unwind.mem_candidates (h : candidates ctx path = .ok qs) (hc : c ∈ qs) :
    c ∈ ctx.properties ∨ c.path = path ∧ c.isArray = some false := by
  unfold candidates at h
  split at h
  · cases h
    exact mem_setSingle hc
  · dsimp only at h
    split at h
    · cases h
    · cases h
      rcases mem_append.1 hc with hc | hc
      · exact .inl hc
      · rw [mem_singleton.1 hc]
        exact .inr ⟨rfl, rfl⟩

/-- **A stage hands on the settings that it was given**; an unwind adds that of its path. -/
lemma Handover.unwinds {models : List ModelId} (h : Handover ctx value models ps)
    (hps : ctx.Sound (fun _ _ => True))
    (hdone : Unwinds done ctx.properties) : Unwinds (done ++ [(ctx, value)]) ps := by
  cases h with
  | @narrowed v _ once _ _ _ _ honce htwice =>
    have hfirst := @Match.componentProperties_realizes ctx models _ hps.toDistinct
      (Site.root ctx.kind.key) v
    have hclean := hfirst.clean honce
    have hsecond := @Match.componentProperties_realizes ctx models _ hclean.toDistinct
      (Site.root ctx.kind.key) v
    exact ((hdone.of_clean hclean).of_clean (hsecond.clean htwice)).concat _
  | @sorted fields _ _ _ hfound =>
    have hspares := Sort.candidates_spares hps (fun _ _ _ _ => trivial) (fields.map Prod.fst)
    rw [hfound] at hspares
    exact (hdone.of_clean hspares.of_ok.2.2).concat _
  | @unwound path _ hkind hpath hfound =>
    intro c hc b hb
    rcases Unwind.mem_candidates hfound hc with hc | ⟨rfl, hsingle⟩
    · exact hdone.concat _ c hc b hb
    · rw [hsingle] at hb
      exact ⟨(Option.some.inj hb).symm, (ctx, value), mem_append_right _ mem_cons_self, hkind, hpath⟩
  | kept => exact hdone.concat _

variable {properties : List Candidate}

lemma Sort.sortKey_single {out : String × List (String × NodeId)}
    (h : (sortKey ctx properties path).result = .ok out) :
    ∃ p, Candidate.find? properties path = some p ∧ holdsArrays ctx p = false := by
  unfold sortKey at h
  split at h
  · cases h
  · next p hp =>
    split at h
    · cases h
    · next hsingle => exact ⟨p, hp, Bool.not_eq_true _ ▸ hsingle⟩

/-- The keys of fields, after others, each with the direction of its field. -/
def Sort.writeKeys (keys : Fields) (fields : List (String × Direction)) (names : List String) :
    Fields :=
  (fields.zip names).foldl (fun keys f => Fields.insert keys f.2 f.1.2.toJson) keys

/-- Every field of a sort gets its key, and nodes that need a native index. -/
lemma Sort.sortKeys_each {fields : List (String × Direction)} {keys : Fields}
    {checks : List (String × NodeId)} {out : Fields × List (String × NodeId)}
    (h : (sortKeys ctx properties fields keys checks).result = .ok out) :
    checks ⊆ out.2 ∧ ∃ names, out.1 = writeKeys keys fields names ∧
      Forall₂ (fun key f => ∃ more ⊆ out.2, (sortKey ctx properties f.1).result = .ok (key, more))
        names fields := by
  induction fields generalizing keys checks with
  | nil =>
    cases h
    exact ⟨Subset.refl _, [], rfl, .nil⟩
  | cons f rest ih =>
    obtain ⟨⟨key, more⟩, hfirst, h⟩ := result_bind_ok_iff.1 h
    obtain ⟨hchecks, names, hkeys, hrest⟩ := ih h
    exact ⟨fun c hc => hchecks (mem_append_left _ hc), key :: names, hkeys,
      .cons ⟨more, fun c hc => hchecks (mem_append_right _ hc), hfirst⟩ hrest⟩

/-- **A sort reads arrays only where a setting says that the path is no array.** -/
lemma Sort.reads_single {output : StageOutput} (hkind : ctx.kind = .sort)
    (h : (compileStage ctx value).result = .ok output) {read : PathRead}
    (hread : read ∈ stageReads ctx value) {n a : NodeId} (hn : n ∈ read.nodes)
    (ha : a ∈ ctx.catalog.lineage n) (harray : (ctx.catalog.node a).array = true) :
    ∃ fields properties c, Sort.parse ctx value = .ok fields ∧
      Sort.candidates ctx (fields.map Prod.fst) = .ok properties ∧
      c ∈ properties ∧ c.path = read.path ∧ c.isArray = some false := by
  rw [stageReads, hkind] at hread
  obtain ⟨_, -, h⟩ := result_bind_ok_iff.1 h
  rw [hkind] at h
  obtain ⟨fields, hparse, h⟩ := result_bind_ok_iff.1 h
  obtain ⟨properties, hfound, h⟩ := result_bind_ok_iff.1 h
  obtain ⟨_, hkeys, -⟩ := result_bind_ok_iff.1 h
  have hparse : Sort.parse ctx value = .ok fields := hparse
  have hfound : Sort.candidates ctx (fields.map Prod.fst) = .ok properties := hfound
  simp only [Sort.reads, hparse, hfound] at hread
  obtain ⟨f, hf, rfl⟩ := mem_map.1 hread
  obtain ⟨-, _, -, hnames⟩ := sortKeys_each hkeys
  obtain ⟨_, -, _, -, hkey⟩ := exists_mem_left hnames hf
  obtain ⟨c, hc, hsingle⟩ := sortKey_single hkey
  obtain ⟨hmem, hpath⟩ := Candidate.mem_of_find? hc
  refine ⟨fields, properties, c, hparse, hfound, hmem, hpath, ?_⟩
  rw [Candidate.nodesOf, hc] at hn
  unfold holdsArrays at hsingle
  cases hset : c.isArray with
  | none =>
    rw [hset, Option.getD_none, any_eq_false] at hsingle
    exact absurd (any_eq_true.2 ⟨a, ha, harray⟩) (hsingle n hn)
  | some b =>
    rw [hset, Option.getD_some] at hsingle
    rw [hsingle]

/-! ## Pipelines -/

namespace Pipeline

variable {s : Setting}

lemma reached_unwinds {v : Json} {r : Context × Json} {back : List (Context × Json)}
    (h : reached s v = done ++ r :: back) : Unwinds done r.1.properties := by
  refine (reached_keeps (P := fun done _ _ ps => Unwinds done ps) (fun _ => unwinds_nil) unwinds_nil
    (fun _ hover _ hps h => ?_) h).2
  exact hover.unwinds hps h

/-- **Nothing in an array is sorted by unless it was unwound.**  Where a sort compiles and a node of
one of its paths lies in an array or is one, an earlier stage unwinds that path. -/
theorem sorted_array_unwound {v : Json} {r : Context × Json} {front back : List (Context × Json)}
    {output : StageOutput} (hreached : reached s v = front ++ r :: back) (hkind : r.1.kind = .sort)
    (hok : (compileStage r.1 r.2).result = .ok output) {read : PathRead}
    (hread : read ∈ stageReads r.1 r.2) {n a : NodeId} (hn : n ∈ read.nodes)
    (ha : a ∈ r.1.catalog.lineage n) (harray : (r.1.catalog.node a).array = true) :
    ∃ u ∈ front, UnwindsPath u read.path := by
  have hsound : Candidate.Sound (fun _ _ => True) r.1.strict r.1.properties := by
    rw [reached_strict (hreached ▸ mem_append_right _ mem_cons_self)]
    exact reached_sound (hreached ▸ mem_append_right _ mem_cons_self)
  obtain ⟨fields, properties, c, -, hfound, hc, hpath, hsingle⟩ :=
    Sort.reads_single hkind hok hread hn ha harray
  have hspares := Sort.candidates_spares hsound (fun _ _ _ _ => trivial) (fields.map Prod.fst)
  rw [hfound] at hspares
  have hunwinds := (reached_unwinds hreached).of_clean hspares.of_ok.2.2
  exact hpath ▸ (hunwinds c hc false hsingle).2

/-- Orders with a list of items, each with a list of tags. -/
def orderSchema : Json :=
  .obj [("objects", .arr [.obj [("name", .str "c_order"), ("properties", .arr [
    .obj [("name", .str "c_items"), ("type", .str "Document"), ("array", .bool true),
      ("properties", .arr [
        .obj [("name", .str "c_tags"), ("type", .str "String"), ("array", .bool true)]])]])]])]

def orders : Setting where
  catalog := (Catalog.load orderSchema).toOption.getD {}
  options := { object := "c_order", skipIndexChecks := true }
  indexes := fun _ => []

/-- A pipeline that unwinds some paths and sorts by the tags of the items. -/
def tagOrder (unwound : List String) : Json :=
  .arr (unwound.map (fun path => .obj [("$unwind", .str path)]) ++
    [.obj [("$sort", .obj [("c_items.c_tags", .int 1)])]])

theorem tag_order_unwinds : ∃ front r back,
    reached orders (tagOrder ["c_items", "c_items.c_tags"]) = front ++ r :: back ∧
      r.1.kind = .sort ∧ ∃ u ∈ front, UnwindsPath u "c_items.c_tags" := by
  obtain ⟨r, hr, hkind, hok, read, hread, hpath, n, hn, a, ha, harray⟩ :
      ∃ r ∈ reached orders (tagOrder ["c_items", "c_items.c_tags"]), r.1.kind = .sort ∧
        (compileStage r.1 r.2).result.isOk = true ∧
        ∃ read ∈ stageReads r.1 r.2, read.path = "c_items.c_tags" ∧
          ∃ n ∈ read.nodes, ∃ a ∈ r.1.catalog.lineage n, (r.1.catalog.node a).array = true := by
    decide +kernel
  obtain ⟨front, back, hreached⟩ := append_of_mem hr
  obtain ⟨output, houtput⟩ := exists_eq_ok hok
  refine ⟨front, r, back, hreached, hkind, ?_⟩
  exact hpath ▸ sorted_array_unwound hreached hkind houtput hread hn ha harray

/-- **An array around an unwound path need not be unwound**: the tags are sorted by, although the
items that hold them are still a list. -/
theorem inner_unwind_suffices : (compile orders (tagOrder ["c_items.c_tags"])).result.isOk = true ∧
      ∃ r ∈ reached orders (tagOrder ["c_items.c_tags"]), r.1.kind = .sort ∧
        ∃ read ∈ stageReads r.1 r.2, ∃ n ∈ read.nodes, ∃ a ∈ r.1.catalog.lineage n,
          (r.1.catalog.node a).array = true ∧ (r.1.catalog.node a).path = "c_items" ∧
            ∀ u ∈ reached orders (tagOrder ["c_items.c_tags"]), ¬ UnwindsPath u "c_items" := by
  decide +kernel

end Pipeline

end Conduit
