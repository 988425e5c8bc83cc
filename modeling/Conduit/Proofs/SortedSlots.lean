import Conduit.Proofs.IndexCoverage
import Conduit.Proofs.LiftedPipeline
import Conduit.Proofs.UnwoundArrays

/-!
# The slots that a sort reads

A sort that can use an index reads the slot of a path's custom index, if one of the nodes that the
path may mean has one.  All such nodes have the same slot.

A node without a custom index is passed over in silence: if all nodes are natively indexed, if a
native index has its path, or if indexes are not asked for.  Nor is it checked that the values of
all nodes are localized alike; the first indexed node decides (`slot_of_one_locale`).
-/

namespace Conduit.Sort

open List Journaled

variable {ctx : Context} {path : String} {id : NodeId} {done ids : List NodeId} {s t : Survey}

/-- What a survey says of the nodes that it went through. -/
structure Surveyed (ctx : Context) (done : List NodeId) (s : Survey) : Prop where
  first : s.slot.map Prod.snd = (done.find? fun id => (ctx.catalog.node id).indexed).map
    fun id => (ctx.catalog.node id).localized
  same : ∀ id ∈ done, (ctx.catalog.node id).indexed = true →
    (ctx.catalog.node id).slot = s.slot.map Prod.fst
  native : s.native = done.countP fun id => (ctx.catalog.node id).nativeIndex
  checks : ∀ id ∈ done, (ctx.catalog.node id).indexed = false →
    (ctx.catalog.node id).nativeIndex = true ∨ ctx.options.unindexed = true ∨ id ∈ s.checks

lemma surveyed_nil : Surveyed ctx [] {} :=
  ⟨rfl, nofun, rfl, nofun⟩

lemma Surveyed.references (h : Surveyed ctx done s) (n : Nat) :
    Surveyed ctx done { s with references := n } := ⟨h.first, h.same, h.native, h.checks⟩

section

variable (huses : ctx.usesIndex = true)

include huses

lemma Surveyed.step (hs : Surveyed ctx done s) (h : surveyIndex ctx path id s = .ok t) :
    Surveyed ctx (done ++ [id]) t := by
  obtain ⟨hfirst, hsame, hnative, hchecks⟩ := hs
  rw [surveyIndex, huses] at h
  have hcount : (s.countNative (ctx.catalog.node id)).native =
      (done ++ [id]).countP fun id => (ctx.catalog.node id).nativeIndex := by
    simp only [Survey.countNative, countP_append, countP_singleton, ← hnative]
    split <;> rfl
  have hslot : (s.countNative (ctx.catalog.node id)).slot = s.slot := by
    unfold Survey.countNative
    split <;> rfl
  have hqueue : (s.countNative (ctx.catalog.node id)).checks = s.checks := by
    unfold Survey.countNative
    split <;> rfl
  generalize s.countNative (ctx.catalog.node id) = u at h hcount hslot hqueue
  rw [← hslot] at hfirst hsame
  rw [← hqueue] at hchecks
  simp only [Bool.not_true, Bool.false_eq_true, if_false, surveySlot] at h
  split at h
  · next hindexed =>
    have hkeep : ∀ other ∈ done ++ [id], (ctx.catalog.node other).indexed = false →
        other ∈ done := fun other hother hplain =>
      (mem_append.1 hother).resolve_right fun hlast => by
        rw [mem_singleton.1 hlast, hindexed] at hplain
        cases hplain
    split at h
    · cases h
    · next name hname hnone =>
      cases h
      rw [hnone, Option.map_none, eq_comm, Option.map_eq_none_iff] at hfirst
      refine ⟨by simp [hfirst, hindexed], fun other hother hother' => ?_, hcount,
        fun other hother hplain => hchecks other (hkeep other hother hplain) hplain⟩
      rcases mem_append.1 hother with hother | hother
      · exact absurd hother' (find?_eq_none.1 hfirst other hother)
      · rw [mem_singleton.1 hother, hname]
        rfl
    · next name current hname hcurrent =>
      split at h
      · next heq =>
        cases h
        refine ⟨?_, fun other hother hother' => ?_, hcount,
          fun other hother hplain => hchecks other (hkeep other hother hplain) hplain⟩
        · rw [hcurrent] at hfirst ⊢
          obtain ⟨first, hfound, hlocalized⟩ := Option.map_eq_some_iff.1 hfirst.symm
          simp [find?_append, hfound, hlocalized]
        · rcases mem_append.1 hother with hother | hother
          · exact hsame other hother hother'
          · rw [mem_singleton.1 hother, hname, hcurrent, heq]
            rfl
      · cases h
  · next hplain =>
    have hplain : (ctx.catalog.node id).indexed = false := Bool.eq_false_iff.2 hplain
    have hrest : ∀ checks, u.checks ⊆ checks → ((ctx.catalog.node id).nativeIndex = true ∨
        ctx.options.unindexed = true ∨ id ∈ checks) →
        Surveyed ctx (done ++ [id]) { u with checks } := fun checks hsub hid => by
      refine ⟨by simpa [find?_append, hplain] using hfirst, fun other hother hother' => ?_, hcount,
        fun other hother hother' => ?_⟩
      · rcases mem_append.1 hother with hother | hother
        · exact hsame other hother hother'
        · rw [mem_singleton.1 hother, hplain] at hother'
          cases hother'
      · rcases mem_append.1 hother with hother | hother
        · exact (hchecks other hother hother').imp_right (Or.imp_right fun hmem => hsub hmem)
        · rwa [mem_singleton.1 hother]
    split at h
    · cases h
      exact hrest _ (subset_append_left ..) (.inr (.inr (mem_append_right _ mem_cons_self)))
    · next hpass =>
      cases h
      refine hrest _ (Subset.refl _) ?_
      cases hnative' : (ctx.catalog.node id).nativeIndex with
      | true => exact .inl rfl
      | false => exact .inr (.inl (by simpa [hnative'] using hpass))

lemma Surveyed.run {notes : List Event} (hs : Surveyed ctx done s)
    (h : survey ctx path ids s = ⟨.ok t, notes⟩) : Surveyed ctx (done ++ ids) t := by
  induction ids generalizing done s notes with
  | nil =>
    cases h
    rwa [append_nil]
  | cons id rest ih =>
    simp only [survey, bind_ok_iff, guard_ok_iff] at h
    obtain ⟨_, _, _, -, ⟨-, next, _, _, hnext, hrest, -⟩, -⟩ := h
    rw [append_cons]
    refine ih (Surveyed.step huses ?_ (congrArg Journaled.result hnext)) hrest
    split
    · exact hs.references _
    · exact hs

/-- How a path with nodes is sorted by a slot, that of the first node with a custom index. -/
structure ReadsSlot (ctx : Context) (nodes : List NodeId) (first : NodeId) (name key : String) :
    Prop where
  key_eq : key = if (ctx.catalog.node first).localized then
    IndexEntries.slotKey name ++ "." ++ ctx.options.currentLocale else IndexEntries.slotKey name
  slot : ∀ id ∈ nodes, (ctx.catalog.node id).indexed = true → (ctx.catalog.node id).slot = some name
  other : ∀ id ∈ nodes, (ctx.catalog.node id).indexed = false →
    (∀ id ∈ nodes, (ctx.catalog.node id).nativeIndex = true) ∨ ctx.options.unindexed = true ∨
      ∃ d ∈ ctx.indexes ctx.options.collection, (ctx.catalog.node id).path ∈ d.fields

variable {properties : List Candidate}

lemma sortKey_surveyed {out : String × List (String × NodeId)}
    (h : (sortKey ctx properties path).result = .ok out) : ∃ p s,
    Candidate.find? properties path = some p ∧ Surveyed ctx p.nodes s ∧
      out = (keyOf ctx path s, s.checks.map fun id => (path, id)) ∧
      (s.native = 0 ∨ s.native = p.nodes.length) := by
  have h := eq_ok_of_result h
  simp only [sortKey] at h
  split at h
  · cases h
  · next p hp =>
    simp only [bind_ok_iff, guard_ok_iff] at h
    obtain ⟨-, s, _, _, hsurvey, ⟨hnative, -, hout⟩, -⟩ := h
    have hs := Surveyed.run huses surveyed_nil hsurvey
    cases hout
    refine ⟨p, s, hp, hs, rfl, ?_⟩
    have hle : s.native ≤ p.nodes.length := hs.native ▸ countP_le_length
    omega

end

lemma Surveyed.sorted {nodes : List NodeId} (hs : Surveyed ctx nodes s)
    (hnative : s.native = 0 ∨ s.native = nodes.length)
    (hchecks : ∀ id ∈ s.checks, ∃ d ∈ ctx.indexes ctx.options.collection,
      (ctx.catalog.node id).path ∈ d.fields) :
    ((∀ id ∈ nodes, (ctx.catalog.node id).indexed = false) ∧
      keyOf ctx path s ∈ [path, path ++ "._id"]) ∨
    ∃ first name, (nodes.find? fun id => (ctx.catalog.node id).indexed) = some first ∧
      ReadsSlot ctx nodes first name (keyOf ctx path s) := by
  have hfirst := hs.first
  cases hslot : s.slot with
  | none =>
    rw [hslot, Option.map_none, eq_comm, Option.map_eq_none_iff, find?_eq_none] at hfirst
    refine .inl ⟨fun id hid => Bool.eq_false_iff.2 (hfirst id hid), ?_⟩
    rw [keyOf, hslot]
    dsimp only
    split <;> simp
  | some slot =>
    rw [hslot] at hfirst
    obtain ⟨first, hfound, hlocalized⟩ := Option.map_eq_some_iff.1 hfirst.symm
    refine .inr ⟨first, slot.1, hfound, ?_, fun id hid hindexed => ?_, fun id hid hplain => ?_⟩
    · rw [keyOf, hslot, hlocalized]
    · rw [hs.same id hid hindexed, hslot]
      rfl
    · rcases hs.checks id hid hplain with hn | hunindexed | hcheck
      · refine .inl (countP_eq_length.1 (hs.native ▸ hnative.resolve_left fun hzero => ?_))
        rw [hs.native] at hzero
        exact countP_eq_zero.1 hzero id hid hn
      · exact .inr (.inl hunindexed)
      · exact .inr (.inr (hchecks id hcheck))

/-- **All custom indexes of a sorted path have the slot that is read.**  Each field is written under
its key, in order.  Where no node has a custom index, the path itself is sorted by; otherwise a
node without one is as `ReadsSlot.other` says. -/
theorem sorted_slots_agree {value : Json} {output : StageOutput} (hkind : ctx.kind = .sort)
    (huses : ctx.usesIndex = true) (h : (compileStage ctx value).result = .ok output) :
    ∃ fields keys, parse ctx value = .ok fields ∧
      output.json = .obj [("$sort", .obj (writeKeys [] fields keys))] ∧
      Forall₂ (fun key f => ∃ p, Candidate.find? output.properties f.1 = some p ∧
        (((∀ id ∈ p.nodes, (ctx.catalog.node id).indexed = false) ∧ key ∈ [f.1, f.1 ++ "._id"]) ∨
          ∃ first name, (p.nodes.find? fun id => (ctx.catalog.node id).indexed) = some first ∧
            ReadsSlot ctx p.nodes first name key)) keys fields := by
  obtain ⟨_, -, h⟩ := result_bind_ok_iff.1 h
  rw [hkind] at h
  obtain ⟨fields, hparse, h⟩ := result_bind_ok_iff.1 h
  obtain ⟨properties, -, h⟩ := result_bind_ok_iff.1 h
  obtain ⟨⟨keys, checks⟩, hkeys, h⟩ := result_bind_ok_iff.1 h
  obtain ⟨_, hindexes, h⟩ := result_bind_ok_iff.1 h
  cases h
  obtain ⟨-, names, rfl, hnames⟩ := sortKeys_each hkeys
  refine ⟨fields, names, hparse, rfl, hnames.imp fun key f ⟨more, hmore, hkey⟩ => ?_⟩
  obtain ⟨p, s, hp, hs, hout, hnative⟩ := sortKey_surveyed huses hkey
  cases hout
  refine ⟨p, hp, hs.sorted hnative fun id hid => ?_⟩
  let own := (Json.obj (writeKeys [] fields names)).queryKeys ((Json.obj ctx.baseFind).queryKeys [])
  have hdemand : (ctx.demandIndexed .sortCoverage .sortNotIndexed
    (fun _ => ctx.priorIndexKeys.foldl Json.addKey own) checks).result = .ok () := hindexes
  obtain ⟨d, hd, before, after, hfields, -⟩ :=
    Context.demandIndexed_reaches huses hdemand (hmore (mem_map_of_mem hid))
  exact ⟨d, hd, by simp [hfields]⟩

/-- Cats and dogs with a tag, which is localized for cats as given. -/
def slottedSchema (localized : Bool) : Json :=
  let tag (localized : Bool) := Json.arr [.obj [("name", .str "c_tag"), ("type", .str "String"),
    ("indexed", .bool true), ("slot", .str "s1"), ("localized", .bool localized)]]
  .obj [("objects", .arr [.obj [("name", .str "c_pet"), ("properties", .arr []), ("types", .arr [
    .obj [("name", .str "c_cat"), ("properties", tag localized)],
    .obj [("name", .str "c_dog"), ("properties", tag false)]])]])]

/-- A sort of pets that can use an index. -/
def slottedStage (localized : Bool) : Context where
  catalog := (Catalog.load (slottedSchema localized)).toOption.getD {}
  options := { object := "c_pet" }
  indexes := fun _ => []
  kind := .sort
  models := [0, 1, 2]
  usesIndex := true

/-- The tags of cats and dogs have the slot that a sort by the tag reads. -/
theorem pets_sorted_by_slot : ∃ output p first name key,
    (compileStage (slottedStage false) (.str "c_tag")).result = .ok output ∧
      output.json = .obj [("$sort", .obj [(key, .int 1)])] ∧
      p ∈ output.properties ∧ ReadsSlot (slottedStage false) p.nodes first name key := by
  obtain ⟨output, houtput, hindexed⟩ : ∃ output,
      (compileStage (slottedStage false) (.str "c_tag")).result = .ok output ∧
        ∀ p ∈ output.properties, ∃ id ∈ p.nodes,
          ((slottedStage false).catalog.node id).indexed = true :=
    exists_eq_ok_and (by decide +kernel)
  obtain ⟨fields, keys, hparse, hjson, hall⟩ := sorted_slots_agree rfl rfl houtput
  obtain ⟨_, hfields, hone⟩ : ∃ fields, parse (slottedStage false) (.str "c_tag") = .ok fields ∧
      fields.map (·.2.toJson) = [.int 1] := exists_eq_ok_and (by decide +kernel)
  cases hparse.symm.trans hfields
  obtain ⟨f, rfl, hf⟩ := map_eq_singleton_iff.1 hone
  obtain _ | @⟨key, _, _, _, ⟨p, hp, hplain | ⟨first, name, -, hslot⟩⟩, _ | _⟩ := hall
  · obtain ⟨id, hid, hindexed⟩ := hindexed p (Candidate.mem_of_find? hp).1
    rw [hplain.1 id hid] at hindexed
    cases hindexed
  · rw [← hf]
    exact ⟨output, p, first, name, key, houtput, hjson, (Candidate.mem_of_find? hp).1, hslot⟩

/-- **A sort reads the slot of one locale for values that have none**: where only the tags of cats
are localized, dogs are sorted by the same key. -/
theorem slot_of_one_locale :
    ((compileStage (slottedStage true) (.str "c_tag")).result.toOption.map StageOutput.json) =
      some (.obj [("$sort", .obj [("idx.d.s1.en_US", .int 1)])]) ∧
    ((slottedStage true).catalog.gatherNodes [0, 1, 2] "c_tag").map
      (fun id => ((slottedStage true).catalog.node id).localized) = [true, false] := by
  decide +kernel

end Conduit.Sort
