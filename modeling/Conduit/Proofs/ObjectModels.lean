import Conduit.Proofs.Journal
import Conduit.Schema.Load

/-!
# Loading objects

A schema is loaded object by object, and an object is one model of its own and one more for each of
its types.  What loading an object keeps therefore holds of a loaded catalog (`ofDefinition_keeps`);
first of all, every object has a model, and models extend only models before them (`load_layered`).
-/

namespace Conduit.Catalog

open List

/-- Models that extend models before them.  Only those without a type are masters. -/
def Layered (models : Array Model) : Prop := ∀ i : ModelId,
  (∀ b ∈ (models.getD i default).base, b < i) ∧
    ((models.getD i default).typeMaster = true → (models.getD i default).type = none)

lemma Layered.push {models : Array Model} (h : Layered models) {m : Model}
    (hbase : ∀ b ∈ m.base, b < models.size) (hmaster : m.typeMaster = true → m.type = none) :
    Layered (models.push m) := by
  intro i
  rcases Nat.lt_trichotomy i models.size with hi | rfl | hi
  · have hsame : (models.push m).getD i default = models.getD i default := by
      simp [Array.getD_eq_getD_getElem?, Array.getElem?_push_lt hi, Array.getElem?_eq_getElem hi]
    rw [hsame]
    exact h i
  · have hlast : (models.push m).getD models.size default = m := by
      simp [Array.getD_eq_getD_getElem?]
    rw [hlast]
    exact ⟨hbase, hmaster⟩
  · have hnone : (models.push m).getD i default = default := by
      rw [Array.getD_eq_getD_getElem?, Array.getElem?_eq_none (by rw [Array.size_push]; omega)]
      rfl
    rw [hnone]
    exact ⟨nofun, Bool.noConfusion⟩

namespace Loading

variable {l k : Loading} {object : String} {shared : List PropertyDefinition}

/-- Models are added to those that are there. -/
structure Adds (l k : Loading) (ids : List ModelId) : Prop where
  objects : k.catalog.objects = l.catalog.objects
  layered : Layered l.catalog.models → Layered k.catalog.models
  size : l.catalog.models.size ≤ k.catalog.models.size
  ids : ∀ id ∈ ids, id < k.catalog.models.size

lemma addModel_adds {type : Option String} {master : Bool} {specific : List PropertyDefinition}
    {id : ModelId} (hmaster : master = true → type = none)
    (h : l.addModel object type master shared specific = .ok (id, k)) : Adds l k [id] := by
  have hadds : ∀ nodes root slots counter, Adds l ⟨{ l.catalog with
      nodes, models := l.catalog.models.push ⟨l.catalog.models.size, object, type, master, root, [],
        false⟩ }, slots, counter⟩ [l.catalog.models.size] := fun nodes root slots counter =>
    ⟨rfl, fun hl => hl.push nofun hmaster, by simp, by simp⟩
  obtain ⟨⟨_, _⟩, -, h⟩ := except_bind_ok_iff.1 h
  cases type with
  | none =>
    cases h
    exact hadds ..
  | some t =>
    obtain ⟨⟨_, _⟩, -, h⟩ := except_bind_ok_iff.1 h
    cases h
    exact hadds ..

lemma Adds.trans {j : Loading} {ids more : List ModelId} (h : Adds l k ids) (h' : Adds k j more) :
    Adds l j (ids ++ more) :=
  ⟨h'.objects.trans h.objects, h'.layered ∘ h.layered, Nat.le_trans h.size h'.size,
    forall_mem_append.2 ⟨fun id hid => Nat.lt_of_lt_of_le (h.ids id hid) h'.size, h'.ids⟩⟩

lemma addTypes_adds {ts : List TypeDefinition} {ids : List ModelId}
    (h : addTypes object shared ts l = .ok (ids, k)) : Adds l k ids := by
  induction ts generalizing l ids with
  | nil =>
    cases h
    exact ⟨rfl, id, Nat.le_refl _, nofun⟩
  | cons t rest ih =>
    unfold addTypes at h
    obtain ⟨-, h⟩ := except_guard_ok_iff.1 h
    split at h
    · cases h
    · obtain ⟨⟨_, mid⟩, hmid, h⟩ := except_bind_ok_iff.1 h
      obtain ⟨⟨_, _⟩, hrest, h⟩ := except_bind_ok_iff.1 h
      cases h
      exact (addModel_adds Bool.noConfusion hmid).trans (ih hrest)

lemma addObject_adds {o : ObjectDefinition} (h : l.addObject o = .ok k) :
    ∃ master variants, k.catalog.objects = l.catalog.objects ++ [(o.name, master :: variants)] ∧
      (Layered l.catalog.models → Layered k.catalog.models) ∧
      l.catalog.models.size ≤ k.catalog.models.size ∧
      ∀ id ∈ master :: variants, id < k.catalog.models.size := by
  obtain ⟨-, h⟩ := except_guard_ok_iff.1 h
  obtain ⟨-, h⟩ := except_guard_ok_iff.1 h
  split at h
  · cases h
  · obtain ⟨⟨master, mid⟩, hmaster, h⟩ := except_bind_ok_iff.1 h
    obtain ⟨⟨variants, _⟩, hvariants, h⟩ := except_bind_ok_iff.1 h
    cases h
    have hadds := (addModel_adds (fun _ => rfl) hmaster).trans (addTypes_adds hvariants)
    exact ⟨master, variants, congrArg (· ++ [(o.name, master :: variants)]) hadds.objects,
      hadds.layered, hadds.size, hadds.ids⟩

end Loading

variable {c : Catalog} {document : Json}

lemma ofDefinition_keeps {P : List ObjectDefinition → Catalog → Prop} (hstart : P [] {})
    (hstep : ∀ {done : List ObjectDefinition} {l k : Loading} {o : ObjectDefinition},
      P done l.catalog → l.addObject o = .ok k → P (done ++ [o]) k.catalog) {s : SchemaDefinition}
    (h : ofDefinition s = .ok c) : ∃ c₀, P s.objects c₀ ∧ c = { c₀ with indexes := s.indexes } := by
  have hfold : ∀ (os done : List ObjectDefinition) (l k : Loading), P done l.catalog →
      os.foldlM Loading.addObject l = .ok k → P (done ++ os) k.catalog := by
    intro os
    induction os with
    | nil =>
      intro done l k hl hk
      cases hk
      rwa [append_nil]
    | cons o rest ih =>
      intro done l k hl hk
      obtain ⟨l', ho, hk⟩ := except_bind_ok_iff.1 hk
      rw [append_cons]
      exact ih _ l' k (hstep hl ho) hk
  obtain ⟨l, hl, h⟩ := except_bind_ok_iff.1 h
  cases h
  exact ⟨l.catalog, hfold _ [] _ l hstart hl, rfl⟩

lemma ofDefinition_of_load (h : load document = .ok c) :
    ∃ s, SchemaDefinition.decode document = .ok s ∧ ofDefinition s = .ok c := by
  unfold load at h
  split at h
  · cases h
  · next s hs =>
    refine ⟨s, hs, ?_⟩
    generalize ofDefinition s = loaded at h ⊢
    cases loaded with
    | error e => cases h
    | ok c' => exact congrArg Except.ok (Except.ok.inj h)

/-- Layered models, of which every object has some. -/
def Founded (c : Catalog) : Prop :=
  Layered c.models ∧ ∀ o ∈ c.objects, o.2 ≠ [] ∧ ∀ m ∈ o.2, m < c.models.size

lemma Founded.addObject {l k : Loading} {o : ObjectDefinition} (h : Founded l.catalog)
    (hk : l.addObject o = .ok k) : Founded k.catalog := by
  obtain ⟨hlayered, hl⟩ := h
  obtain ⟨master, variants, hobjects, hkeeps, hsize, hids⟩ := Loading.addObject_adds hk
  rw [Founded, hobjects]
  refine ⟨hkeeps hlayered, forall_mem_append.2 ⟨fun o ho => ?_, forall_mem_singleton.2
    ⟨cons_ne_nil _ _, hids⟩⟩⟩
  exact ⟨(hl o ho).1, fun m hm => Nat.lt_of_lt_of_le ((hl o ho).2 m hm) hsize⟩

/-- **The models of a loaded schema are layered, and every object has some.** -/
lemma load_layered (h : load document = .ok c) : Founded c := by
  obtain ⟨s, -, hs⟩ := ofDefinition_of_load h
  obtain ⟨c₀, hc₀, rfl⟩ := ofDefinition_keeps (P := fun _ => Founded)
    ⟨fun i => ⟨nofun, Bool.noConfusion⟩, nofun⟩ Founded.addObject hs
  exact hc₀

end Conduit.Catalog
