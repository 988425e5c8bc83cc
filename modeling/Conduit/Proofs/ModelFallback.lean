import Conduit.Proofs.ComputedAccess
import Conduit.Proofs.StrictModels
import Conduit.Proofs.UnwoundArrays

/-!
# Falling back on other models

A model that extends others leaves to them the paths that its own nodes do not resolve.  It then
finds what they find, each node once, and one node for each qualified path is kept of it.  Gathering
the nodes of the other models at once gives the same list.

A node that is gathered again changes nothing (`addGathered_again`), since it never takes the place
of a typed variant.  Models extend models before them in every catalog of a run (`Runs.layered`).
So what stages learned of a path is gone once fields are added beside it (`other_paths_reset`).
-/

namespace Conduit

open List

namespace Catalog

variable {c : Catalog} {found : List NodeId} {id : NodeId}

lemma addGathered_cons (old id : NodeId) (rest : List NodeId) : c.addGathered (old :: rest) id =
      if (c.node old).qualifiedPath = (c.node id).qualifiedPath then
        if (c.nodeModel old).typeMaster && (c.nodeModel id).isTypedVariant then id :: rest
        else old :: rest
      else old :: c.addGathered rest id := by
  unfold addGathered
  simp only [span_eq_takeWhile_dropWhile]
  by_cases hsame : (c.node old).qualifiedPath = (c.node id).qualifiedPath
  · simp [hsame]
  · simp only [hsame, if_false, takeWhile_cons, dropWhile_cons, Bool.not_eq_true',
      beq_eq_false_iff_ne, ne_eq, not_false_eq_true, if_true]
    split
    · next hdrop => simp [(Prod.mk.inj hdrop).2]
    · next front first more hdrop =>
      rw [(Prod.mk.inj hdrop).2, ← (Prod.mk.inj hdrop).1]
      dsimp only
      split <;> rfl

lemma addGathered_self (found : List NodeId) (id : NodeId) :
    c.addGathered (c.addGathered found id) id = c.addGathered found id := by
  induction found with
  | nil => simp [addGathered]
  | cons old rest ih =>
    rw [addGathered_cons]
    split
    · split <;> simp_all [addGathered_cons]
    · next hne => rw [addGathered_cons, if_neg hne, ih]

section

variable (hc : Layered c.models)

include hc

/-- Nor does it after another node, which may only have taken the place of a master. -/
lemma addGathered_other (h : c.addGathered found id = found) (other : NodeId) :
    c.addGathered (c.addGathered found other) id = c.addGathered found other := by
  have hmaster : (c.nodeModel other).isTypedVariant = true →
      (c.nodeModel other).typeMaster = false := fun hvariant =>
    Bool.eq_false_iff.2 fun hm => by
      have hnone : (c.nodeModel other).type = none := (hc _).2 hm
      rw [Model.isTypedVariant, hnone] at hvariant
      cases hvariant
  induction found with
  | nil => cases h
  | cons old rest ih =>
    rw [addGathered_cons] at h
    rw [addGathered_cons old other]
    split at h
    · next hsame =>
      split
      · next hother =>
        split
        · next hreplaced =>
          rw [Bool.and_eq_true] at hreplaced
          rw [addGathered_cons, if_pos (hother.symm.trans hsame), hmaster hreplaced.2]
          rfl
        · rw [addGathered_cons, if_pos hsame, h]
      · rw [addGathered_cons, if_pos hsame]
        split
        · next hreplaced =>
          rw [if_pos hreplaced] at h
          rw [(cons.inj h).1]
        · rfl
    · next hne =>
      have hrest := (cons.inj h).2
      split
      · next hother =>
        split <;> rw [addGathered_cons, if_neg (by first | exact hne | exact hother ▸ hne), hrest]
      · rw [addGathered_cons, if_neg hne, ih hrest]

/-- **Gathering a node again changes nothing.** -/
lemma addGathered_again {ids : List NodeId} (h : id ∈ ids) :
    c.addGathered (ids.foldl c.addGathered found) id = ids.foldl c.addGathered found := by
  have hlater : ∀ (more found : List NodeId), c.addGathered found id = found →
      c.addGathered (more.foldl c.addGathered found) id = more.foldl c.addGathered found := by
    intro more
    induction more with
    | nil => exact fun _ h => h
    | cons other more ih => exact fun found h => ih _ (addGathered_other hc h other)
  obtain ⟨front, back, rfl⟩ := append_of_mem h
  rw [foldl_append, foldl_cons]
  exact hlater back _ (addGathered_self _ _)

/-- What is found in two places may be put together before it is gathered. -/
lemma foldl_addGathered_union (old new : List NodeId) :
    (union old new).foldl c.addGathered [] = new.foldl c.addGathered (old.foldl c.addGathered []) := by
  unfold union
  induction new generalizing old with
  | nil => rfl
  | cons id rest ih =>
    rw [foldl_cons, foldl_cons, ih]
    split
    · next hmem => rw [addGathered_again hc (contains_iff_mem.1 hmem)]
    · rw [foldl_append]
      rfl

lemma gatherNodes_fallback {m : ModelId} {path : String} (h : c.ownNodes m path = []) :
    c.gatherNodes [m] path = c.gatherNodes (c.model m).base path := by
  have hfold : ∀ (bs : List ModelId) (found : List NodeId), (∀ b ∈ bs, b < m) →
      (bs.foldl (fun found b => if b < m then union found (c.findNodes b path) else found)
        found).foldl c.addGathered [] =
      bs.foldl (fun found b => (c.findNodes b path).foldl c.addGathered found)
        (found.foldl c.addGathered []) := by
    intro bs
    induction bs with
    | nil => exact fun _ _ => rfl
    | cons b bs ih =>
      intro found hbs
      obtain ⟨hb, hrest⟩ := forall_mem_cons.1 hbs
      rw [foldl_cons, foldl_cons, if_pos hb, ih _ hrest, foldl_addGathered_union hc]
  rw [gatherNodes, foldl_cons, foldl_nil, findNodes, h]
  exact hfold _ [] (hc m).1

end

lemma addProjected_models (c : Catalog) (object : String) (type : Option String)
    (ps : List ProjectedNode) (base : List ModelId) : ∃ root,
    (c.addProjected object type ps base).2.models =
      c.models.push ⟨c.models.size, object, type, false, root, base, true⟩ := by
  simp only [addProjected]
  generalize object ++ "$" ++ toString c.models.size = q
  generalize (Node.mk ..) = root
  obtain ⟨-, hmodels, -⟩ := pushAllProjected_registered ps (c.push root) c.models.size c.nodes.size
    "" q (extends_push root)
  exact ⟨_, congrArg (fun models : Array Model => models.push _) hmodels⟩

end Catalog

namespace Pipeline

variable {s : Setting} {p q : Progress} {done : List (Context × Json)} {document : Json}

/-- The models that are left are in the catalog, which is layered. -/
def InLayers (p : Progress) : Prop :=
  Catalog.Layered p.catalog.models ∧ ∀ m ∈ p.models, m < p.catalog.models.size

lemma Step.layered {r : Context × Json} {next : Progress} (hp : InLayers p)
    (h : Step s p r next) : InLayers next := by
  have hmodels : ∀ m ∈ r.1.models, m < p.catalog.models.size := by
    rw [h.1.context.2.1]
    exact hp.2
  rcases h.cases with ⟨-, hsame, hover⟩ | ⟨-, _, projection, -, -, -, hcatalog, hone⟩
  · rw [InLayers, hsame]
    exact ⟨hp.1, fun m hm => hmodels m (hover.subset hm)⟩
  · obtain ⟨root, hadded⟩ := Catalog.addProjected_models p.catalog s.options.object
      (p.catalog.agreedType r.1.models) projection.nodes
      (if r.1.kind = .addFields then r.1.models else [])
    rw [InLayers, hcatalog, hone, hadded]
    refine ⟨hp.1.push (fun b hb => ?_) Bool.noConfusion, fun m hm => ?_⟩
    · dsimp only at hb
      split at hb
      · exact hmodels b hb
      · cases hb
    · rw [mem_singleton.1 hm, Array.size_push]
      exact Nat.lt_succ_self _

/-- **The catalogs of a run are layered.** -/
lemma Runs.layered (hload : Catalog.load document = .ok s.catalog) (hstart : start s = .ok p)
    (h : Runs s p done q) : InLayers q :=
  h.keeps (P := fun _ p => InLayers p) (fun hp hstep => hstep.layered hp) [] (by
    obtain ⟨hcatalog, -, hmodels⟩ := start_models hload hstart
    rw [InLayers, hcatalog]
    exact ⟨(Catalog.load_layered hload).1, hmodels⟩)

/-- **Falling back agrees with looking up**: for a path that the own nodes of a model do not
resolve, the nodes of the model are those of the models that it extends. -/
theorem fallback_agrees (hload : Catalog.load document = .ok s.catalog) (hstart : start s = .ok p)
    (hrun : Runs s p done q) {m : ModelId} {path : String} (hown : q.catalog.ownNodes m path = []) :
    q.catalog.gatherNodes [m] path = q.catalog.gatherNodes (q.catalog.model m).base path :=
  Catalog.gatherNodes_fallback (hrun.layered hload hstart).1 hown

/-- Two stages that add a field, and one more stage. -/
def aliasesOfType : Json :=
  .arr [.obj [("$addFields", .obj [("c_x", .str "type")])],
    .obj [("$addFields", .obj [("c_y", .str "c_x")])], .obj [("$limit", .int 1)]]

/-- The tags of pets are found through both of the added models. -/
theorem tags_found_through_aliases : ∃ p done q m, start taggedPets = .ok p ∧
    Runs taggedPets p done q ∧ q.catalog.ownNodes m "c_tag" = [] ∧ (q.catalog.model m).base = [3] ∧
      q.catalog.gatherNodes [m] "c_tag" =
        q.catalog.gatherNodes (q.catalog.model m).base "c_tag" := by
  obtain ⟨r, hr, m, -, hown, hbase⟩ : ∃ r ∈ reached taggedPets aliasesOfType, ∃ m ∈ r.1.models,
      r.1.catalog.ownNodes m "c_tag" = [] ∧ (r.1.catalog.model m).base = [3] := by
    decide +kernel
  obtain ⟨done, back, hreached⟩ := append_of_mem hr
  obtain ⟨p, q, hp, hruns, hr⟩ := reached_runs hreached
  rw [hr.context.1] at hown hbase
  exact ⟨p, done, q, m, hp, hruns, hown, hbase, fallback_agrees petSchema_loads hp hruns hown⟩

/-- **Added fields reset all other paths**: a path that they do not have is looked up again in the
models before them, whatever was unwound or narrowed. -/
theorem other_paths_reset (hload : Catalog.load document = .ok s.catalog) {v : Json}
    {r next : Context × Json} {back : List (Context × Json)}
    (h : reached s v = done ++ r :: next :: back) (hkind : r.1.kind = .addFields) {path : String}
    (hown : ∀ m ∈ next.1.models, next.1.catalog.ownNodes m path = []) :
    next.1.candidateNodes path = (next.1.catalog.gatherNodes r.1.models path, none) := by
  obtain ⟨p, q, hp, hruns, hq⟩ := reached_runs (h.trans (append_cons ..))
  obtain ⟨hcatalog, hmodels, hproperties, -⟩ := hq.context
  have hlayers := (hruns.layered hload hp).1
  obtain ⟨_, _, -, hstep, hrest⟩ := hruns.split
  cases hrest
  rcases hstep.cases with ⟨hother, -⟩ | ⟨-, _, projection, -, -, hnil, hadded, hone⟩
  · rw [hkind] at hother
    cases hother
  · rw [hmodels, hone, hcatalog] at hown
    rw [Context.candidateNodes, hproperties, hnil, hcatalog, hmodels, hone]
    refine congrArg (·, none) ((Catalog.gatherNodes_fallback hlayers
      (hown _ (mem_singleton_self _))).trans (congrArg (Catalog.gatherNodes _ · path) ?_))
    obtain ⟨root, hpushed⟩ := Catalog.addProjected_models ..
    rw [hadded, Catalog.model, hpushed, if_pos hkind]
    simp [Catalog.addProjected, Array.getD_eq_getD_getElem?]

/-- Orders whose items are unwound, with one more field. -/
def itemsUnwound : Json :=
  .arr [.obj [("$unwind", .str "c_items")], .obj [("$addFields", .obj [("c_x", .str "object")])],
    .obj [("$limit", .int 1)]]

/-- The items were no list any more, and are what they were before. -/
theorem items_looked_up_again : ∃ done r next back,
    reached orders itemsUnwound = done ++ r :: next :: back ∧
      (r.1.candidateNodes "c_items").2 = some false ∧ next.1.candidateNodes "c_items" =
        (next.1.catalog.gatherNodes r.1.models "c_items", none) := by
  have hlength : (reached orders itemsUnwound).length = 3 := by decide +kernel
  obtain ⟨first, r, next, hreached⟩ := length_eq_three.1 hlength
  have hr : ∀ r ∈ (reached orders itemsUnwound)[1]?,
      r.1.kind = .addFields ∧ (r.1.candidateNodes "c_items").2 = some false := by decide +kernel
  have hnext : ∀ r ∈ (reached orders itemsUnwound)[2]?,
      ∀ m ∈ r.1.models, r.1.catalog.ownNodes m "c_items" = [] := by decide +kernel
  rw [hreached] at hr hnext
  obtain ⟨hkind, harray⟩ := hr r rfl
  have hload : Catalog.load orderSchema = .ok orders.catalog := by
    have hok : (Catalog.load orderSchema).isOk = true := by decide +kernel
    simp only [orders]
    generalize Catalog.load orderSchema = loaded at hok ⊢
    exact eq_ok_getD hok {}
  exact ⟨[first], r, next, [], hreached, harray,
    other_paths_reset hload (show _ = [first] ++ r :: next :: [] from hreached) hkind
      (hnext next rfl)⟩

end Pipeline

end Conduit
