import Conduit.Proofs.AccessComplete
import Conduit.Proofs.BuiltKeys
import Conduit.Proofs.Lifting

/-!
# Coverage by native indexes

A property without an index of its own may be matched if a native index reaches it: the fields that
the index has before it are named by the query.  Names are collected from the whole query, so that
a field before it may stand in a branch of `$or` only, as in `sibling_branch_covers`.  All other
names hold wherever the property is compared (`index_fields_named`).
-/

namespace Conduit

open List Journaled

/-! ## Where a query names a field -/

namespace Json

mutual

/-- The fields that a query names outside all branches of `$or`, and so constrains in any case. -/
def conjoined : Json → List String
  | .obj fs => conjoinedFields fs
  | .arr items => conjoinedItems items
  | _ => []

def conjoinedItems : List Json → List String
  | [] => []
  | v :: rest => conjoined v ++ conjoinedItems rest

def conjoinedFields : Fields → List String
  | [] => []
  | (key, .arr items) :: rest =>
    (if key = "$or" then [] else if Path.isOperator key then conjoinedItems items else [key]) ++
      conjoinedFields rest
  | (key, _) :: rest => (if Path.isOperator key then [] else [key]) ++ conjoinedFields rest

end

mutual

/-- The fields that a query names in branches of `$or`. -/
def branched : Json → List String
  | .obj fs => branchedFields fs
  | .arr items => branchedItems items
  | _ => []

def branchedItems : List Json → List String
  | [] => []
  | v :: rest => branched v ++ branchedItems rest

def branchedFields : Fields → List String
  | [] => []
  | (key, .arr items) :: rest =>
    (if key = "$or" then conjoinedItems items ++ branchedItems items
      else if Path.isOperator key then branchedItems items else []) ++ branchedFields rest
  | (_, _) :: rest => branchedFields rest

end

/-- A field is named somewhere in a query, beside these other fields: those of its own object, of
the objects around it, and of the conjunctions that these stand in. -/
inductive Occurs (path : String) : Json → List String → Prop where
  | here {fs : Fields} (field : path ∈ Fields.keys fs) : Occurs path (.obj fs) (conjoined (.obj fs))
  | inside {fs : Fields} {op : String} {items : List Json} {v : Json} {around : List String}
    (list : (op, .arr items) ∈ fs) (logical : op = "$and" ∨ op = "$or") (item : v ∈ items)
    (occurs : Occurs path v around) : Occurs path (.obj fs) (around ++ conjoined (.obj fs))

variable {path : String}

lemma Occurs.conjoined_subset {query : Json} {around : List String}
    (h : Occurs path query around) : query.conjoined ⊆ around := by
  cases h with
  | here => exact fun _ => id
  | inside => exact subset_append_right _ _

lemma mem_addKey {found : List String} {key : String} :
    path ∈ addKey found key ↔ path ∈ found ∨ path = key := by
  unfold addKey
  split
  · next hmem =>
    rw [contains_iff_mem] at hmem
    exact ⟨.inl, fun h => h.elim id fun h => h ▸ hmem⟩
  · simp

mutual

lemma mem_queryKeys : ∀ (v : Json) (found : List String),
    path ∈ v.queryKeys found → path ∈ found ∨ path ∈ v.conjoined ∨ path ∈ v.branched
  | .obj fs, found, h => mem_queryKeysFields fs found h
  | .arr items, found, h => mem_queryKeysItems items found h
  | .null, _, h | .bool _, _, h | .int _, _, h | .double _, _, h | .str _, _, h => .inl h

lemma mem_queryKeysItems : ∀ (items : List Json) (found : List String),
    path ∈ queryKeysItems items found →
      path ∈ found ∨ path ∈ conjoinedItems items ∨ path ∈ branchedItems items
  | [], _, h => .inl h
  | v :: rest, found, h => by
    rw [conjoinedItems, branchedItems, mem_append, mem_append]
    rcases mem_queryKeysItems rest (v.queryKeys found) h with h | h | h
    · have := mem_queryKeys v found h
      tauto
    · exact .inr (.inl (.inr h))
    · exact .inr (.inr (.inr h))

lemma mem_queryKeysFields : ∀ (fs : Fields) (found : List String), path ∈ queryKeysFields fs found →
      path ∈ found ∨ path ∈ conjoinedFields fs ∨ path ∈ branchedFields fs
  | [], _, h => .inl h
  | (key, .arr items) :: rest, found, h => by
    rw [conjoinedFields, branchedFields, mem_append, mem_append]
    rw [queryKeysFields] at h
    have hor : Path.isOperator "$or" = true := by decide +kernel
    split at h
    · next hop =>
      rcases mem_queryKeysFields rest _ h with h | h | h
      · have hitems := mem_queryKeysItems items found h
        by_cases hkey : key = "$or"
        · rw [if_pos hkey, if_pos hkey, mem_append]
          tauto
        · rw [if_neg hkey, if_neg hkey, if_pos hop, if_pos hop]
          tauto
      · exact .inr (.inl (.inr h))
      · exact .inr (.inr (.inr h))
    · next hop =>
      have hkey : key ≠ "$or" := fun heq => hop (heq ▸ hor)
      rw [if_neg hkey, if_neg hop]
      rcases mem_queryKeysFields rest _ h with h | h | h
      · rcases mem_addKey.1 h with h | rfl
        · exact .inl h
        · exact .inr (.inl (.inl mem_cons_self))
      · exact .inr (.inl (.inr h))
      · exact .inr (.inr (.inr h))
  | (key, .null) :: rest, found, h | (key, .bool _) :: rest, found, h
  | (key, .int _) :: rest, found, h | (key, .double _) :: rest, found, h
  | (key, .str _) :: rest, found, h | (key, .obj _) :: rest, found, h => by
    rw [conjoinedFields, branchedFields, mem_append]
    · rw [queryKeysFields] at h
      · rcases mem_queryKeysFields rest _ h with h | h | h
        · split at h
          · exact .inl h
          · next hop =>
            rw [if_neg hop]
            rcases mem_addKey.1 h with h | rfl
            · exact .inl h
            · exact .inr (.inl (.inl mem_cons_self))
        · exact .inr (.inl (.inr h))
        · exact .inr (.inr h)
      · exact nofun
    all_goals exact nofun

end

end Json

/-! ## What an index reaches -/

/-- What passes the check of native indexes is in one of them, behind fields that are keys. -/
lemma Context.demandIndexed_reaches {ctx : Context} {note : List String → List String → Event}
    {fault : String → Fault} {keys : List String → List String} {checks : List (String × NodeId)}
    (huses : ctx.usesIndex = true) (h : (ctx.demandIndexed note fault keys checks).result = .ok ())
    {check : String × NodeId} (hcheck : check ∈ checks) :
    ∃ d ∈ ctx.indexes ctx.options.collection, ∃ before after,
      d.fields = before ++ (ctx.catalog.node check.2).path :: after ∧
      before ⊆ keys (checks.map fun c => (ctx.catalog.node c.2).path) := by
  rw [demandIndexed_ok_iff, huses] at h
  rcases h with hfalse | rfl | hcovered
  · cases hfalse
  · cases hcheck
  · have hmem := find?_eq_none.1 hcovered check hcheck
    simp only [Bool.not_eq_true', Bool.not_eq_false, contains_iff_mem] at hmem
    obtain ⟨-, d, hd, before, ⟨after, hfields⟩, hkeys⟩ := IndexTree.mem_covered.1 hmem
    refine ⟨d, hd, before, after, by simp [← hfields], fun field hfield => ?_⟩
    exact hkeys.subset (mem_append_left _ hfield)

namespace Match

/-- Whether a key of a query constrains a field: it is the field, or inside it. -/
def Constrains (key field : String) : Prop := key = field ∨ Path.isBelow field key = true

instance (key field : String) : Decidable (Constrains key field) := inferInstanceAs (Decidable (_ ∨ _))

variable {ctx : Context} {notes : List Event} {trail : Trail} {f : Findings} {id : NodeId}

section

variable (huses : ctx.usesIndex = true)

include huses

/-- What passes the check of native indexes is reached by fields that the query names. -/
lemma checkNativeIndexes_reaches {checks : List (String × NodeId)} {query : Json}
    (h : (checkNativeIndexes ctx checks query).result = .ok ()) {check : String × NodeId}
    (hcheck : check ∈ checks) : ∃ d ∈ ctx.indexes ctx.options.collection, ∃ before after,
      d.fields = before ++ (ctx.catalog.node check.2).path :: after ∧
      ∀ field ∈ before, ∃ key ∈ query.queryKeys [], Constrains key field := by
  let keys (paths : List String) := (query.queryKeys []).map fun key =>
    (paths.find? fun p => Path.isBelow p key).getD key
  have hkeys : ∀ paths, ∀ field ∈ keys paths, ∃ key ∈ query.queryKeys [], Constrains key field := by
    intro paths field hfield
    obtain ⟨key, hkey, rfl⟩ := mem_map.1 hfield
    refine ⟨key, hkey, ?_⟩
    cases hfind : paths.find? fun p => Path.isBelow p key with
    | none => exact .inl rfl
    | some p =>
      have hbelow := find?_some hfind
      exact .inr hbelow
  have hdemand : (ctx.demandIndexed .matchCoverage .matchNotIndexed keys checks).result = .ok () := h
  obtain ⟨d, hd, before, after, hfields, hbefore⟩ :=
    Context.demandIndexed_reaches huses hdemand hcheck
  exact ⟨d, hd, before, after, hfields, fun field hfield => hkeys _ field (hbefore hfield)⟩

lemma checkNodes_checks (hunindexed : ctx.options.unindexed = false) {ids : List NodeId}
    (h : checkNodes ctx trail ids = ⟨.ok f, notes⟩) (hid : id ∈ ids)
    (hnative : (ctx.catalog.node id).nativeIndex = false)
    (hindexed : (ctx.catalog.node id).indexed = false) : (trail.fullpath, id) ∈ f.checks := by
  induction ids generalizing f notes with
  | nil => cases hid
  | cons other rest ih =>
    simp only [checkNodes, bind_ok_iff, guard_ok_iff] at h
    obtain ⟨_, _, _, -, ⟨-, g, _, _, hrest, hf, -⟩, -⟩ := h
    cases hf
    rcases mem_cons.1 hid with rfl | hid
    · refine mem_append_left _ ?_
      simp [huses, hunindexed, hnative, hindexed]
    · exact mem_append_right _ (ih hrest hid)

lemma checkProperty_checks
    (hunindexed : ctx.options.unindexed = false) (h : checkProperty ctx trail = ⟨.ok f, notes⟩)
    (hid : id ∈ trailNodes trail) (hnative : (ctx.catalog.node id).nativeIndex = false)
    (hindexed : (ctx.catalog.node id).indexed = false) : (trail.fullpath, id) ∈ f.checks := by
  simp only [checkProperty, bind_ok_iff] at h
  obtain ⟨c, m, n, hc, h, rfl⟩ := h
  cases c with
  | none => cases h
  | some c =>
    simp only [bind_ok_iff, guard_ok_iff] at h
    obtain ⟨g, _, _, hnodes, ⟨-, hf⟩, -⟩ := h
    cases hf
    rw [trailNodes_eq (congrArg result hc)] at hid
    exact checkNodes_checks huses hunindexed hnodes hid hnative hindexed

/-! ## Leaves without placeholders -/

end

lemma leaves_closed (hvars : ctx.options.withVariables = false) {cs : Children}
    (hcs : VettedBelow ctx "$match" cs) (v : Operand) :
    ∀ leaf ∈ leavesBelow ctx (Trail.root ctx v) 0 0 cs, isOpenLeaf leaf.1.site leaf.2 = false := by
  refine forall_leavesBelow (v := .expression cs) (P := fun t x => t ≠ [] ∧ ∃ key,
      (∀ element, VettedBelow ctx key (childrenAt x element)) ∧ (x.isExpression = false →
        t.site.matchOp? = MatchOp.ofKey? key ∧ Vetted ctx key x))
    ⟨?_, ?_⟩ 0 0 cs ⟨root_ne_nil ctx _, "$match", fun element => ?_, nofun⟩ rfl
  · rintro t x element index key y ⟨ht, _, hbelow, -⟩ hget
    have hx := (vettedBelow_iff.1 (hbelow _) _ (mem_of_getElem? hget)).2
    refine ⟨child_ne_nil ht _ _ _ _, _, vettedBelow_childrenAt hx, fun _ => ⟨?_, hx⟩⟩
    rw [site_child ht, matchOp?_child]
  · rintro t v ⟨-, key, -, hv⟩ hexpr hholds
    obtain ⟨hsite, hvetted⟩ := hv hexpr
    cases v with
    | array elements =>
      cases hopen : isOpenLeaf t.site (.array elements) with
      | false => rfl
      | true =>
        simp only [isOpenLeaf, Bool.and_eq_true, beq_iff_eq, Bool.not_eq_true',
          any_eq_false] at hopen
        -- an `$all` without literals holds objects only
        rw [hsite] at hopen
        have hkey : key ∉ ["$and", "$or"] := by
          rw [← MatchOp.key_of_ofKey? hopen.1]
          decide
        refine absurd (hholds elements rfl) (Bool.not_eq_false _ ▸ ?_)
        rw [holdsConditions, hsite, hopen.1]
        refine all_eq_true.2 fun e he => ?_
        rcases hvetted.1.values hkey e he with hsimple | hvariable | ⟨-, hexpr⟩
        · exact absurd hsimple (hopen.2 e he)
        · have hvetted := vettedAmong_iff.1 hvetted.2 e he
          cases e with
          | «variable» name =>
            rw [Vetted, hvars] at hvetted
            cases hvetted
          | _ => cases hvariable
        · exact hexpr
    | «variable» _ =>
      rw [Vetted, hvars] at hvetted
      cases hvetted
    | expression _ => cases hexpr
    | simple _ => rfl
    | property _ | raw _ => exact False.elim hvetted
  · cases element with
    | zero => exact hcs
    | succ n => trivial

/-! ## The query -/

/-- The query of a match passes the check for what its own checks found. -/
lemma compile_checked {value : Json} {v : Operand} {out : StageOutput}
    (hparse : parse ctx value = .ok v) (h : compile ctx value = ⟨.ok out, notes⟩) :
    ∃ findings m query, validate ctx (Trail.root ctx v) v = ⟨.ok findings, m⟩ ∧
      out.json = single "$match" query ∧
      (checkNativeIndexes ctx findings.checks query).result = .ok () := by
  unfold compile at h
  rw [hparse, bind_ok_iff] at h
  obtain ⟨_, _, _, hv, h, -⟩ := h
  cases hv
  simp only [Trail.root, bind_ok_iff] at h
  obtain ⟨_, _, _, -, ⟨_, _, _, -, ⟨findings, m, _, hfindings, ⟨query, _, _, hquery, hout, -⟩, -⟩,
    -⟩, -⟩ := h
  cases hout
  obtain ⟨_, _, _, _, -, -, -, hcheck⟩ := build_ok hquery
  exact ⟨findings, m, query, hfindings, rfl, hcheck⟩

/-- **A native index leads to every property that is compared and has no index of its own**: each
field before it is constrained by a key of the query, and this key holds wherever the property is
named unless it stands in a branch of `$or`. -/
theorem index_fields_named {value : Json} {v : Operand} {out : StageOutput}
    (hkind : ctx.kind = .match) (huses : ctx.usesIndex = true)
    (hunindexed : ctx.options.unindexed = false) (hvars : ctx.options.withVariables = false)
    (hparse : parse ctx value = .ok v) (h : compile ctx value = ⟨.ok out, notes⟩) :
    ∃ query, out.json = single "$match" query ∧
      ∀ leaf ∈ matchLeaves ctx v, ∀ id ∈ trailNodes leaf.1,
        (ctx.catalog.node id).nativeIndex = false → (ctx.catalog.node id).indexed = false →
        ∃ d ∈ ctx.indexes ctx.options.collection, ∃ before after,
          d.fields = before ++ (ctx.catalog.node id).path :: after ∧
          ∀ field ∈ before, ∃ key, Constrains key field ∧ (key ∈ query.branched ∨
            ∀ path around, Constrains path (ctx.catalog.node id).path →
              query.Occurs path around → key ∈ around) := by
  obtain ⟨findings, m, query, hfindings, hjson, hcheck⟩ := compile_checked hparse h
  obtain ⟨cs, rfl, hcs⟩ := parse_vetted hparse
  refine ⟨query, hjson, fun leaf hleaf id hid hnative hindexed => ?_⟩
  have hshape : ShapedChildren (Trail.root ctx (.expression cs)).site cs := by
    show ShapedChildren (Site.root ctx.kind.key) cs
    rw [hkind]
    exact parse_shaped hparse
  obtain ⟨hmem, hempty⟩ := mem_filter.1 hleaf
  have hclosed := leaves_closed hvars hcs _ leaf hmem
  obtain ⟨g, n, hproperty, hchecks, -⟩ := checkChildren_leaves cs _ 0 0 findings m
    (root_ne_nil ctx _) hshape hfindings leaf hmem (by simpa using hempty) hclosed
  have hfound := hchecks (checkProperty_checks huses hunindexed hproperty hid hnative hindexed)
  obtain ⟨d, hd, before, after, hfields, hbefore⟩ := checkNativeIndexes_reaches huses hcheck hfound
  refine ⟨d, hd, before, after, hfields, fun field hfield => ?_⟩
  obtain ⟨key, hkey, hconstrains⟩ := hbefore field hfield
  refine ⟨key, hconstrains, ?_⟩
  rcases Json.mem_queryKeys query [] hkey with hkey | hkey | hkey
  · cases hkey
  · exact .inr fun path around _ hoccurs => hoccurs.conjoined_subset hkey
  · exact .inl hkey

/-- A schema without indexed properties. -/
def weightSchema : Json :=
  .obj [("objects", .arr [.obj [("name", .str "c_pet"), ("properties", .arr [
    .obj [("name", .str "c_age"), ("type", .str "Number")],
    .obj [("name", .str "c_weight"), ("type", .str "Number")]])]])]

/-- A match at the start of a pipeline over that schema, with an index by age and weight. -/
def weightContext : Context where
  catalog := ((Catalog.load weightSchema).toOption).getD {}
  options := { object := "c_pet" }
  indexes := fun _ => [{ name := "c_age_c_weight", fields := ["c_age", "c_weight"] }]
  kind := .match
  models := ((((Catalog.load weightSchema).toOption).getD {}).objectModels "c_pet").toOption.getD []
  usesIndex := true

/-- Weights in two branches are reached through the age beside them. -/
theorem age_holds_beside_weights :
    let ctx := weightContext
    let value := .obj [("c_age", .int 3),
      ("$or", .arr [.obj [("c_weight", .int 1)], .obj [("c_weight", .obj [("$gt", .int 5)])]])]
    ∃ v out query, parse ctx value = .ok v ∧ (compile ctx value).result = .ok out ∧
      out.json = single "$match" query ∧ "c_age" ∉ query.branched ∧
      (∃ leaf ∈ matchLeaves ctx v, ∃ id ∈ trailNodes leaf.1,
        (ctx.catalog.node id).nativeIndex = false ∧ (ctx.catalog.node id).indexed = false ∧
        (ctx.catalog.node id).path = "c_weight") ∧
      ∀ leaf ∈ matchLeaves ctx v, ∀ id ∈ trailNodes leaf.1,
        (ctx.catalog.node id).nativeIndex = false → (ctx.catalog.node id).indexed = false →
        ∃ d ∈ ctx.indexes ctx.options.collection, ∃ before after,
          d.fields = before ++ (ctx.catalog.node id).path :: after ∧
          ∀ field ∈ before, ∃ key, Constrains key field ∧ (key ∈ query.branched ∨
            ∀ path around, Constrains path (ctx.catalog.node id).path →
              query.Occurs path around → key ∈ around) := by
  intro ctx value
  obtain ⟨v, hparse, hleaf⟩ : ∃ v, parse ctx value = .ok v ∧ ∃ leaf ∈ matchLeaves ctx v,
      ∃ id ∈ trailNodes leaf.1, (ctx.catalog.node id).nativeIndex = false ∧
        (ctx.catalog.node id).indexed = false ∧ (ctx.catalog.node id).path = "c_weight" :=
    exists_eq_ok_and (by decide +kernel)
  obtain ⟨out, hresult, hbranched⟩ : ∃ out, (compile ctx value).result = .ok out ∧
      ∀ fs ∈ out.json.obj?, ∀ f ∈ fs, "c_age" ∉ f.2.branched := exists_eq_ok_and (by decide +kernel)
  obtain ⟨query, hjson, hquery⟩ := index_fields_named rfl rfl rfl rfl hparse
    (eq_ok_of_result hresult)
  refine ⟨v, out, query, hparse, hresult, hjson, ?_, hleaf, hquery⟩
  refine hbranched [("$match", query)] ?_ _ mem_cons_self
  rw [hjson]
  rfl

/-- **A field in a sibling branch counts as well**: with ages in one branch and weights in the
other, the index by age and weight is taken to reach the weights, which no age stands beside. -/
theorem sibling_branch_covers :
    let ctx := weightContext
    let value := .obj [("$or", .arr [.obj [("c_age", .int 1)], .obj [("c_weight", .int 2)]])]
    ∃ out query around, (compile ctx value).result = .ok out ∧
      out.json = single "$match" query ∧ query.Occurs "c_weight" around ∧
      ∀ d ∈ ctx.indexes ctx.options.collection, ∀ before after,
        d.fields = before ++ "c_weight" :: after →
        ∃ field ∈ before, ∀ key ∈ around, ¬Constrains key field := by
  intro ctx value
  obtain ⟨out, hresult, hjson⟩ : ∃ out, (compile ctx value).result = .ok out ∧
      out.json = single "$match" value := exists_eq_ok_and (by decide +kernel)
  have hhere : (Json.obj [("c_weight", .int 2)]).Occurs "c_weight" _ := .here (by decide)
  refine ⟨out, value, _, hresult, hjson, .inside mem_cons_self (.inr rfl)
    (mem_cons_of_mem _ mem_cons_self) hhere, fun d hd before after hfields => ?_⟩
  cases mem_singleton.1 hd
  refine ⟨"c_age", ?_, by decide +kernel⟩
  cases before with
  | nil => exact absurd (cons.inj hfields).1 (by decide)
  | cons field rest =>
    rw [← (cons.inj hfields).1]
    exact mem_cons_self

end Match

end Conduit
