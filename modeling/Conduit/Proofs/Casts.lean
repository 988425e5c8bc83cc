import Conduit.Proofs.ClauseIndex
import Conduit.Proofs.MatchConditions

/-!
# What literals are cast to

Casting keeps literals literals, and patterns and circles as they are.  So the values of a leaf
are told apart by their text, and none of them brings in a key of the index tree
(`castForQuery_isLiteral`).
-/

namespace Conduit

open List

open Json

lemma Pattern.ofJson?_toJson (p : Pattern) : Pattern.ofJson? p.toJson = some p := by
  simp [Pattern.ofJson?, Pattern.toJson, Fields.get?]

/-- The types whose values have a stored form of their own. -/
def storedTypes : List PropertyType := [.string, .number, .boolean, .date, .objectId]

/-- Whether a value is stored as one of a type. -/
def HasStoredType : PropertyType → Json → Prop
  | .string, v => ∃ s, v = .str s
  | .number, v => (∃ n, v = .int n) ∨ ∃ x, v = .double x
  | .boolean, v => ∃ b, v = .bool b
  | .date, v => ∃ s, v = .obj [("$date", .str s)]
  | .objectId, v => ∃ s, v = .obj [("$oid", .str s)]
  | _, _ => False

namespace Cast

variable {type : PropertyType} {w v : Json}

lemma to?_stored (htype : type ∈ storedTypes) (h : to? type v = some w) : HasStoredType type w := by
  simp only [storedTypes, mem_cons, not_mem_nil, or_false] at htype
  rcases htype with rfl | rfl | rfl | rfl | rfl
  · simp only [to?, toString?] at h
    split at h <;> cases h <;> exact ⟨_, rfl⟩
  · simp only [to?, toNumber?] at h
    split at h
    · cases h
      exact .inl ⟨_, rfl⟩
    · cases h
      exact .inr ⟨_, rfl⟩
    · cases h
      exact .inl ⟨_, rfl⟩
    · split at h
      · cases h
        exact .inl ⟨_, rfl⟩
      · split at h
        · cases h
          exact .inr ⟨_, rfl⟩
        · cases h
    · cases h
  · simp only [to?, toBoolean?] at h
    split at h
    · cases h
      exact ⟨_, rfl⟩
    · split at h
      · cases h
        exact ⟨_, rfl⟩
      · split at h
        · cases h
          exact ⟨_, rfl⟩
        · cases h
    · cases h
      exact ⟨_, rfl⟩
    · cases h
      exact ⟨_, rfl⟩
    · cases h
  · obtain ⟨t, -, rfl⟩ := Option.map_eq_some_iff.1 h
    exact ⟨_, rfl⟩
  · obtain ⟨hex, -, rfl⟩ := Option.map_eq_some_iff.1 h
    exact ⟨_, rfl⟩

/-- A cast keeps the value, or gives a scalar, a date or an identifier. -/
lemma to?_cases (h : to? type v = some w) :
    w = v ∨ (w.isArr = false ∧ w.isObj = false) ∨ (∃ s, w = .obj [("$date", .str s)]) ∨
      ∃ s, w = .obj [("$oid", .str s)] := by
  cases type with
  | string | boolean =>
    obtain ⟨_, rfl⟩ := to?_stored (by decide) h
    exact .inr (.inl ⟨rfl, rfl⟩)
  | number =>
    rcases to?_stored (by decide) h with ⟨_, rfl⟩ | ⟨_, rfl⟩ <;> exact .inr (.inl ⟨rfl, rfl⟩)
  | date => exact .inr (.inr (.inl (to?_stored (by decide) h)))
  | objectId | reference =>
    obtain ⟨hex, -, rfl⟩ := Option.map_eq_some_iff.1 h
    exact .inr (.inr (.inr ⟨_, rfl⟩))
  | _ =>
    cases h
    exact .inl rfl

lemma to?_circle {x : List Json} (h : to? type (.obj [("$centerSphere", .arr x)]) = some w) :
    w = .obj [("$centerSphere", .arr x)] := by
  cases type
  case date => simp [to?, toDate?, Instant.ofJson?] at h
  case objectId | reference => simp [to?, toObjectId?, objectIdHex?] at h
  case string | number | boolean => cases h
  all_goals
    cases h
    rfl

end Cast

variable {v w : Json} {type : PropertyType} {path : String}

lemma castForQuery_cases (h : castForQuery type v path = .ok w) :
    w = v ∨ Cast.to? type v = some w := by
  unfold castForQuery at h
  split at h
  · cases h
    exact .inl rfl
  · split at h
    · next heq =>
      cases h
      exact .inr heq
    · cases h

/-- **Literals are cast to literals.** -/
lemma castForQuery_isLiteral (hv : v.IsLiteral) (h : castForQuery type v path = .ok w) :
    w.IsLiteral := by
  rcases castForQuery_cases h with rfl | h
  · exact hv
  · rcases Cast.to?_cases h with rfl | ⟨harr, hobj⟩ | ⟨s, rfl⟩ | ⟨s, rfl⟩
    · exact hv
    · exact Match.isLiteral_of_scalar harr hobj
    · exact .date s
    · exact .oid s

lemma castForQuery_isPlain (harr : v.isArr = false) (hobj : v.isObj = false)
    (h : castForQuery type v path = .ok w) : Match.isPlain w = true := by
  have hscalar : ∀ {x : Json}, x.isObj = false → Match.isPlain x = true := by
    intro x hx
    cases x with
    | obj fs => cases hx
    | _ => rfl
  rcases castForQuery_cases h with rfl | h
  · exact hscalar hobj
  · rcases Cast.to?_cases h with rfl | ⟨-, hobj⟩ | ⟨s, rfl⟩ | ⟨s, rfl⟩
    · exact hscalar hobj
    · exact hscalar hobj
    · show (!Document.isQueryOperator "$date") = true
      decide
    · show (!Document.isQueryOperator "$oid") = true
      decide

lemma castForQuery_pattern {p : Pattern} (h : castForQuery type p.toJson path = .ok w) :
    w = p.toJson := by
  exact (Except.ok.inj h).symm

lemma castForQuery_circle {x : List Json}
    (h : castForQuery type (.obj [("$centerSphere", .arr x)]) path = .ok w) :
    w = .obj [("$centerSphere", .arr x)] := by
  rcases castForQuery_cases h with rfl | h
  · rfl
  · exact Cast.to?_circle h

lemma mentions_of_isLiteral (h : w.IsLiteral) : mentions Match.treeKeys w = false := by
  cases h
  case pattern p => simp [Pattern.toJson, mentions, mentionsFields, Match.treeKeys,
    IndexEntries.marker]
  all_goals simp [mentions, mentionsItems, mentionsFields, Match.treeKeys, IndexEntries.marker]

namespace Match

open IndexEntries

/-! ## The casts of a leaf -/

/-- A leaf compares a field with a literal, or an operator with what it demands. -/
def ShapedLeaf (leaf : LeafAt) : Prop := match leaf.1.site.matchOp? with
  | none => ∃ w, leaf.2 = .simple w ∧ w.isArr = false ∧ w.isObj = false
  | some op => Compares op leaf.2

/-- Whether a leaf compares with one value for each node. -/
def isSingle (leaf : LeafAt) : Bool :=
  leaf.1.site.matchOp? != some .oneOf && leaf.1.site.matchOp? != some .noneOf

/-- The literals of a leaf can be cast for each node it may mean. -/
def CastsOk (ctx : Context) (leaf : LeafAt) : Prop :=
  isCast leaf = true → ∀ id ∈ trailNodes leaf.1,
    (Builder.rawValues leaf.2).mapM (Builder.castValue (casterOf leaf.1.site)
      (ctx.catalog.node id).type leaf.1.fullpath) = .ok (castsOf ctx leaf id)

/-- The nodes of a leaf agree on one value. -/
def Uniform (ctx : Context) (leaf : LeafAt) : Prop :=
  ∃ w, ∀ casts ∈ leafCasts ctx leaf, casts = [w]

/-- The casts for the last node hold those for every other one. -/
def LastCovers (ctx : Context) (leaf : LeafAt) : Prop :=
  ∀ last ∈ (leafCasts ctx leaf).getLast?, ∀ casts ∈ leafCasts ctx leaf, casts ⊆ last

variable {ctx : Context} {leaf : LeafAt} {ws : List Json}

lemma ShapedLeaf.raw (h : ShapedLeaf leaf) : ∀ raw ∈ Builder.rawValues leaf.2, raw.2 = false := by
  obtain ⟨trail, v⟩ := leaf
  unfold ShapedLeaf at h
  split at h
  · obtain ⟨w, rfl, -, -⟩ := h
    simp [Builder.rawValues, Builder.rawValue]
  · cases v with
    | simple w => simp [Builder.rawValues, Builder.rawValue]
    | array elements =>
      intro raw hraw
      obtain ⟨e, he, rfl⟩ := mem_map.1 hraw
      obtain ⟨w, rfl, -⟩ := h.2 e he
      rfl
    | _ => cases h

lemma ShapedLeaf.simple (h : ShapedLeaf leaf) (hsingle : isSingle leaf = true) :
    ∃ w, leaf.2 = .simple w := by
  obtain ⟨trail, v⟩ := leaf
  unfold ShapedLeaf at h
  split at h
  · obtain ⟨w, rfl, -, -⟩ := h
    exact ⟨w, rfl⟩
  · next op hop =>
    cases v with
    | simple w => exact ⟨w, rfl⟩
    | array elements =>
      simp only [isSingle, hop] at hsingle
      rcases h.1 with rfl | rfl <;> cases hsingle
    | _ => cases h

variable {c w : Json} {casts : List Json} {leaf : LeafAt} {d : Document} {vs : List Json}
  {key : String}

lemma mem_castsOf {id : NodeId} (h : c ∈ castsOf ctx leaf id) : ∃ raw ∈ Builder.rawValues leaf.2,
      Builder.castValue (casterOf leaf.1.site) (ctx.catalog.node id).type leaf.1.fullpath raw =
        .ok c := by
  obtain ⟨raw, hraw, hc⟩ := mem_filterMap.1 h
  refine ⟨raw, hraw, ?_⟩
  cases hcast : Builder.castValue (casterOf leaf.1.site) (ctx.catalog.node id).type
      leaf.1.fullpath raw with
  | ok w =>
    rw [hcast] at hc
    cases hc
    rfl
  | error e =>
    rw [hcast] at hc
    cases hc

lemma mem_leafCasts (h : casts ∈ leafCasts ctx leaf) :
    isCast leaf = true ∧ ∃ id ∈ trailNodes leaf.1, casts = castsOf ctx leaf id := by
  unfold leafCasts at h
  split at h
  · next hcast =>
    obtain ⟨id, hid, rfl⟩ := mem_map.1 h
    exact ⟨hcast, id, hid, rfl⟩
  · cases h

lemma castValue_isLiteral {caster : Caster} (hw : w.IsLiteral)
    (h : Builder.castValue caster type path (w, false) = .ok c) : c.IsLiteral := by
  cases caster with
  | stored => exact castForQuery_isLiteral hw h
  | truth =>
    cases h
    exact .bool _

section

variable (hleaf : ShapedLeaf leaf)

include hleaf

lemma casts_isLiteral (hwithin : leaf.1.site.matchOp? ≠ some .within)
    (hcasts : casts ∈ leafCasts ctx leaf) (hc : c ∈ casts) : c.IsLiteral := by
  obtain ⟨hcast, id, -, rfl⟩ := mem_leafCasts hcasts
  obtain ⟨raw, hraw, hok⟩ := mem_castsOf hc
  obtain ⟨trail, v⟩ := leaf
  unfold ShapedLeaf at hleaf
  split at hleaf
  · obtain ⟨w, rfl, harr, hobj⟩ := hleaf
    cases mem_singleton.1 hraw
    exact castValue_isLiteral (isLiteral_of_scalar harr hobj) hok
  · next op hop =>
    cases v with
    | simple w =>
      cases mem_singleton.1 hraw
      cases op
      case hasType | size => simp [isCast, hop] at hcast
      case present =>
        rw [casterOf, if_pos hop] at hok
        cases hok
        exact .bool _
      case pattern =>
        obtain ⟨p, rfl⟩ := hleaf
        exact castValue_isLiteral (.pattern p) hok
      case within => exact absurd hop hwithin
      case oneOf | noneOf | and | or | all | elemMatch => cases hleaf
      all_goals exact castValue_isLiteral hleaf hok
    | array elements =>
      obtain ⟨e, he, rfl⟩ := mem_map.1 hraw
      obtain ⟨w, rfl, hw⟩ := hleaf.2 e he
      exact castValue_isLiteral hw hok
    | _ => cases hleaf

lemma casts_unchanged
    (hop : leaf.1.site.matchOp? = some .within ∨ leaf.1.site.matchOp? = some .pattern)
    (hcasts : casts ∈ leafCasts ctx leaf) (hc : c ∈ casts) : leaf.2 = .simple c := by
  obtain ⟨-, id, -, rfl⟩ := mem_leafCasts hcasts
  obtain ⟨raw, hraw, hok⟩ := mem_castsOf hc
  obtain ⟨trail, v⟩ := leaf
  obtain ⟨w, rfl⟩ : ∃ w, v = .simple w :=
    hleaf.simple (by rcases hop with h | h <;> simp [isSingle, h])
  cases mem_singleton.1 hraw
  have hstored : casterOf trail.site = .stored := by
    rw [casterOf, if_neg]
    rcases hop with h | h <;> rw [h] <;> decide
  simp only [hstored] at hok
  rcases hop with hop | hop <;> simp only [ShapedLeaf, hop] at hleaf
  · obtain ⟨lng, lat, radius, rfl, -⟩ := hleaf
    rw [castForQuery_circle hok]
  · obtain ⟨p, rfl⟩ := hleaf
    have hok : castForQuery (ctx.catalog.node id).type p.toJson trail.fullpath = .ok c := hok
    rw [castForQuery_pattern hok]

lemma casts_singleton (hsingle : isSingle leaf = true)
    (hok : CastsOk ctx leaf) (hcasts : casts ∈ leafCasts ctx leaf) : ∃ c, casts = [c] := by
  obtain ⟨hcast, id, hid, rfl⟩ := mem_leafCasts hcasts
  obtain ⟨w, hw⟩ := hleaf.simple hsingle
  have hmap := hok hcast id hid
  rw [hw] at hmap
  simp only [Builder.rawValues, mapM_cons, mapM_nil, except_bind_ok_iff] at hmap
  obtain ⟨c, -, _, hnil, hmap⟩ := hmap
  cases hnil
  exact ⟨c, (Except.ok.inj hmap).symm⟩

/-- Where the last node covers the others, all agree on a single value. -/
lemma uniform_of_covers (hsingle : isSingle leaf = true)
    (hok : CastsOk ctx leaf) (hcovers : LastCovers ctx leaf) : Uniform ctx leaf := by
  cases hlast : (leafCasts ctx leaf).getLast? with
  | none =>
    rw [List.getLast?_eq_none_iff] at hlast
    exact ⟨.null, fun casts hcasts => by rw [hlast] at hcasts; cases hcasts⟩
  | some last =>
    obtain ⟨w, rfl⟩ := casts_singleton hleaf hsingle hok (mem_of_getLast? hlast)
    refine ⟨w, fun casts hcasts => ?_⟩
    obtain ⟨c, rfl⟩ := casts_singleton hleaf hsingle hok hcasts
    have hc := hcovers [w] hlast [c] hcasts (mem_singleton_self c)
    rw [mem_singleton.1 hc]

end

lemma eq_of_length_le_one (h : vs.length ≤ 1) (hv : v ∈ vs) (hw : w ∈ vs) : v = w := by
  match vs with
  | [] => cases hv
  | [u] => rw [mem_singleton.1 hv, mem_singleton.1 hw]
  | _ :: _ :: _ => simp at h

lemma mem_leafValues {w : Json} (hleaf : ShapedLeaf leaf)
    (hwithin : leaf.1.site.matchOp? ≠ some .within) (hne : leafCasts ctx leaf ≠ []) :
    w ∈ leafValues ctx leaf ↔ ∃ casts ∈ leafCasts ctx leaf, w ∈ casts := by
  rw [leafValues, if_neg hne, mem_distinct, mem_flatten]
  intro c hc
  obtain ⟨casts, hcasts, hc⟩ := mem_flatten.1 hc
  exact casts_isLiteral hleaf hwithin hcasts hc

/-- Where the distinct casts are no more than one, all nodes agree on it. -/
lemma uniform_of_length (hleaf : ShapedLeaf leaf) (hsingle : isSingle leaf = true)
    (hok : CastsOk ctx leaf)
    (hlength : leafCasts ctx leaf ≠ [] → (leafValues ctx leaf).length ≤ 1) : Uniform ctx leaf := by
  by_cases hwithin : leaf.1.site.matchOp? = some .within
  · obtain ⟨w, hw⟩ := hleaf.simple hsingle
    refine ⟨w, fun casts hcasts => ?_⟩
    obtain ⟨c, rfl⟩ := casts_singleton hleaf hsingle hok hcasts
    have hc := casts_unchanged hleaf (.inl hwithin) hcasts (mem_singleton_self c)
    cases hw.symm.trans hc
    rfl
  · by_cases hne : leafCasts ctx leaf = []
    · exact ⟨.null, fun casts hcasts => by rw [hne] at hcasts; cases hcasts⟩
    · -- each cast is among the distinct ones, of which there is at most one
      have hmem : ∀ c, [c] ∈ leafCasts ctx leaf → c ∈ leafValues ctx leaf := fun c hc =>
        (mem_leafValues hleaf hwithin hne).2 ⟨[c], hc, mem_singleton_self c⟩
      obtain ⟨first, hfirst⟩ := exists_mem_of_ne_nil _ hne
      obtain ⟨w, rfl⟩ := casts_singleton hleaf hsingle hok hfirst
      refine ⟨w, fun casts hcasts => ?_⟩
      obtain ⟨c, rfl⟩ := casts_singleton hleaf hsingle hok hcasts
      rw [eq_of_length_le_one (hlength hne) (hmem c hcasts) (hmem w hfirst)]

/-! ## What a leaf enters and what it demands -/

/-- What a leaf demands in the native query. -/
def NaturalSat (ctx : Context) (d : Document) (key : String) (leaf : LeafAt) : Prop :=
  d.meetsValue (d.values key) (comparison leaf.1.site.matchOp? (leafValues ctx leaf))

lemma mentions_comparison {op : Option MatchOp} (hop : op ≠ some .and ∧ op ≠ some .or)
    (hvs : ∀ v ∈ vs, mentions treeKeys v = false) :
    mentions treeKeys (comparison op vs) = false := by
  have hhead : mentions treeKeys (vs.headD .null) = false := by
    cases vs with
    | nil => rfl
    | cons v rest => exact hvs v mem_cons_self
  have hlist := mentions_arr.2 hvs
  have hsingle : ∀ {key : String} {v : Json}, key ∉ treeKeys → mentions treeKeys v = false →
      mentions treeKeys (single key v) = false := by
    intro key v hkey hv
    exact mentions_obj.2 fun f hf => by
      rw [mem_singleton.1 hf]
      exact ⟨hkey, hv⟩
  cases op with
  | none => exact hhead
  | some op =>
    cases op
    case pattern => exact hhead
    case oneOf | noneOf => exact hsingle (by decide) hlist
    case and => exact absurd rfl hop.1
    case or => exact absurd rfl hop.2
    all_goals exact hsingle (by decide) hhead

lemma ShapedLeaf.not_logical (h : ShapedLeaf leaf) :
    leaf.1.site.matchOp? ≠ some .and ∧ leaf.1.site.matchOp? ≠ some .or := by
  obtain ⟨trail, v⟩ := leaf
  constructor
  all_goals
    intro hop
    obtain ⟨w, rfl⟩ : ∃ w, v = .simple w := h.simple (by simp [isSingle, hop])
    simp only [ShapedLeaf, hop] at h
    cases h

lemma casts_free (hleaf : ShapedLeaf leaf) (hcasts : casts ∈ leafCasts ctx leaf)
    (hc : c ∈ casts) : mentions treeKeys c = false := by
  by_cases hwithin : leaf.1.site.matchOp? = some .within
  · have hsimple := casts_unchanged hleaf (.inl hwithin) hcasts hc
    rw [ShapedLeaf, hwithin, hsimple] at hleaf
    obtain ⟨lng, lat, radius, rfl, hscalar⟩ := hleaf
    have hfree : ∀ x ∈ [lng, lat, radius], mentions treeKeys x = false := fun x hx =>
      mentions_of_isLiteral (isLiteral_of_scalar (hscalar x hx).1 (hscalar x hx).2)
    have hkey : "$centerSphere" ∉ treeKeys := by decide
    simp [mentions, mentionsFields, mentionsItems, hfree, hkey]
  · exact mentions_of_isLiteral (casts_isLiteral hleaf hwithin hcasts hc)

/-- A literal of a field is cast to a value that stands for itself. -/
lemma casts_isPlain (hleaf : ShapedLeaf leaf) (hop : leaf.1.site.matchOp? = none)
    (hcasts : casts ∈ leafCasts ctx leaf) (hc : c ∈ casts) : isPlain c = true := by
  obtain ⟨-, id, -, rfl⟩ := mem_leafCasts hcasts
  obtain ⟨raw, hraw, hok⟩ := mem_castsOf hc
  obtain ⟨trail, v⟩ := leaf
  simp only [ShapedLeaf, hop] at hleaf
  obtain ⟨w, rfl, harr, hobj⟩ := hleaf
  cases mem_singleton.1 hraw
  rw [casterOf, if_neg (by rw [hop]; decide)] at hok
  exact castForQuery_isPlain harr hobj hok

lemma settled_of_uniform (hleaf : ShapedLeaf leaf)
    (huniform : isSingle leaf = true → Uniform ctx leaf) : Settled ctx leaf where
  literal hop := by
    obtain ⟨w, hw⟩ := huniform (by simp [isSingle, hop])
    by_cases hne : leafCasts ctx leaf = []
    · exact ⟨.null, rfl, fun casts hcasts => by rw [hne] at hcasts; cases hcasts⟩
    · obtain ⟨casts, hcasts⟩ := exists_mem_of_ne_nil _ hne
      refine ⟨w, casts_isPlain hleaf hop hcasts ?_, hw⟩
      rw [hw casts hcasts]
      exact mem_singleton_self w
  pattern hop := by
    have hsingle : isSingle leaf = true := by simp [isSingle, hop]
    obtain ⟨v, hv⟩ := hleaf.simple hsingle
    obtain ⟨p, rfl⟩ : ∃ p : Pattern, v = p.toJson := by
      have hshape := hleaf
      rw [ShapedLeaf, hop, hv] at hshape
      exact hshape
    obtain ⟨w, hw⟩ := huniform hsingle
    refine ⟨p, fun casts hcasts => ?_⟩
    obtain rfl := hw casts hcasts
    cases hv.symm.trans (casts_unchanged hleaf (.inr hop) hcasts (mem_singleton_self w))
    rfl
  free := by
    intro v hv
    obtain ⟨casts, hcasts, rfl⟩ := mem_map.1 hv
    exact mentions_comparison hleaf.not_logical fun c hc => casts_free hleaf hcasts hc

lemma meetsValue_oneOf {vs : Set Json} :
    d.meetsValue vs (comparison (some .oneOf) ws) ↔ ∃ w ∈ ws, w ∈ vs := by
  have hop : Document.holdsOperators [("$in", .arr ws)] = true := rfl
  simp [comparison, single, Document.meetsValue, hop, Document.meetsOperator]

lemma meetsValue_noneOf {vs : Set Json} :
    d.meetsValue vs (comparison (some .noneOf) ws) ↔ ∀ w ∈ ws, w ∉ vs := by
  have hop : Document.holdsOperators [("$nin", .arr ws)] = true := rfl
  simp [comparison, single, Document.meetsValue, hop, Document.meetsOperator]

lemma leafValues_of_uniform (hw : ∀ casts ∈ leafCasts ctx leaf, casts = [w])
    (hne : leafCasts ctx leaf ≠ []) : leafValues ctx leaf = [w] := by
  rw [leafValues, if_neg hne]
  refine distinct_of_forall_eq ?_ fun v hv => ?_
  · obtain ⟨casts, hcasts⟩ := exists_mem_of_ne_nil _ hne
    refine ne_nil_of_mem (mem_flatten.2 ⟨casts, hcasts, ?_⟩) (a := w)
    rw [hw casts hcasts]
    exact mem_singleton_self w
  · obtain ⟨casts, hcasts, hv⟩ := mem_flatten.1 hv
    rw [hw casts hcasts] at hv
    exact mem_singleton.1 hv

lemma ne_within_of_list (h : isSingle leaf = false) : leaf.1.site.matchOp? ≠ some .within := by
  intro hop
  simp [isSingle, hop] at h

lemma oneOf_or_noneOf (h : isSingle leaf = false) :
    leaf.1.site.matchOp? = some .oneOf ∨ leaf.1.site.matchOp? = some .noneOf := by
  by_contra hnot
  rw [not_or] at hnot
  simp [isSingle, hnot] at h

/-- **What a leaf demands as its last node has it implies what it demands natively**, if the
nodes agree or, for `$nin`, the last one covers the others. -/
lemma naturalSat_of_indexSat (hleaf : ShapedLeaf leaf)
    (huniform : isSingle leaf = true → Uniform ctx leaf)
    (hcovers : leaf.1.site.matchOp? = some .noneOf → LastCovers ctx leaf)
    (hne : leafCasts ctx leaf ≠ []) (h : IndexSat ctx d key leaf) : NaturalSat ctx d key leaf := by
  obtain ⟨last, hlast⟩ := Option.ne_none_iff_exists'.1 (List.getLast?_eq_none_iff.not.2 hne)
  have hmem := mem_of_getLast? hlast
  have h := h last hlast
  unfold NaturalSat
  cases hsingle : isSingle leaf with
  | true =>
    obtain ⟨w, hw⟩ := huniform hsingle
    rw [leafValues_of_uniform hw hne, ← hw last hmem]
    exact h
  | false =>
    have hvalues := fun {w} => @mem_leafValues ctx leaf w hleaf (ne_within_of_list hsingle) hne
    rcases oneOf_or_noneOf hsingle with hop | hop
    · rw [hop, meetsValue_oneOf] at h ⊢
      obtain ⟨w, hw, hval⟩ := h
      exact ⟨w, hvalues.2 ⟨last, hmem, hw⟩, hval⟩
    · rw [hop, meetsValue_noneOf] at h ⊢
      intro w hw
      obtain ⟨casts, hcasts, hw⟩ := hvalues.1 hw
      exact h w (hcovers hop last hlast casts hcasts hw)

/-- **What a leaf demands natively implies what it demands as its last node has it**, if the
nodes agree or, for `$in`, the last one covers the others. -/
lemma indexSat_of_naturalSat (hleaf : ShapedLeaf leaf)
    (huniform : isSingle leaf = true → Uniform ctx leaf)
    (hcovers : leaf.1.site.matchOp? = some .oneOf → LastCovers ctx leaf)
    (h : NaturalSat ctx d key leaf) : IndexSat ctx d key leaf := by
  intro last hlast
  have hmem := mem_of_getLast? hlast
  have hne := ne_nil_of_mem hmem
  unfold NaturalSat at h
  cases hsingle : isSingle leaf with
  | true =>
    obtain ⟨w, hw⟩ := huniform hsingle
    rw [leafValues_of_uniform hw hne, ← hw last hmem] at h
    exact h
  | false =>
    have hvalues := fun {w} => @mem_leafValues ctx leaf w hleaf (ne_within_of_list hsingle) hne
    rcases oneOf_or_noneOf hsingle with hop | hop
    · rw [hop, meetsValue_oneOf] at h ⊢
      obtain ⟨w, hw, hval⟩ := h
      obtain ⟨casts, hcasts, hw⟩ := hvalues.1 hw
      exact ⟨w, hcovers hop last hlast casts hcasts hw, hval⟩
    · rw [hop, meetsValue_noneOf] at h ⊢
      exact fun w hw => h w (hvalues.2 ⟨last, hmem, hw⟩)

end Match

end Conduit
