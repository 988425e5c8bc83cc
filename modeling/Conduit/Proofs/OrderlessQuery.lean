import Conduit.Proofs.ObjectParts
import Conduit.Proofs.OrderlessChecks

/-!
# Queries and the order of keys

Matches that differ only in the order of keys are built into queries that the same documents meet
(`key_order_immaterial`).

The operators of one field are an exception where one of them replaces the object they stand in: an
operator before a fan-out makes it fail, and one behind it is left beside the replacement.  So each
object of operators is to be free (`areFree`): one operator alone, operators none of which replaces
the object, or fan-outs over equally many values.  `object` and `type` are compared as in
`isSteady`, and no node lives in a set: models and nodes come in an order, and the first node decides
the locale.
-/

namespace Conduit

open List Match.Builder Document Journaled

lemma Catalog.discriminatorKey_eq_none {c : Catalog}
    (h : ∀ n ∈ c.nodes, n.discriminatorKey = none) : c.SetFree := by
  have hnode : ∀ id, (c.node id).discriminatorKey = none := by
    intro id
    rw [Catalog.node, Array.getD_eq_getD_getElem?]
    cases hid : c.nodes[id]? with
    | none => rfl
    | some n => exact h n (Array.mem_of_getElem? hid)
  intro id
  rw [Catalog.discriminatorKey]
  cases c.pathParent id with
  | none => rfl
  | some parent => exact hnode parent

namespace Json

/-- The values differ in the order of keys, at the top or below one key. -/
inductive Shuffled : Json → Json → Prop
  | keys {fs gs : Fields} : fs ~ gs → Shuffled (.obj fs) (.obj gs)
  | inside {key : String} {v w : Json} {rest : Fields} :
      Shuffled v w → Shuffled (.obj ((key, v) :: rest)) (.obj ((key, w) :: rest))

end Json

namespace Document

variable {d : Document} {v w : Json}

/-- What operators say does not depend on the order of keys in their arguments. -/
def Orderless (d : Document) : Prop :=
  ∀ op v w vs, Json.Shuffled v w → (d.test op v vs ↔ d.test op w vs)

lemma meetsKey_obj (key : String) (fs : Fields) :
    d.meetsKey key (.obj fs) ↔ d.meetsValue (d.values key) (.obj fs) := by
  rw [meetsKey]
  simp

/-- Values that demand the same of a field: equal ones, and objects of operators in any order. -/
inductive SameDemand : Json → Json → Prop
  | refl (v : Json) : SameDemand v v
  | operators {fs gs : Fields} : fs ~ gs → holdsOperators fs = true → SameDemand (.obj fs) (.obj gs)

lemma SameDemand.meetsKey (h : SameDemand v w) (key : String) :
    d.meetsKey key v ↔ d.meetsKey key w := by
  cases h with
  | refl => exact Iff.rfl
  | @operators fs gs hperm hops =>
    have hops' : holdsOperators gs = true := by
      rw [holdsOperators, any_eq_true] at hops ⊢
      exact hops.imp fun _ hf => ⟨hperm.mem_iff.1 hf.1, hf.2⟩
    rw [meetsKey_obj, meetsKey_obj, meetsValue, meetsValue, if_pos hops, if_pos hops']
    exact forall_congr' fun f => by rw [hperm.mem_iff]

/-- What a localized property holds in one locale is asked for in any order. -/
lemma SameDemand.meetsLocale (h : SameDemand v w) (hd : d.Orderless) (key : String)
    (locale : Json) :
    d.meetsKey key (Match.single "$elemMatch" (.obj [("value", v), ("locale", locale)])) ↔
      d.meetsKey key (Match.single "$elemMatch" (.obj [("value", w), ("locale", locale)])) := by
  cases h with
  | refl => exact Iff.rfl
  | operators hperm _ =>
    have hops : ∀ v, holdsOperators [("$elemMatch", v)] = true := fun v => by
      simp only [holdsOperators, any_cons, any_nil, Bool.or_false]
      decide +kernel
    rw [Match.single, Match.single, meetsKey_obj, meetsKey_obj, meetsValue, meetsValue,
      if_pos (hops _), if_pos (hops _), forall_mem_singleton, forall_mem_singleton]
    exact hd _ _ _ _ (.inside (.keys hperm))

end Document

namespace Match

/-! ## Operators -/

section

variable {ctx : Context} {v w x : Operand} {t u : Trail} {f g : Findings}
  (hmarks : SameMarks v w f g) (hindex : ctx.usesIndex = false)

include hmarks in
lemma buildKey_same (h : Trail.Twin v w t u) :
    buildKey ⟨ctx, f.references⟩ t = buildKey ⟨ctx, g.references⟩ u := by
  have href : isReference ⟨ctx, f.references⟩ t = isReference ⟨ctx, g.references⟩ u := by
    rw [isReference, isReference, Bool.eq_iff_iff, contains_iff_mem,
      contains_iff_mem, hmarks.mem_iff h.address]
  rw [buildKey, buildKey, href, h.site]

include hmarks hindex in
lemma same_inStep : InStep ⟨ctx, f.references⟩ ⟨ctx, g.references⟩ (Trail.Twin v w)
    fun x y => Lifts Eq x.result y.result where
  catalog := rfl
  usesIndex := rfl
  currentLocale := rfl
  ok _ := .refl _
  error _ := .refl _
  bind hxy hfg := by
    rw [result_bind, result_bind]
    intro c hc
    obtain ⟨a, hx, hf⟩ := except_bind_ok_iff.1 hc
    obtain ⟨_, hy, rfl⟩ := hxy a hx
    obtain ⟨_, hg, rfl⟩ := hfg a hx c hf
    exact ⟨c, except_bind_ok_iff.2 ⟨a, hy, hg⟩, rfl⟩
  incomplete := .refl _
  cast _ _ _ _ := .refl _
  site ht := ht.site.symm
  parent ht := ht.parent
  buildKey ht := (buildKey_same hmarks ht).symm
  property ht := ht.property
  enter _ husesIndex := absurd husesIndex (by rw [hindex]; exact Bool.false_ne_true)

end

/-! ## Components with equal values -/

section

variable {ctx : Context} {v w : Operand} {f g : Findings} {x : Operand} {t u : Trail}
  {cs : Children}

/-- A component that both matches hold at the same keys. -/
structure Shared (v w : Operand) (t u : Trail) (x : Operand) : Prop where
  beside : Beside v w t u x x
  reordered : Operand.Reordered x x
  steady : ∃ inOr, isSteady t.site inOr x = true

/-- Where the members of an object are paired with those of the object itself, each is paired with
itself. -/
lemma sameMember_self (hnodup : (cs.map Prod.fst).Nodup) (h : Paired Operand.SameMember cs cs)
    {c : String × Operand} (hc : c ∈ cs) : Operand.SameMember c c := by
  obtain ⟨d, hd, hsame⟩ := h.exists_right hc
  rwa [← inj_on_of_nodup_map hnodup hc hd hsame.1] at hsame

lemma Shared.object (h : Shared v w t u x) (element : Nat) : let cs := childrenAt x element
    (cs.map Prod.fst).Nodup ∧ Paired Operand.SameMember cs cs ∧
      ∃ inOr, isSteadyBelow t.site inOr cs = true := by
  have hobject : ∀ {cs : Children}, Operand.Reordered (.expression cs) (.expression cs) →
      (cs.map Prod.fst).Nodup ∧ Paired Operand.SameMember cs cs := by
    intro cs hcs
    obtain ⟨_, ⟨⟩, hcs⟩ := Operand.reordered_expression.1 hcs
    exact hcs
  obtain ⟨-, hreordered, inOr, hsteady⟩ := h
  unfold childrenAt
  split
  · rw [isSteady, Bool.and_eq_true] at hsteady
    exact ⟨(hobject hreordered).1, (hobject hreordered).2, inOr, hsteady.2⟩
  · rw [isSteady, Bool.and_eq_true] at hsteady
    obtain ⟨_, ⟨⟩, hvs⟩ := Operand.reordered_array.1 hreordered
    split
    · next hget =>
      have hmem := mem_of_getElem? hget
      have hcs := hobject (forall₂_same.1 hvs _ hmem)
      exact ⟨hcs.1, hcs.2, _, isSteadyAmong_children hsteady.2 hmem⟩
    · exact ⟨nodup_nil, ⟨[], .nil, .nil⟩, inOr, rfl⟩
  · exact ⟨nodup_nil, ⟨[], .nil, .nil⟩, inOr, rfl⟩

lemma Shared.child (hsets : ctx.catalog.SetFree) (h : Shared v w t u x) {element index : Nat}
    {key : String} {y : Operand} (hget : (childrenAt x element)[index]? = some (key, y)) :
    Shared v w (t.child ctx element index key y) (u.child ctx element index key y) y := by
  obtain ⟨hnodup, hpaired, inOr, hsteady⟩ := h.object element
  have hmem := mem_of_getElem? hget
  have hsame := sameMember_self hnodup hpaired hmem
  have hsteady := isSteadyBelow_iff.1 hsteady _ hmem
  have hindex : ((key, y), index) ∈ (childrenAt x element).zipIdx := mem_zipIdx_iff_getElem?.2 hget
  refine ⟨h.beside.child hsets rfl rfl hnodup hnodup hindex hindex hsame hsteady, hsame.2.1, inOr, ?_⟩
  rw [site_child h.beside.ne_nil]
  exact hsteady

end

/-! ## Conditions with the same meaning -/

/-- The keys of an object of conditions are distinct, and `$and` holds a list. -/
def IsConditions (fs : Fields) : Prop := (Fields.keys fs).Nodup ∧ Document.AndHoldsList fs

/-- Objects of conditions that the same documents meet. -/
def SameConditions (v w : Json) : Prop :=
  ∃ fs gs, v = .obj fs ∧ w = .obj gs ∧ IsConditions fs ∧ IsConditions gs ∧
    ∀ d : Document, d.Orderless → (d.meetsFields fs ↔ d.meetsFields gs)

variable {fs : Fields}

lemma IsConditions.same (h : IsConditions fs) :
    SameConditions (.obj fs) (.obj fs) := ⟨fs, fs, rfl, rfl, h, h, fun _ _ => Iff.rfl⟩

variable {key : String}

lemma isConditions_single {v : Json} (h : key = "$and" → ∃ items, v = .arr items) :
    IsConditions [(key, v)] := by
  refine ⟨nodup_singleton _, fun w hw => ?_⟩
  rw [Fields.get?_cons] at hw
  split at hw
  · next heq =>
    cases hw
    exact h heq
  · cases hw

lemma ne_and_of_field (h : Path.isOperator key = false) : key ≠ "$and" := by
  rintro rfl
  exact absurd h (by decide +kernel)

lemma sameConditions_single {v w : Json}
    (hand : key = "$and" → (∃ items, v = .arr items) ∧ ∃ items, w = .arr items)
    (h : ∀ d : Document, d.Orderless → (d.meetsKey key v ↔ d.meetsKey key w)) :
    SameConditions (single key v) (single key w) :=
  ⟨_, _, rfl, rfl, isConditions_single fun heq => (hand heq).1,
    isConditions_single fun heq => (hand heq).2, fun d hd => by
      rw [meetsFields_singleton, meetsFields_singleton, h d hd]⟩

/-- Parts of an object of conditions that the same documents meet. -/
inductive SameClause : Option Built → Option Built → Prop
  | none : SameClause none none
  | value {v w : Json} : SameConditions v w → SameClause (some (.value v)) (some (.value w))

/-- What the operators of a field make of its object: nothing, conditions in its place, or an object
of operators. -/
inductive SameOperators : Option Built → Option Built → Prop
  | none : SameOperators none none
  | replace {r s : Built} : SameConditions r.unwrap s.unwrap →
      SameOperators (some (.replace r)) (some (.replace s))
  | value {v w : Json} : Document.SameDemand v w → SameOperators (some (.value v)) (some (.value w))

section

variable {ctx : Context} {v w : Operand} {t u : Trail} {f g : Findings}

lemma meetsFields_typed {d : Document} {v w : Json}
    (h : d.meetsKey key v ↔ d.meetsKey key w) (type : Json) :
    d.meetsFields (Fields.insert [(key, v)] "type" type) ↔
      d.meetsFields (Fields.insert [(key, w)] "type" type) := by
  by_cases hkey : key = "type"
  · simp only [Fields.insert, if_pos hkey]
  · simp only [Fields.insert, if_neg hkey, meetsFields, h]

/-- A demand on a localized property is made in each locale. -/
lemma localized_demand (h : Trail.Twin v w t u) {values values' : List Json} {op : String}
    (hdemand : Document.SameDemand (oneOrMany op values) (oneOrMany op values')) :
    Lifts (Option.Rel SameConditions) (localized ⟨ctx, f.references⟩ t values op).result
      (localized ⟨ctx, g.references⟩ u values' op).result := by
  have hlocales : ∀ path : String, "locales." ++ path ≠ "$and" := fun path => by
    refine ne_and_of_field ?_
    rw [Path.isOperator_append_of_ne (by decide +kernel)]
    decide +kernel
  unfold localized
  rw [h.site]
  refine .resultBindEq h.property fun found => ?_
  cases found with
  | none => exact .ok .none
  | some c =>
    dsimp only
    split
    · exact .ok .none
    · refine .resultBindEq (.refl _) fun _ => ?_
      split
      · exact .ok (.some (sameConditions_single (fun heq => absurd heq (hlocales _))
          fun d hd => hdemand.meetsLocale hd _ _))
      · refine .ok (.some (sameConditions_single (fun _ => ⟨⟨_, rfl⟩, _, rfl⟩) fun d hd => ?_))
        simp only [meetsKey_or, mem_map, exists_exists_and_eq_and]
        refine exists_congr fun id => and_congr_right fun _ => ?_
        cases (ctx.catalog.nodeModel id).type with
        | none =>
          simp only [meets]
          split
          · simpa only [meetsFields_singleton] using hdemand.meetsLocale hd _ _
          · simpa only [meetsFields_singleton] using hdemand.meetsKey _
        | some type =>
          simp only [meets]
          split
          · exact meetsFields_typed (hdemand.meetsLocale hd _ _) _
          · exact meetsFields_typed (hdemand.meetsKey _) _

/-- The condition that a field meets a demand. -/
def Builder.demand (b : Builder) (t : Trail) (values : List Json) : Build (Option Built) := do
  match ← b.localized t values "$in" with
  | some z => return some (.value z)
  | none => return some (.value (single (b.buildKey t) (oneOrMany "$in" values)))

lemma demand_sameClause (hmarks : SameMarks v w f g) (h : Trail.Twin v w t u)
    (hfield : Path.isOperator t.site.key = false) (values values' : List Json)
    (hdemand : Document.SameDemand (oneOrMany "$in" values) (oneOrMany "$in" values')) :
    Lifts SameClause (demand ⟨ctx, f.references⟩ t values).result
      (demand ⟨ctx, g.references⟩ u values').result := by
  unfold demand
  rw [← buildKey_same hmarks h]
  refine .resultBind (localized_demand h hdemand) fun found found' hfound => ?_
  cases hfound with
  | some hsame => exact .ok (.value hsame)
  | none =>
    have hkey := ne_and_of_field (isOperator_buildKey (b := ⟨ctx, f.references⟩) hfield)
    exact .ok (.value (sameConditions_single (fun heq => absurd heq hkey)
      fun d _ => hdemand.meetsKey _))

/-- The condition of a field has the same meaning in any order of its operators. -/
lemma buildField_sameClause (hmarks : SameMarks v w f g) (h : Trail.Twin v w t u)
    (hfield : Path.isOperator t.site.key = false) {e e' : Option Built} (he : SameOperators e e') :
    Lifts SameClause (buildField ⟨ctx, f.references⟩ t e).result
      (buildField ⟨ctx, g.references⟩ u e').result := by
  cases he with
  | none => exact .ok .none
  | replace hconditions => exact .ok (.value hconditions)
  | @value x y hdemand =>
    exact demand_sameClause hmarks h hfield [x] [y] hdemand

end

/-! ## Operators in any order -/

/-- Whether a value is an object of conditions. -/
def isConditions : Json → Bool
  | .obj fs => decide (Fields.keys fs).Nodup && (Fields.get? fs "$and").all Json.isArr
  | _ => false

lemma sameConditions_self {v : Json} (h : isConditions v = true) : SameConditions v v := by
  cases v with
  | obj fs =>
    rw [isConditions, Bool.and_eq_true, decide_eq_true_iff] at h
    refine IsConditions.same ⟨h.1, fun w hw => ?_⟩
    rw [hw] at h
    cases w with
    | arr items => exact ⟨items, rfl⟩
    | _ => cases h.2
  | _ => cases h

/-- Whether an object has one part at most. -/
def isAlone (ps : List (String × Option Built)) : Bool :=
  decide (ps.length ≤ 1) && ps.all fun p => keeps p || (p.2.map Built.unwrap).any isConditions

/-- Whether the parts are operators under keys of their own. -/
def areOperators (ps : List (String × Option Built)) : Bool :=
  ps.all keeps && decide (Fields.keys (ps.flatMap partFields)).Nodup &&
    holdsOperators (ps.flatMap partFields)

/-- Whether the parts are fan-outs over equally many values. -/
def areFans (ps : List (String × Option Built)) : Bool :=
  ps.all (isFan ((ps.head?.bind fun p => branches? p.2).getD []).length)

/-- Whether the parts of an object of operators say the same in any order. -/
def areFree (ps : List (String × Option Built)) : Bool :=
  isAlone ps || areOperators ps || areFans ps

section

variable {b b' : Builder} {t u : Trail} {cs ds : Children}
  {ps qs : List (String × Option Built)} {key : String} {width : Nat}
  {columns : List (String × List Json)}

lemma buildChildren_alone {element index : Nat} (h : b.parts t element cs index = .ok ps)
    (hlength : ps.length ≤ 1) :
    (b.buildChildren t element index {} cs).result = .ok (addParts {} ps) := by
  cases cs with
  | nil =>
    cases h
    rfl
  | cons c rest =>
    obtain ⟨part, more, hpart, hmore, rfl⟩ := parts_cons_ok_iff.1 h
    have hmore' : more = [] := by
      cases more with
      | nil => rfl
      | cons _ _ => exact absurd hlength (by simp)
    subst hmore'
    have hrest : rest = [] := by
      cases rest with
      | nil => rfl
      | cons d rest =>
        obtain ⟨_, _, -, -, hnil⟩ := parts_cons_ok_iff.1 hmore
        cases hnil
    rw [hrest, buildChildren, result_bind, hpart]
    rfl

lemma enclosed_same {out : Enclosing} (h : ∀ v, out.replacement = some v → isConditions v = true) :
    SameOperators (enclosed out) (enclosed out) := by
  unfold enclosed
  split
  · next v hv => exact .replace (sameConditions_self (h v hv))
  · split
    · exact .none
    · exact .value (.refl _)

lemma enclosed_fields (h : fs ≠ []) : enclosed ⟨fs, none⟩ = some (.value (.obj fs)) := by
  cases fs with
  | nil => exact absurd rfl h
  | cons _ _ => rfl

lemma enclosed_fannedObject (h : columns ≠ []) : enclosed (fannedObject key width columns) =
      some (.replace (.value (fan key width columns))) := by
  cases columns with
  | nil => exact absurd rfl h
  | cons _ _ => rfl

lemma fan_sameConditions {columns' : List (String × List Json)} (hperm : columns ~ columns')
    (hops : ∃ c ∈ columns, isQueryOperator c.1 = true) :
    SameConditions (fan key width columns) (fan key width columns') := by
  refine sameConditions_single (fun _ => ⟨⟨_, rfl⟩, _, rfl⟩) fun d _ => ?_
  simp only [meetsKey_or, mem_map, exists_exists_and_eq_and]
  refine exists_congr fun i => and_congr_right fun _ => ?_
  rw [single, single, meets, meets, meetsFields_singleton, meetsFields_singleton]
  refine (Document.SameDemand.operators (hperm.map _) ?_).meetsKey key
  obtain ⟨c, hc, hop⟩ := hops
  exact any_eq_true.2 ⟨_, mem_map_of_mem hc, hop⟩

/-- **Free operators say the same in any order.** -/
lemma buildChildren_free (htrail : t ≠ []) (htrail' : u ≠ [])
    (hkey : b.buildKey t = b'.buildKey u) (hcs : (cs.map Prod.fst).Nodup)
    (hds : (ds.map Prod.fst).Nodup) (hps : b.parts t 0 cs 0 = .ok ps)
    (hqs : b'.parts u 0 ds 0 = .ok qs) (hperm : ps ~ qs) (hfree : areFree ps = true) :
    ∃ out out', (b.buildChildren t 0 0 {} cs).result = .ok out ∧
      (b'.buildChildren u 0 0 {} ds).result = .ok out' ∧
      SameOperators (enclosed out) (enclosed out') := by
  simp only [areFree, Bool.or_eq_true, or_assoc] at hfree
  rcases hfree with halone | hops | hfans
  · rw [isAlone, Bool.and_eq_true, decide_eq_true_iff] at halone
    have heq : qs = ps := by
      rcases ps with _ | ⟨p, _ | ⟨_, _⟩⟩
      · exact hperm.nil_eq.symm
      · exact (singleton_perm.1 hperm).symm
      · exact absurd halone.1 (by simp)
    subst heq
    refine ⟨_, _, buildChildren_alone hps halone.1, buildChildren_alone hqs halone.1,
      enclosed_same fun v hv => ?_⟩
    rcases qs with _ | ⟨⟨key, part⟩, _ | ⟨_, _⟩⟩
    · cases hv
    · rcases part with _ | ⟨x⟩ | r
      · cases hv
      · have hnone : (addParts {} [(key, some (.value x))]).replacement = none :=
          replacement_addBuilt rfl fun _ h => (by cases h)
        rw [hnone] at hv
        cases hv
      · cases hv
        simpa [keeps, Built.isReplacement, Built.unwrap] using halone.2
    · exact absurd halone.1 (by simp)
  · simp only [areOperators, Bool.and_eq_true, decide_eq_true_iff, all_eq_true] at hops
    have hflat := hperm.flatMap_right partFields
    have hkeeps' : ∀ q ∈ qs, keeps q = true := fun q hq => hops.1.1 q (hperm.mem_iff.2 hq)
    refine ⟨_, _, buildChildren_kept hps hops.1.1 rfl, buildChildren_kept hqs hkeeps' rfl, ?_⟩
    rw [addParts_fresh {} hops.1.1 rfl hops.1.2,
      addParts_fresh {} hkeeps' rfl (((hflat.map Prod.fst).nodup_iff).1 hops.1.2)]
    have hne : ps.flatMap partFields ≠ [] := by
      intro hnil
      rw [hnil] at hops
      cases hops.2
    have hne' : qs.flatMap partFields ≠ [] := fun hnil => hne (hnil ▸ hflat).eq_nil
    rw [nil_append, nil_append, enclosed_fields hne, enclosed_fields hne']
    exact .value (.operators hflat hops.2)
  · rw [areFans, all_eq_true] at hfans
    have hout := buildChildren_fan htrail [] hps hfans hcs
    have hout' := buildChildren_fan htrail' [] hqs (fun q hq => hfans q (hperm.mem_iff.2 hq)) hds
    rw [← hkey] at hout'
    refine ⟨_, _, hout, hout', ?_⟩
    cases ps with
    | nil =>
      rw [hperm.nil_eq.symm]
      exact .none
    | cons p rest =>
      have hne' : qs ≠ [] := fun hnil => cons_ne_nil p rest (hnil ▸ hperm).eq_nil
      rw [nil_append, nil_append, enclosed_fannedObject (by simp),
        enclosed_fannedObject (by simpa using hne')]
      refine .replace (fan_sameConditions (hperm.map _) ⟨column p, mem_cons_self, ?_⟩)
      have hop := (Bool.and_eq_true _ _ ▸ hfans p mem_cons_self).1
      obtain ⟨op, hop, -⟩ := (Option.any_eq_true _ _).1 hop
      simp [isQueryOperator, column, hop]

end

/-! ## Conditions in any order -/

mutual

/-- Whether the operators of the fields below are free, in an object of fields and logical
operators. -/
def Builder.settled (b : Builder) (t : Trail) : Operand → Bool
  | .expression cs => cs.all (fun c => Operand.isFixed c.1) &&
    match b.parts t 0 cs 0 with
    | .ok ps => areFree ps
    | .error _ => true
  | .array elements => b.settledAmong t 0 elements
  | .variable _ => t.site.key != "$and"
  | _ => true

def Builder.settledBelow (b : Builder) (t : Trail) (element index : Nat) : Children → Bool
  | [] => true
  | (key, v) :: rest => standsBesideFields key &&
    b.settled (t.child b.ctx element index key v) v && b.settledBelow t element (index + 1) rest

def Builder.settledAmong (b : Builder) (t : Trail) (element : Nat) : List Operand → Bool
  | [] => true
  | .expression cs :: rest =>
    b.settledBelow t element 0 cs && b.settledAmong t (element + 1) rest
  | _ :: rest => b.settledAmong t (element + 1) rest

end

lemma settledBelow_iff {b : Builder} {t : Trail} {element index : Nat} {cs : Children} :
    b.settledBelow t element index cs = true ↔ ∀ c ∈ cs.zipIdx index,
      standsBesideFields c.1.1 = true ∧
        b.settled (t.child b.ctx element c.2 c.1.1 c.1.2) c.1.2 = true := by
  induction cs generalizing index with
  | nil => simp [settledBelow]
  | cons c rest ih =>
    rw [settledBelow, zipIdx_cons, forall_mem_cons, Bool.and_eq_true, Bool.and_eq_true, ih]

section

variable {ctx : Context} {v w x y : Operand} {t u : Trail} {f g : Findings}
  {ps : List (String × Option Built)}

lemma objectOrEmpty_kept {out : Enclosing} (h : out.replacement = none) :
    objectOrEmpty (enclosed out) = .obj out.fields := by
  obtain ⟨fields, replacement⟩ := out
  cases h
  cases fields <;> rfl

/-- A part that is an object of conditions, or nothing. -/
def IsClause (p : Option Built) : Prop :=
  ∀ z, p = some z → ∃ fs, z = .value (.obj fs) ∧ IsConditions fs

lemma IsClause.keeps {p : String × Option Built} (h : IsClause p.2) : keeps p = true := by
  refine keeps_iff.2 fun r hr => ?_
  obtain ⟨_, hvalue, -⟩ := h _ hr
  cases hvalue

/-- What a part demands of a document. -/
def meetsPart (d : Document) (p : Option Built) : Prop := ∀ v, p = some (.value v) → d.meets v

lemma SameClause.isClause {p q : Option Built} (h : SameClause p q) :
    IsClause p ∧ IsClause q ∧ ∀ d : Document, d.Orderless → (meetsPart d p ↔ meetsPart d q) := by
  cases h with
  | none =>
    exact ⟨fun _ h => (by cases h), fun _ h => (by cases h), fun _ _ => Iff.rfl⟩
  | value h =>
    obtain ⟨fs, gs, rfl, rfl, hfs, hgs, hsame⟩ := h
    refine ⟨?_, ?_, fun d hd => ?_⟩
    · rintro _ ⟨⟩
      exact ⟨fs, rfl, hfs⟩
    · rintro _ ⟨⟩
      exact ⟨gs, rfl, hgs⟩
    · simp only [meetsPart, Option.some.injEq, Built.value.injEq, forall_eq', meets, hsame d hd]

/-- **An object of conditions demands what its parts do.** -/
lemma addParts_meets (around : Enclosing) (hnone : around.replacement = none)
    (haround : IsConditions around.fields) (hps : ∀ p ∈ ps, IsClause p.2) :
    (addParts around ps).replacement = none ∧ IsConditions (addParts around ps).fields ∧
      ∀ d : Document, d.meetsFields (addParts around ps).fields ↔
        d.meetsFields around.fields ∧ ∀ p ∈ ps, meetsPart d p.2 := by
  induction ps generalizing around with
  | nil => exact ⟨hnone, haround, fun d => by simp [addParts]⟩
  | cons p rest ih =>
    obtain ⟨key, part⟩ := p
    rw [forall_mem_cons] at hps
    cases part with
    | none =>
      obtain ⟨hnone', hconditions, hmeets⟩ := ih around hnone haround hps.2
      refine ⟨hnone', hconditions, fun d => (hmeets d).trans ?_⟩
      simp [meetsPart]
    | some z =>
      obtain ⟨fs, rfl, hfs⟩ := hps.1 z rfl
      have hadded : addBuilt around (some (.value (.obj fs))) =
          ⟨Built.merge around.fields fs, none⟩ := by
        obtain ⟨fields, replacement⟩ := around
        cases hnone
        rfl
      have hmerged : IsConditions (Built.merge around.fields fs) := ⟨nodup_merge haround.1 fs,
          andHoldsList_merge hfs.1 haround.2 hfs.2⟩
      rw [addParts, foldl_cons, hadded]
      obtain ⟨hnone', hconditions, hmeets⟩ := ih ⟨Built.merge around.fields fs, none⟩ rfl hmerged hps.2
      refine ⟨hnone', hconditions, fun d => (hmeets d).trans ?_⟩
      rw [meetsFields_merge haround.1 hfs.1 haround.2, forall_mem_cons, and_assoc]
      simp only [meetsPart, Option.some.injEq, Built.value.injEq, forall_eq', meets]

/-- Objects of conditions with the same parts in any order. -/
lemma addParts_sameConditions {qs : List (String × Option Built)}
    (h : Paired (fun p q => SameClause p.2 q.2) ps qs) :
    SameConditions (objectOrEmpty (enclosed (addParts {} ps)))
      (objectOrEmpty (enclosed (addParts {} qs))) := by
  have hempty : IsConditions (Enclosing.fields {}) := ⟨nodup_nil, andHoldsList_nil⟩
  have hps : ∀ p ∈ ps, IsClause p.2 := fun p hp =>
    (h.exists_right hp).elim fun _ hq => hq.2.isClause.1
  have hqs : ∀ q ∈ qs, IsClause q.2 := fun q hq =>
    (h.symm.exists_right hq).elim fun _ hp => hp.2.isClause.2.1
  obtain ⟨hnone, hconditions, hmeets⟩ := addParts_meets {} rfl hempty hps
  obtain ⟨hnone', hconditions', hmeets'⟩ := addParts_meets {} rfl hempty hqs
  rw [objectOrEmpty_kept hnone, objectOrEmpty_kept hnone']
  refine ⟨_, _, rfl, rfl, hconditions, hconditions', fun d hd => ?_⟩
  rw [hmeets, hmeets']
  refine and_congr_right fun _ => ⟨fun hall q hq => ?_, fun hall p hp => ?_⟩
  · obtain ⟨p, hp, hsame⟩ := h.symm.exists_right hq
    exact (hsame.isClause.2.2 d hd).1 (hall p hp)
  · obtain ⟨q, hq, hsame⟩ := h.exists_right hp
    exact (hsame.isClause.2.2 d hd).2 (hall q hq)

/-- Elements of a logical operator that the same documents meet. -/
def SameElement (a b : Json) : Prop := ∀ d : Document, d.Orderless → (d.meets a ↔ d.meets b)

lemma SameConditions.sameElement {a b : Json} (h : SameConditions a b) : SameElement a b := by
  obtain ⟨fs, gs, rfl, rfl, -, -, hsame⟩ := h
  intro d hd
  rw [meets, meets, hsame d hd]

lemma logical_sameConditions {op : MatchOp} (hop : op = .and ∨ op = .or) {as bs : List Json}
    (h : Forall₂ SameElement as bs) :
    SameConditions (single op.key (.arr as)) (single op.key (.arr bs)) := by
  refine sameConditions_single (fun _ => ⟨⟨_, rfl⟩, _, rfl⟩) fun d hd => ?_
  rcases hop with rfl | rfl
  · rw [MatchOp.key, meetsKey, if_pos rfl, meetsKey, if_pos rfl]
    induction h with
    | nil => exact Iff.rfl
    | cons hab _ ih => rw [meetsAll, meetsAll, hab d hd, ih]
  · rw [MatchOp.key, meetsKey, if_neg (by decide), if_pos rfl, meetsKey,
      if_neg (by decide), if_pos rfl]
    induction h with
    | nil => exact Iff.rfl
    | cons hab _ ih => rw [meetsAny, meetsAny, hab d hd, ih]

/-- A field, a logical operator or an object of them is built into conditions with one meaning. -/
def SameMeaning (ctx : Context) (v w : Operand) (f g : Findings) (x y : Operand) : Prop :=
  ∀ {t u : Trail} (inOr : Bool),
    (Beside v w t u x y → isSteady t.site inOr x = true → standsBesideFields t.site.key = true →
      settled ⟨ctx, f.references⟩ t x = true →
      Lifts SameClause (buildComponent ⟨ctx, f.references⟩ t {} x).result
        (buildComponent ⟨ctx, g.references⟩ u {} y).result) ∧
    ∀ {x₀ y₀ : Operand} (element : Nat), Beside v w t u x₀ y₀ →
      childrenAt x₀ element = x.children → childrenAt y₀ element = y.children →
      isSteadyBelow t.site inOr x.children = true →
      settledBelow ⟨ctx, f.references⟩ t element 0 x.children = true →
      Lifts (fun out out' => SameConditions (objectOrEmpty (enclosed out))
          (objectOrEmpty (enclosed out')))
        (buildChildren ⟨ctx, f.references⟩ t element 0 {} x.children).result
        (buildChildren ⟨ctx, g.references⟩ u element 0 {} y.children).result

lemma buildElements_sameMeaning (h : Beside v w t u x y) {inOr : Bool} {vs ws : List Operand}
    (hvs : Forall₂ (fun a b => Operand.Reordered a b ∧ SameMeaning ctx v w f g a b) vs ws) {n : Nat}
    (hx : HoldsFrom x n vs) (hy : HoldsFrom y n ws) (hsteady : isSteadyAmong t.site inOr vs = true)
    (hsettled : settledAmong ⟨ctx, f.references⟩ t n vs = true) :
    Lifts (Forall₂ SameElement) (buildElements ⟨ctx, f.references⟩ t n vs).result
      (buildElements ⟨ctx, g.references⟩ u n ws).result := by
  induction hvs generalizing n with
  | nil => exact .ok .nil
  | @cons a b _ _ hab _ ih =>
    have hrest := ih hx.tail hy.tail
    cases a with
    | expression cs =>
      obtain ⟨ds, rfl, -⟩ := Operand.reordered_expression.1 hab.1
      have hbelow := isSteadyAmong_children hsteady mem_cons_self
      rw [isSteadyAmong, Bool.and_eq_true] at hsteady
      rw [settledAmong, Bool.and_eq_true] at hsettled
      exact .resultBind ((hab.2 inOr).2 n h (hx 0 _ rfl) (hy 0 _ rfl) hbelow hsettled.1)
        fun _ _ hsame => .resultBind (hrest hsteady.2 hsettled.2) fun _ _ hall =>
          .ok (.cons hsame.sameElement hall)
    | array _ =>
      obtain ⟨_, rfl, -⟩ := Operand.reordered_array.1 hab.1
      exact .resultBind (hrest hsteady hsettled) fun _ _ hall =>
        .ok (.cons (fun _ _ => Iff.rfl) hall)
    | «variable» _ =>
      rw [show b = _ from hab.1]
      exact .resultBindEq (.refl _) fun _ => .resultBind (hrest hsteady hsettled) fun _ _ hall =>
        .ok (.cons (fun _ _ => Iff.rfl) hall)
    | _ =>
      rw [show b = _ from hab.1]
      exact .resultBind (hrest hsteady hsettled) fun _ _ hall =>
        .ok (.cons (fun _ _ => Iff.rfl) hall)

lemma field_of_standsBesideFields (h : standsBesideFields key = true)
    (hop : MatchOp.ofKey? key = none) : Path.isOperator key = false := by
  have hne : ∀ op : MatchOp, key ≠ op.key := by
    rintro op rfl
    rw [MatchOp.ofKey?_key] at hop
    cases hop
  have hand : (key == "$and") = false := beq_eq_false_iff_ne.2 (hne .and)
  have hor : (key == "$or") = false := beq_eq_false_iff_ne.2 (hne .or)
  simpa [standsBesideFields, hand, hor] using h

/-- **Conditions mean the same in any order.** -/
lemma sameMeaning (hsets : ctx.catalog.SetFree) (hindex : ctx.usesIndex = false)
    (hmarks : SameMarks v w f g) (h : Operand.Reordered x y) : SameMeaning ctx v w f g x y := by
  refine Operand.Reordered.induction (P := SameMeaning ctx v w f g) ?_ ?_ ?_ x y h
  · intro x hatom t u inOr
    refine ⟨fun hbeside _ hkey hsettled => ?_, fun _ _ _ _ _ _ => ?_⟩
    · cases x with
      | expression _ | array _ => cases hatom
      | «variable» name =>
        rw [buildComponent, buildComponent, ← buildKey_same hmarks hbeside.toTwin, ← hbeside.site]
        have hne : t.site.key ≠ "$and" := by simpa [settled] using hsettled
        cases hop : t.site.matchOp? with
        | none =>
          have hkey := ne_and_of_field (isOperator_buildKey (b := ⟨ctx, f.references⟩)
            (field_of_standsBesideFields hkey hop))
          exact .ok (.value (sameConditions_single (fun heq => absurd heq hkey) fun _ _ => Iff.rfl))
        | some op =>
          rw [← MatchOp.key_of_ofKey? hop] at hne
          exact .ok (.value (sameConditions_single (fun heq => absurd heq hne) fun _ _ => Iff.rfl))
      | _ =>
        unfold buildComponent
        rw [← hbeside.site]
        cases hop : t.site.matchOp? with
        | none =>
          refine .resultBindEq ((same_inStep hmarks hindex).castIntoQuery hbeside.toTwin _ _ _) fun values => ?_
          exact demand_sameClause hmarks hbeside.toTwin (field_of_standsBesideFields hkey hop)
            values values (.refl _)
        | some op =>
          rcases logical_of_standsBesideFields hkey hop with rfl | rfl
          · exact .error _ _
          · exact .error _ _
    · rw [Operand.children_of_isAtom hatom]
      exact .ok (addParts_sameConditions ⟨[], .nil, .nil⟩)
  · intro vs ws hvs t u inOr
    refine ⟨fun hbeside hsteady hkey hsettled => ?_,
      fun _ _ _ _ _ _ => .ok (addParts_sameConditions ⟨[], .nil, .nil⟩)⟩
    rw [isSteady, Bool.and_eq_true] at hsteady
    rw [buildComponent, buildComponent, ← hbeside.site]
    cases hop : t.site.matchOp? with
    | none => exact .error _ _
    | some op =>
      have hlogical := logical_of_standsBesideFields hkey hop
      have helements := buildElements_sameMeaning hbeside hvs (holdsFrom_array vs)
        (holdsFrom_array ws) hsteady.2 hsettled
      rcases hlogical with rfl | rfl
      · exact .resultBind helements fun _ _ hall =>
          .ok (.value (logical_sameConditions (.inl rfl) hall))
      · exact .resultBind helements fun _ _ hall =>
          .ok (.value (logical_sameConditions (.inr rfl) hall))
  · intro cs ds hnodup hcs t u inOr
    have hnodup' : (ds.map Prod.fst).Nodup :=
      (keys_perm_of_sameMember (hcs.mono fun _ _ _ _ h => h.1)).nodup_iff.1 hnodup
    refine ⟨fun hbeside hsteady hkey hsettled => ?_,
      fun element hbeside hx hy hsteady hsettled => ?_⟩
    · rw [isSteady, Bool.and_eq_true] at hsteady
      rw [buildComponent, buildComponent, ← hbeside.site]
      cases hop : t.site.matchOp? with
      | some op =>
        rcases logical_of_standsBesideFields hkey hop with rfl | rfl
        · exact .error _ _
        · exact .error _ _
      | none =>
        rw [settled, Bool.and_eq_true, all_eq_true] at hsettled
        have hparts : Lifts (Paired Eq) (parts ⟨ctx, f.references⟩ t 0 cs 0)
            (parts ⟨ctx, g.references⟩ u 0 ds 0) := by
          refine hbeside.mapM hsets (show childrenAt (.expression cs) 0 = cs from rfl)
            (show childrenAt (.expression ds) 0 = ds from rfl) hnodup hcs hsteady.2
            fun {c d} hc hsame _ _ hsteady hchild => ?_
          have hmem : c.1 ∈ cs := mem_of_getElem? (mem_zipIdx_iff_getElem?.1 hc)
          have heq : d.1.2 = c.1.2 := hsame.2.2 (hsettled.1 c.1 hmem)
          have hreordered := hsame.2.1
          rw [heq] at hchild hreordered ⊢
          rw [← hsame.1] at hchild ⊢
          exact .map ((same_inStep hmarks hindex).buildComponent (P := Shared v w)
            ⟨(·.beside.toTwin), (·.child hsets)⟩ {} _ ⟨hchild, hreordered, inOr, hsteady⟩) _
        intro built hbuilt
        rw [result_bind, except_bind_ok_iff] at hbuilt
        obtain ⟨out, hout, hbuilt⟩ := hbuilt
        obtain ⟨ps, hps⟩ := exists_parts hout
        obtain ⟨qs, hqs, mid, hmid, hperm⟩ := hparts ps hps
        rw [forall₂_eq_eq_eq] at hmid
        subst hmid
        have hfree := hsettled.2
        rw [hps] at hfree
        obtain ⟨out₁, out', hout₁, hout', hsame⟩ := buildChildren_free hbeside.ne_nil
          hbeside.ne_nil_right (buildKey_same hmarks hbeside.toTwin) hnodup hnodup' hps hqs hperm
          hfree
        rw [hout] at hout₁
        cases hout₁
        obtain ⟨built', hbuilt', hclause⟩ := buildField_sameClause hmarks hbeside.toTwin
          (field_of_standsBesideFields hkey hop) hsame built hbuilt
        refine ⟨built', ?_, hclause⟩
        rw [result_bind, except_bind_ok_iff]
        exact ⟨out', hout', hbuilt'⟩
    · have hparts : Lifts (Paired fun p q => SameClause p.2 q.2)
          (parts ⟨ctx, f.references⟩ t element cs 0)
          (parts ⟨ctx, g.references⟩ u element ds 0) := by
        rw [settledBelow_iff] at hsettled
        refine hbeside.mapM hsets hx hy hnodup hcs hsteady
          fun {c d} hc hsame hmeaning hsite hsteady hchild => ?_
        obtain ⟨hkey, hsettled⟩ := hsettled c hc
        intro p hp
        obtain ⟨part, hpart, rfl⟩ := except_functor_map_ok_iff.1 hp
        obtain ⟨part', hpart', hclause⟩ := (hmeaning inOr).1 hchild hsteady
          (by rw [hsite]; exact hkey) hsettled part hpart
        exact ⟨_, except_functor_map_ok_iff.2 ⟨part', hpart', rfl⟩, hclause⟩
      intro out hout
      obtain ⟨ps, hps⟩ := exists_parts hout
      obtain ⟨qs, hqs, hpaired⟩ := hparts ps hps
      have hkeeps : ∀ p ∈ ps, keeps p = true := fun p hp =>
        (hpaired.exists_right hp).elim fun _ hq => hq.2.isClause.1.keeps
      have hkeeps' : ∀ q ∈ qs, keeps q = true := fun q hq =>
        (hpaired.symm.exists_right hq).elim fun _ hp => hp.2.isClause.2.1.keeps
      rw [buildChildren_kept hps hkeeps rfl] at hout
      cases hout
      exact ⟨_, buildChildren_kept hqs hkeeps' rfl, addParts_sameConditions hpaired⟩

end

/-! ## The whole match -/

/-- Whether a match says the same in any order: `object` and `type` are compared one by one, and the
operators of each field are free. -/
def isSettled (ctx : Context) (v : Operand) : Bool :=
  isSteadyBelow (Site.root ctx.kind.key) false v.children &&
    (checkedBuilder ctx v).settledBelow (Trail.root ctx v) 0 0 v.children

/-- Whether a value, if it is a match at all, says the same in any order. -/
def settles (ctx : Context) (value : Json) : Bool := match parse ctx value with
  | .ok v => isSettled ctx v
  | .error _ => true

/-- What documents cannot tell apart in the outputs of two matches. -/
def SameOutput (out out' : StageOutput) : Prop :=
  out.models = out'.models ∧ ∃ query query', out.json = single "$match" query ∧
    out'.json = single "$match" query' ∧
    ∀ d : Document, d.Orderless → (d.meets query ↔ d.meets query')

section

variable {ctx : Context} {v w : Json} {k : String}

lemma alike_self {ps : List Candidate} (h : (ps.map Candidate.path).Nodup) : Alike ps ps := by
  refine ⟨fun path => (ps.find? fun c => c.path == path).getD ⟨path, [], none⟩, ?_, ?_, fun _ => Iff.rfl⟩
  all_goals
    intro c hc
    cases hfound : ps.find? fun d => d.path == c.path with
    | none => exact absurd (find?_eq_none.1 hfound c hc) (by simp)
    | some d =>
      have hpath : d.path = c.path := by simpa using find?_some hfound
      dsimp only
      rw [hfound]
      exact inj_on_of_nodup_map h (mem_of_find?_eq_some hfound) hc hpath

lemma beside_root (hsets : ctx.catalog.SetFree)
    (hmodels : ctx.models.Nodup) (hproperties : (ctx.properties.map Candidate.path).Nodup)
    {v w : Operand} (h : Operand.Reordered v w)
    (hsteady : isSteadyBelow (Site.root ctx.kind.key) false v.children = true) :
    Beside v w (Trail.root ctx v) (Trail.root ctx w) v w := by
  have hsame : Lifts (fun ms ns => ms = ns ∧ ms.Nodup)
      (expressionModels ctx (Site.root ctx.kind.key) v.children ctx.models)
      (expressionModels ctx (Site.root ctx.kind.key) w.children ctx.models) := by
    intro ms hms
    obtain ⟨ns, hns, rfl, ⟨p, rfl⟩, -⟩ := (sameModels ctx h _ ctx.models false hmodels).2 hsteady
      ms hms
    exact ⟨_, hns, rfl, hmodels.filter p⟩
  refine ⟨⟨cons_ne_nil _ _, .cons ⟨rfl, ⟨[], v, w, .here, .here⟩, hsame, ?_⟩ .nil⟩, [], .here, .here⟩
  exact narrowTwice_alike hsets _ _ _ h (fun ms hms => (hsame ms hms).imp fun _ h => ⟨h.1, h.2.1⟩)
    (.ok (alike_self hproperties))

lemma build_sameElement (hsets : ctx.catalog.SetFree)
    (hindex : ctx.usesIndex = false) {cs ds : Children} {f g : Findings}
    (hmarks : SameMarks (.expression cs) (.expression ds) f g)
    (h : Operand.Reordered (.expression cs) (.expression ds))
    (hbeside : Beside (.expression cs) (.expression ds) (Trail.root ctx (.expression cs))
      (Trail.root ctx (.expression ds)) (.expression cs) (.expression ds))
    (hsteady : isSteadyBelow (Site.root ctx.kind.key) false cs = true)
    (hsettled : settledBelow ⟨ctx, f.references⟩ (Trail.root ctx (.expression cs)) 0 0 cs = true) :
    Lifts SameElement (build ctx (Trail.root ctx (.expression cs)) (.expression cs) f).result
      (build ctx (Trail.root ctx (.expression ds)) (.expression ds) g).result := by
  rw [build_unindexed hindex, build_unindexed hindex]
  intro query hquery
  obtain ⟨natural, hnatural, rfl⟩ := except_functor_map_ok_iff.1 hquery
  rw [buildNatural, result_bind, except_bind_ok_iff] at hnatural
  obtain ⟨out, hout, hnatural⟩ := hnatural
  cases hnatural
  obtain ⟨out', hout', hsame⟩ := (sameMeaning hsets hindex hmarks h false).2 0 hbeside rfl rfl
    hsteady hsettled out hout
  have hnatural' : (buildNatural ⟨ctx, g.references⟩ (Trail.root ctx (.expression ds))
      (.expression ds)).result = .ok (((objectOrEmpty (enclosed out')).obj?).getD []) := by
    rw [buildNatural, result_bind, except_bind_ok_iff]
    exact ⟨out', hout', rfl⟩
  refine ⟨_, except_functor_map_ok_iff.2 ⟨_, hnatural', rfl⟩, ?_⟩
  obtain ⟨fs, gs, hfs, hgs, -⟩ := id hsame
  rw [hfs, hgs] at hsame ⊢
  exact hsame.sameElement

/-- A settled match compiles in any other order of keys, to a query with the same meaning. -/
lemma compile_sameOutput (hindex : ctx.usesIndex = false)
    (hsets : ctx.catalog.SetFree) (hmodels : ctx.models.Nodup)
    (hproperties : (ctx.properties.map Candidate.path).Nodup) {gs : Fields}
    (h : Json.Reordered (.obj fs) (.obj gs)) (hsettles : settles ctx (.obj fs) = true) :
    Lifts SameOutput (compile ctx (.obj fs)).result (compile ctx (.obj gs)).result := by
  refine .resultBind (x := of _) (y := of _) (parse_reordered ctx h).knowing fun v w hvw => ?_
  obtain ⟨hv, hreordered⟩ := hvw
  obtain ⟨cs, rfl, -⟩ := parse_vetted hv
  obtain ⟨ds, rfl, -⟩ := Operand.reordered_expression.1 hreordered
  rw [settles, hv] at hsettles
  obtain ⟨hsteady, hsettled⟩ := (Bool.and_eq_true _ _).mp hsettles
  have hbeside := beside_root hsets hmodels hproperties hreordered hsteady
  obtain ⟨⟨-, hframes⟩, -⟩ := id hbeside
  cases hframes with
  | cons hf _ =>
    have hchecks := (sameChecks hsets hreordered false).2 0 hbeside rfl rfl hsteady
    refine .resultBind (x := of _) (y := of _) hf.models fun ms ns hms =>
      .resultBind hf.properties fun _ _ _ => .resultBind hchecks.knowing fun f g hfg => ?_
    obtain ⟨hfindings, hmarks⟩ := hfg
    have hbuilder : checkedBuilder ctx (.expression cs) = ⟨ctx, f.references⟩ := by
      rw [checkedBuilder, show (validate ctx _ _).result = _ from hfindings]
    rw [hbuilder] at hsettled
    exact .resultBind (build_sameElement hsets hindex hmarks hreordered hbeside hsteady hsettled)
      fun query query' hsame => .ok ⟨hms.1, query, query', rfl, rfl, hsame⟩

lemma sameOutput_self {value : Json} {out : StageOutput}
    (h : (compile ctx value).result = .ok out) : SameOutput out out := by
  obtain ⟨v, hparse⟩ := exists_parse (eq_ok_of_result h)
  obtain ⟨findings, natural, journal, indexing, events, -, -, -, -, hjson⟩ :=
    compile_queries hparse (eq_ok_of_result h)
  exact ⟨rfl, _, _, hjson, hjson, fun _ _ => Iff.rfl⟩

/-- **A match does not depend on the order of keys**, where `object` and `type` are compared one by
one and the operators of each field are free: one order compiles if and only if the other does, to
the same models and to queries that the same documents meet. -/
theorem key_order_immaterial (hindex : ctx.usesIndex = false)
    (hsets : ∀ id, ctx.catalog.discriminatorKey id = none) (hmodels : ctx.models.Nodup)
    (hproperties : (ctx.properties.map Candidate.path).Nodup) {value value' : Json}
    (h : Json.Reordered value value') (hsettles : settles ctx value = true)
    (hsettles' : settles ctx value' = true) : ((∃ out, (compile ctx value).result = .ok out) ↔
      ∃ out, (compile ctx value').result = .ok out) ∧
    ∀ out out', (compile ctx value).result = .ok out → (compile ctx value').result = .ok out' →
      SameOutput out out' := by
  rcases h.cases with ⟨fs, gs, rfl, rfl, -, -⟩ | ⟨items, items', rfl, rfl, -⟩ | ⟨-, rfl⟩
  · have hlifts := compile_sameOutput hindex hsets hmodels hproperties h hsettles
    have hlifts' := compile_sameOutput hindex hsets hmodels hproperties h.symm hsettles'
    refine ⟨⟨fun ⟨out, hout⟩ => (hlifts out hout).imp fun _ h => h.1,
      fun ⟨out, hout⟩ => (hlifts' out hout).imp fun _ h => h.1⟩, fun out out' hout hout' => ?_⟩
    obtain ⟨other, hother, hsame⟩ := hlifts out hout
    rw [hout'] at hother
    cases hother
    exact hsame
  · refine ⟨Iff.rfl, fun out out' hout => ?_⟩
    cases hout
  · refine ⟨Iff.rfl, fun out out' hout hout' => ?_⟩
    rw [hout] at hout'
    cases hout'
    exact sameOutput_self hout

lemma reordered_swap {l : String} {v' w' : Json} (hkeys : k ≠ l)
    (hk : k ≠ "$elemMatch" ∧ k ≠ "$all") (hl : l ≠ "$elemMatch" ∧ l ≠ "$all")
    (hv : Json.Reordered v v') (hw : Json.Reordered w w') :
    Json.Reordered (.obj [(k, v), (l, w)]) (.obj [(l, w'), (k, v')]) :=
  Json.reordered_obj.2 ⟨_, rfl, by simpa [Fields.keys] using hkeys, [(k, v'), (l, w')],
    .cons ⟨rfl, hv, fun h => (h.elim hk.1 hk.2).elim⟩
      (.cons ⟨rfl, hw, fun h => (h.elim hl.1 hl.2).elim⟩ .nil), .swap _ _ _⟩

lemma reordered_single (hk : k ≠ "$elemMatch" ∧ k ≠ "$all") (h : Json.Reordered v w) :
    Json.Reordered (single k v) (single k w) :=
  Json.reordered_obj.2 ⟨_, rfl, nodup_singleton _, [(k, w)],
    .cons ⟨rfl, h, fun h => (h.elim hk.1 hk.2).elim⟩ .nil, .refl _⟩

/-- Alternatives on the tag, one of them a range, beside a bound on the owner: each object of
operators is turned round, and so is the match. -/
theorem tag_range_orderless :
    let ctx := { tagContext [] with usesIndex := false }
    let owner := single "c_org" (.int 3)
    let value := .obj [("c_org", .obj [("$gte", .int 1), ("$ne", .int 4)]),
      ("$or", .arr [single "c_tag" (.obj [("$gt", .str "5"), ("$lt", .str "7")]), owner])]
    let value' := .obj [
      ("$or", .arr [single "c_tag" (.obj [("$lt", .str "7"), ("$gt", .str "5")]), owner]),
      ("c_org", .obj [("$ne", .int 4), ("$gte", .int 1)])]
    Json.Reordered value value' ∧ settles ctx value = true ∧ settles ctx value' = true ∧
      ∃ out out', (compile ctx value).result = .ok out ∧ (compile ctx value').result = .ok out' ∧
        SameOutput out out' := by
  intro ctx owner value value'
  have hreordered : Json.Reordered value value' := by
    refine reordered_swap (by decide) (by decide) (by decide) ?_ ?_
    · exact reordered_swap (by decide) (by decide) (by decide) rfl rfl
    · refine Json.reordered_arr.2 ⟨_, rfl, .cons ?_ (.cons ?_ .nil)⟩
      · exact reordered_single (by decide)
          (reordered_swap (by decide) (by decide) (by decide) rfl rfl)
      · exact reordered_single (by decide) rfl
  have hsettles : settles ctx value = true := by decide +kernel
  have hsettles' : settles ctx value' = true := by decide +kernel
  obtain ⟨out, hout⟩ : ∃ out, (compile ctx value).result = .ok out :=
    exists_eq_ok (by decide +kernel)
  have hsets : ctx.catalog.SetFree :=
    Catalog.discriminatorKey_eq_none (by decide +kernel)
  obtain ⟨hboth, hsame⟩ := key_order_immaterial rfl hsets (by decide +kernel) nodup_nil hreordered
    hsettles hsettles'
  obtain ⟨out', hout'⟩ := hboth.1 ⟨out, hout⟩
  exact ⟨hreordered, hsettles, hsettles', out, out', hout, hout', hsame out out' hout hout'⟩

/-- **The order of operators decides** beside a fan-out: a bound on the tag may be followed by
`$exists` and may not follow it. -/
theorem order_of_operators_decides :
    let ctx := { tagContext [] with usesIndex := false }
    let value := single "c_tag" (.obj [("$gt", .str "5"), ("$exists", .bool true)])
    let value' := single "c_tag" (.obj [("$exists", .bool true), ("$gt", .str "5")])
    Json.Reordered value value' ∧ (∃ out, (compile ctx value).result = .ok out) ∧
      ¬∃ out, (compile ctx value').result = .ok out := by
  intro ctx value value'
  refine ⟨reordered_single (by decide)
    (reordered_swap (by decide) (by decide) (by decide) rfl rfl), exists_eq_ok (by decide +kernel), ?_⟩
  rintro ⟨out, hout⟩
  have hfails : (compile ctx value').result.toOption.isNone = true := by decide +kernel
  rw [hout] at hfails
  cases hfails

end

end Match

end Conduit
