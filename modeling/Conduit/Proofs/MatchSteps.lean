import Conduit.Match.Build
import Conduit.Match.Parse
import Conduit.Proofs.Journal

/-!
# The steps of a match

Reading a match checks objects, operators, patterns and circles.  Checking it asks a trail for the
property left at it, and building it casts literals and enters leaves.  All refuse what does not fit.

What holds of these steps and goes through binds holds of all that is read (`ReadsInStep`), checked
(`ChecksInStep`) and built (`InStep`), be it about one run or about two runs next to each other.
-/

namespace Conduit.Match

open Journaled

/-! ## Reading -/

/-- `R` holds of the steps of reading in two contexts, at places that `T` relates. -/
structure ReadsInStep (ctx ctx' : Context) (T : Site → Site → Prop)
    (R : ∀ {α : Type}, Except CompileError α → Except CompileError α → Prop) : Prop where
  placeholder? : ctx'.placeholder? = ctx.placeholder?
  ok : ∀ {α : Type} (a : α), R (.ok a) (.ok a)
  error : ∀ {α : Type} {f : Fault} {path : String} {y : Except CompileError α}, f.isMerge = false →
    R (.error (f.at path)) y
  bind : ∀ {α β : Type} {x y : Except CompileError α} {f g : α → Except CompileError β}, R x y →
    (∀ a, R (f a) (g a)) → R (x >>= f) (y >>= g)
  child : ∀ {s s'} (key : String), T s s' → T (s.child key) (s'.child key)
  checkExpression : ∀ {s s'} (v : Json), T s s' →
    R (checkExpression ctx.limits s v) (checkExpression ctx'.limits s' v)
  validate : ∀ {s s'} (v : Json), T s s' → R (ctx.patterns.validate v ctx.limits s.fullpath)
    (ctx'.patterns.validate v ctx'.limits s'.fullpath)
  checkAll : ∀ {s s'} (rules : List Rule) (key : String) (v : Json) (isVariable : Bool), T s s' →
    R (Rule.checkAll rules s key v isVariable ctx.limits)
      (Rule.checkAll rules s' key v isVariable ctx'.limits)
  allows : ∀ {op : String}, ctx.options.allowsOperator op = true →
    ctx'.options.allowsOperator op = true
  allElements : ∀ {n : Nat}, Limits.exceeds ctx'.limits.allElements n = true →
    Limits.exceeds ctx.limits.allElements n = true

namespace ReadsInStep

variable {ctx ctx' : Context} {T : Site → Site → Prop}
  {R : ∀ {α : Type}, Except CompileError α → Except CompileError α → Prop} {s s' : Site}
  (h : ReadsInStep ctx ctx' T R) {α : Type} {c : Prop} {f : Fault} {path path' : String}

include h

lemma guard {β : Type} {c' : Prop} [Decidable c] [Decidable c'] {x y : Except CompileError α}
    {k k' : β → Except CompileError α} (hf : f.isMerge = false) (hc : c' → c) (hxy : R x y) :
    R (if c then (throw (f.at path) : Except CompileError β) >>= k else x)
      (if c' then (throw (f.at path') : Except CompileError β) >>= k' else y) := by
  by_cases hrefused : c
  · rw [if_pos hrefused]
    exact h.error hf
  · rw [if_neg hrefused, if_neg (mt hc hrefused)]
    exact hxy

lemma allow [Decidable c] {x y : Except CompileError α} (hf : f.isMerge = false) (hxy : R x y) :
    R (if c then x else throw (f.at path)) (if c then y else throw (f.at path')) := by
  split
  · exact hxy
  · exact h.error hf

lemma circle (path path' : String) (v : Json) : R (circle path v) (circle path' v) := by
  refine h.guard rfl id ?_
  split
  · exact h.allow rfl (h.ok _)
  · exact h.ok _
  · exact h.error rfl

lemma listElements (hs : T s s') (hkey : s'.key = s.key) (vs : List Json) :
    R (listElements ctx s vs) (listElements ctx' s' vs) := by
  induction vs with
  | nil => exact h.ok _
  | cons v rest ih =>
    simp only [Match.listElements]
    split
    · exact h.bind (h.validate _ hs) fun _ => h.bind (h.ok _) fun _ => h.bind ih fun _ => h.ok _
    · rw [h.placeholder?, hkey]
      split
      · exact h.bind (h.ok _) fun _ => h.bind ih fun _ => h.ok _
      · exact h.bind (h.checkAll _ _ _ _ hs) fun _ => h.bind (h.ok _) fun _ =>
          h.bind ih fun _ => h.ok _

lemma leafOperand (hs : T s s') (hkey : s'.key = s.key) (op : MatchOp) (v : Json) :
    R (leafOperand ctx s op v) (leafOperand ctx' s' op v) := by
  unfold Match.leafOperand
  rw [hkey]
  cases op with
  | hasType | present | size => exact h.allow rfl (h.ok _)
  | oneOf | noneOf => exact h.bind (h.listElements hs hkey _) fun _ => h.ok _
  | pattern => exact h.bind (h.validate _ hs) fun _ => h.ok _
  | within => exact h.bind (h.circle _ _ _) fun _ => h.ok _
  | _ => exact h.ok _

lemma checkField (hs : s'.key = s.key) : R (checkField s) (checkField s') := by
  unfold Match.checkField
  rw [hs]
  exact h.allow rfl (h.ok _)

lemma checkUnmixed (path path' : String) (elements : List Operand) :
    R (checkUnmixed path elements) (checkUnmixed path' elements) := by
  unfold Match.checkUnmixed
  dsimp only
  split
  · exact h.error rfl
  · exact h.ok _

lemma checkOperator (hs : T s s') (hkey : s'.key = s.key) (v : Json) :
    R (checkOperator ctx s v) (checkOperator ctx' s' v) := by
  unfold Match.checkOperator
  rw [hkey, h.placeholder?]
  cases MatchOp.ofKey? s.key with
  | none => exact h.error rfl
  | some op =>
    refine h.guard rfl (fun hc => ?_) (h.bind (h.checkAll _ _ _ _ hs) fun _ => h.ok _)
    simp only [Bool.and_eq_true, Bool.not_eq_true'] at hc ⊢
    exact ⟨hc.1, Bool.eq_false_iff.2 fun hallowed =>
      Bool.noConfusion ((h.allows hallowed).symm.trans hc.2)⟩

lemma checkExpression_map (hs : T s s') (v : Json) (o : Operand) :
    R ((Conduit.checkExpression ctx.limits s v).map fun _ => o)
      ((Conduit.checkExpression ctx'.limits s' v).map fun _ => o) :=
  h.bind (h.checkExpression v hs) fun _ => h.ok o

mutual

lemma parseExpression {s s' : Site} (hs : T s s') : ∀ v : Json,
    R (parseExpression ctx s v) (parseExpression ctx' s' v)
  | .obj fs => h.bind (h.checkExpression _ hs) fun _ => h.bind (parseFields hs fs) fun _ => h.ok _
  | .null | .bool _ | .int _ | .double _ | .str _ | .arr _ => h.checkExpression_map hs _ _

lemma parseFields {s s' : Site} (hs : T s s') : ∀ fs : Fields,
    R (parseFields ctx s fs) (parseFields ctx' s' fs)
  | [] => h.ok _
  | (key, v) :: rest => by
    have hrest := parseFields hs rest
    rw [Match.parseFields, Match.parseFields]
    split
    · exact h.bind (parseOperator (h.child key hs) rfl v) fun _ => h.bind hrest fun _ => h.ok _
    · exact h.bind (parseField (h.child key hs) rfl v) fun _ => h.bind hrest fun _ => h.ok _

lemma parseField {s s' : Site} (hs : T s s') (hkey : s'.key = s.key) : ∀ v : Json,
    R (parseField ctx s v) (parseField ctx' s' v)
  | .arr _ => h.bind (h.checkField hkey) fun _ => h.error rfl
  | .obj fs =>
    h.bind (h.checkField hkey) fun _ => h.guard rfl id
      (h.bind (h.checkExpression _ hs) fun _ => h.bind (parseFields hs fs) fun _ => h.ok _)
  | .null | .bool _ | .int _ | .double _ | .str _ => by
    unfold Match.parseField
    rw [simpleOrVariable, simpleOrVariable, h.placeholder?]
    exact h.bind (h.checkField hkey) fun _ => h.ok _

lemma parseOperator {s s' : Site} (hs : T s s') (hkey : s'.key = s.key) : ∀ v : Json,
    R (parseOperator ctx s v) (parseOperator ctx' s' v)
  | .arr items => by
    refine h.bind (h.checkOperator hs hkey _) fun op => ?_
    cases op with
    | and | or => exact h.bind (parseConditions hs items) fun _ => h.ok _
    | all =>
      exact h.guard rfl h.allElements
        (h.bind (parseAllElements hs items) fun _ => h.bind (h.checkUnmixed _ _ _) fun _ => h.ok _)
    | elemMatch => exact h.checkExpression_map hs _ _
    | _ => exact h.leafOperand hs hkey _ _
  | .obj fs => by
    refine h.bind (h.checkOperator hs hkey _) fun op => ?_
    cases op with
    | elemMatch =>
      exact h.bind (h.checkExpression _ hs) fun _ => h.bind (parseFields hs fs) fun _ => h.ok _
    | all => exact h.error rfl
    | and | or => exact h.ok _
    | _ => exact h.leafOperand hs hkey _ _
  | .null | .bool _ | .int _ | .double _ | .str _ => by
    refine h.bind (h.checkOperator hs hkey _) fun op => ?_
    rw [h.placeholder?]
    split
    · exact h.ok _
    · cases op with
      | all => exact h.error rfl
      | elemMatch => exact h.checkExpression_map hs _ _
      | and | or => exact h.ok _
      | _ => exact h.leafOperand hs hkey _ _

lemma parseConditions {s s' : Site} (hs : T s s') : ∀ vs : List Json,
    R (parseConditions ctx s vs) (parseConditions ctx' s' vs)
  | [] => h.ok _
  | v :: rest => by
    have hrest := parseConditions hs rest
    rw [Match.parseConditions, Match.parseConditions, h.placeholder?]
    split
    · exact h.bind (h.ok _) fun _ => h.bind hrest fun _ => h.ok _
    · exact h.bind (parseExpression hs v) fun _ => h.bind hrest fun _ => h.ok _

lemma parseAllElements {s s' : Site} (hs : T s s') : ∀ vs : List Json,
    R (parseAllElements ctx s vs) (parseAllElements ctx' s' vs)
  | [] => h.ok _
  | .arr _ :: _ => h.error rfl
  | .obj fs :: rest =>
    h.bind (parseExpression hs (.obj fs)) fun _ => h.guard rfl id
      (h.bind (parseAllElements hs rest) fun _ => h.ok _)
  | .null :: rest | .bool _ :: rest | .int _ :: rest | .double _ :: rest | .str _ :: rest => by
    unfold Match.parseAllElements
    rw [simpleOrVariable, simpleOrVariable, h.placeholder?]
    exact h.bind (parseAllElements hs rest) fun _ => h.ok _

end

end ReadsInStep

/-! ## Checking -/

/-- `R` holds of the steps of checking in two contexts, at places that `T` relates. -/
structure ChecksInStep (ctx ctx' : Context) (T : Trail → Trail → Prop)
    (R : Compile Findings → Compile Findings → Prop) : Prop where
  none : R (pure {}) (pure {})
  both : ∀ {x x' y y'}, R x x' → R y y' → R (x >>= fun f => y >>= fun g => pure (f ++ g))
    (x' >>= fun f => y' >>= fun g => pure (f ++ g))
  refused : ∀ {t u}, T t u →
    R (throw (Fault.exactMatching.at t.fullpath)) (throw (Fault.exactMatching.at u.fullpath))
  property : ∀ {t u}, T t u → R (checkProperty ctx t) (checkProperty ctx' u)
  strings : ∀ {t u}, T t u → R (checkProperty ctx t >>= fun f => checkStrings ctx t >>= fun _ => pure f)
    (checkProperty ctx' u >>= fun f => checkStrings ctx' u >>= fun _ => pure f)
  site : ∀ {t u}, T t u → u.site = t.site
  child : ∀ {t u} element index key v, T t u →
    T (t.child ctx element index key v) (u.child ctx' element index key v)

namespace ChecksInStep

variable {ctx ctx' : Context} {T : Trail → Trail → Prop}
  {R : Compile Findings → Compile Findings → Prop} (h : ChecksInStep ctx ctx' T R)

include h

mutual

lemma checkComponent {t u : Trail} (ht : T t u) : ∀ v : Operand,
    R (checkComponent ctx t v) (checkComponent ctx' u v)
  | .variable _ => by
    rw [Match.checkComponent, Match.checkComponent, h.site ht]
    split
    · exact h.none
    · exact h.property ht
  | .expression cs => checkChildren ht 0 0 cs
  | .array elements => by
    rw [Match.checkComponent, Match.checkComponent, h.site ht]
    cases t.site.matchOp? with
    | none => exact h.refused ht
    | some op =>
      cases op with
      | oneOf | noneOf =>
        dsimp only
        split
        · exact h.none
        · exact h.property ht
      | all => exact checkAllElements ht 0 elements
      | and | or => exact checkElements ht 0 elements
      | elemMatch => exact h.none
      | _ => exact h.property ht
  | .simple _ | .raw _ | .property _ => by
    unfold Match.checkComponent
    rw [h.site ht]
    cases t.site.matchOp? with
    | none => exact h.property ht
    | some op =>
      cases op with
      | pattern => exact h.strings ht
      | all | and | or | elemMatch | oneOf | noneOf => exact h.none
      | _ => exact h.property ht

lemma checkChildren {t u : Trail} (ht : T t u) (element index : Nat) : ∀ cs : Children,
      R (checkChildren ctx t element index cs) (checkChildren ctx' u element index cs)
  | [] => h.none
  | (key, v) :: rest =>
    h.both (checkComponent (h.child element index key v ht) v)
      (checkChildren ht element (index + 1) rest)

lemma checkElements {t u : Trail} (ht : T t u) (element : Nat) : ∀ elements : List Operand,
    R (checkElements ctx t element elements) (checkElements ctx' u element elements)
  | [] => h.none
  | .expression cs :: rest =>
    h.both (checkChildren ht element 0 cs) (checkElements ht (element + 1) rest)
  | .variable _ :: rest | .raw _ :: rest | .property _ :: rest | .array _ :: rest
  | .simple _ :: rest => checkElements ht (element + 1) rest

lemma checkAllElements {t u : Trail} (ht : T t u) (element : Nat) : ∀ elements : List Operand,
    R (checkAllElements ctx t element elements) (checkAllElements ctx' u element elements)
  | [] => h.none
  | .simple _ :: _ => h.property ht
  | .expression cs :: rest =>
    h.both (checkChildren ht element 0 cs) (checkAllElements ht (element + 1) rest)
  | .variable _ :: rest | .raw _ :: rest | .property _ :: rest | .array _ :: rest =>
    checkAllElements ht (element + 1) rest

end

end ChecksInStep

/-! ## Building -/

/-- The keys and values of the object at a position of a value. -/
def childrenAt : Operand → Nat → Children
  | .expression cs, 0 => cs
  | .array elements, element =>
    match elements[element]? with
    | some (.expression cs) => cs
    | _ => []
  | _, _ => []

lemma getElem?_of_drop {α : Type} {xs rest : List α} {x : α} {n : Nat}
    (h : xs.drop n = x :: rest) : xs[n]? = some x ∧ xs.drop (n + 1) = rest := by
  rw [← List.head?_drop, ← List.tail_drop, h]
  exact ⟨rfl, rfl⟩

namespace Builder

/-- `R` holds of the steps of two builders, at places that `T` relates. -/
structure InStep (b b' : Builder) (T : Trail → Trail → Prop)
    (R : ∀ {α : Type}, Build α → Build α → Prop) : Prop where
  catalog : b'.ctx.catalog = b.ctx.catalog
  usesIndex : b'.ctx.usesIndex = b.ctx.usesIndex
  currentLocale : b'.ctx.options.currentLocale = b.ctx.options.currentLocale
  ok : ∀ {α : Type} (a : α), R (pure a) (pure a)
  error : ∀ {α : Type} {f : Fault} {path : String}, f.isMerge = false →
    R (throw (f.at path) : Build α) (throw (f.at path))
  bind : ∀ {α β : Type} {x y : Build α} {f g : α → Build β}, R x y →
    (∀ a, x.result = .ok a → R (f a) (g a)) → R (x >>= f) (y >>= g)
  incomplete : R (note .incomplete) (note .incomplete)
  cast : ∀ caster type path (raw : List (Json × Bool)),
    R (of (raw.mapM (castValue caster type path))) (of (raw.mapM (castValue caster type path)))
  site : ∀ {t u}, T t u → u.site = t.site
  parent : ∀ {t u}, T t u → T t.parent u.parent
  buildKey : ∀ {t u}, T t u → b'.buildKey u = b.buildKey t
  property : ∀ {t u}, T t u → R (lift t.property) (lift u.property)
  enter : ∀ {t u}, T t u → b.ctx.usesIndex = true → ∀ pairs,
    b'.indexKey u.named = b.indexKey t.named ∧ R (enter t.named pairs) (enter u.named pairs)

lemma castNodes_unindexed {b : Builder} {t : Trail} {raw : List (Json × Bool)} {isArray : Bool}
    {format : Json → Json} {caster : Caster} {ids : List NodeId}
    {slotted slotted' : Fields} {casts : List (List Json)}
    (h : (b.castNodes t raw isArray false format caster ids slotted).result = .ok (casts, slotted')) :
    slotted' = slotted ∧ ids.mapM (fun id => raw.mapM
      (castValue caster (b.ctx.catalog.node id).type t.fullpath)) = .ok casts := by
  induction ids generalizing casts with
  | nil =>
    cases h
    exact ⟨rfl, rfl⟩
  | cons id rest ih =>
    simp only [castNodes, Bool.false_eq_true, if_false, result_bind_ok_iff] at h
    obtain ⟨cast, hcast, _, hsame, ⟨tail, left⟩, hrun, hpure⟩ := h
    cases hsame
    cases hpure
    obtain ⟨rfl, hrest⟩ := ih hrun
    have hcast : raw.mapM (castValue caster (b.ctx.catalog.node id).type t.fullpath) = .ok cast := hcast
    refine ⟨rfl, ?_⟩
    simp only [List.mapM_cons, hcast, hrest]
    rfl

/-- What a list of values is built into: on localized nodes it stands for the object around it. -/
def localizedList (b : Builder) (trail : Trail) (key : String) (values : List Json) :
    Build (Option Built) := do
  match ← b.localized trail values key with
  | some w => return some (.replace (.value w))
  | none => return some (.value (single key (.arr values)))

namespace InStep

variable {b b' : Builder} {T : Trail → Trail → Prop} {R : ∀ {α : Type}, Build α → Build α → Prop}
  {t u : Trail} {around : Enclosing} (h : InStep b b' T R) {c : Prop}

include h

lemma guard [Decidable c] {f : Fault} {path : String} {x y : Build α}
    (hf : f.isMerge = false) (hxy : R x y) :
    R (if c then (throw (f.at path) : Build PUnit) >>= fun _ => x else x)
      (if c then (throw (f.at path) : Build PUnit) >>= fun _ => y else y) := by
  split
  · exact h.bind (h.error hf) fun _ _ => hxy
  · exact hxy

lemma after [Decidable c] {x x' : Build Unit} {y y' : Build α} (hx : c → R x x') (hy : R y y') :
    R (if c then x >>= fun _ => y else y) (if c then x' >>= fun _ => y' else y') := by
  split
  · next hc => exact h.bind (hx hc) fun _ _ => hy
  · exact hy

section

variable (ht : T t u)

include ht

lemma fullpath : u.fullpath = t.fullpath := by
  rw [Trail.fullpath, Trail.fullpath, h.site ht]

lemma castNodes (raw : List (Json × Bool)) (isArray : Bool) {enters : Bool}
    (henters : enters = true → b.ctx.usesIndex = true) (format : Json → Json) (caster : Caster)
    (ids : List NodeId) (slotted : Fields) :
    R (b.castNodes t raw isArray enters format caster ids slotted)
      (b'.castNodes u raw isArray enters format caster ids slotted) := by
  induction ids generalizing slotted with
  | nil => exact h.ok _
  | cons id rest ih =>
    rw [Builder.castNodes, Builder.castNodes, slotKey?, slotKey?, h.catalog, h.currentLocale,
      h.fullpath ht]
    refine h.bind (h.cast _ _ _ _) fun cast _ => ?_
    have hrest := fun slotted' => h.bind (ih slotted') fun out _ => h.ok (cast :: out.1, out.2)
    dsimp only
    split
    · next hindex =>
      split
      · exact h.bind (h.ok _) fun slotted' _ => hrest slotted'
      · obtain ⟨hkey, henter⟩ := h.enter ht (henters hindex) [(b.indexKey t.named, _)]
        rw [hkey]
        exact h.bind henter fun _ _ => h.bind (h.ok _) fun slotted' _ => hrest slotted'
    · exact h.bind (h.ok _) fun slotted' _ => hrest slotted'

lemma castIntoQuery (v : Operand) (format : Json → Json) (caster : Caster) :
    R (b.castIntoQuery t v format caster) (b'.castIntoQuery u v format caster) := by
  unfold Builder.castIntoQuery
  rw [h.fullpath ht, h.usesIndex]
  refine h.after (fun _ => h.incomplete) (h.bind (h.property ht) fun found _ => ?_)
  cases found with
  | none => exact h.error rfl
  | some c =>
    dsimp only
    split
    · exact h.ok _
    · refine h.bind (h.castNodes ht _ _ (fun henters => (Bool.and_eq_true_iff.1 henters).1) _ _ _ _)
        fun out hout => ?_
      refine h.after (fun hslotted => (h.enter ht ?_ _).2) (h.after (fun _ => h.incomplete) (h.ok _))
      cases hindex : b.ctx.usesIndex with
      | true => rfl
      | false =>
        rw [hindex, Bool.false_and] at hout
        rw [(castNodes_unindexed hout).1] at hslotted
        cases hslotted

lemma localized (values : List Json) (op : String) :
    R (b.localized t values op) (b'.localized u values op) := by
  unfold Builder.localized
  rw [h.catalog, h.currentLocale, h.site ht]
  refine h.bind (h.property ht) fun found _ => ?_
  cases found with
  | none => exact h.ok _
  | some c =>
    dsimp only
    split
    · exact h.ok _
    · refine h.bind h.incomplete fun _ _ => ?_
      split <;> exact h.ok _

lemma buildSimple (op : MatchOp) (v : Operand) (around : Enclosing) :
    R (b.buildSimple t op v around) (b'.buildSimple u op v around) := by
  unfold Builder.buildSimple
  rw [h.fullpath ht, h.buildKey (h.parent ht)]
  refine h.bind (h.castIntoQuery ht v _ _) fun values _ => ?_
  split
  · exact h.ok _
  · refine h.guard rfl ?_
    split
    · split
      · split <;> exact h.ok _
      · exact h.ok _
    · exact h.ok _

lemma localizedList (key : String) (values : List Json) :
    R (b.localizedList t key values) (b'.localizedList u key values) :=
  h.bind (h.localized ht values key) fun found _ => by cases found <;> exact h.ok _

lemma buildLeaf (op : MatchOp) (v : Operand) : R (b.buildLeaf t op v) (b'.buildLeaf u op v) := by
  have hcast := h.castIntoQuery ht v
  unfold Builder.buildLeaf
  rw [h.fullpath ht]
  split
  iterate 2
    · exact h.bind h.incomplete fun _ _ => h.ok _
  · split
    · exact h.bind h.incomplete fun _ _ => h.ok _
    · exact h.bind (hcast _ _) fun _ _ => h.ok _
  · split
    · exact h.bind h.incomplete fun _ _ => h.ok _
    · exact h.bind (hcast _ _) fun values _ => h.localizedList (h.parent ht) _ values
  · refine h.bind (hcast _ _) fun values _ => ?_
    split
    · exact h.ok _
    · exact h.ok _
    · exact h.error rfl
  · exact h.bind (hcast _ _) fun values _ => h.localizedList ht _ values
  · exact h.bind (hcast _ _) fun _ _ => h.ok _
  · exact h.error rfl

lemma buildField (built : Option Built) : R (b.buildField t built) (b'.buildField u built) := by
  unfold Builder.buildField
  rw [h.buildKey ht]
  split
  · exact h.ok _
  · exact h.ok _
  · refine h.bind (h.localized ht _ _) fun found _ => ?_
    cases found <;> exact h.ok _

lemma buildElemMatch (conditions : Json) :
    R (Builder.buildElemMatch t conditions) (Builder.buildElemMatch u conditions) := by
  unfold Builder.buildElemMatch
  rw [h.fullpath ht]
  dsimp only
  split
  · exact h.ok _
  · exact h.guard rfl (h.ok _)

end

/-- What is known of two places of a component goes down to its children. -/
structure Descends (b b' : Builder) (T : Trail → Trail → Prop)
    (P : Trail → Trail → Operand → Prop) : Prop where
  place : ∀ {t u v}, P t u v → T t u
  child : ∀ {t u v element index key x}, P t u v → (childrenAt v element)[index]? = some (key, x) →
    P (t.child b.ctx element index key x) (u.child b'.ctx element index key x) x

variable {P : Trail → Trail → Operand → Prop}

mutual

lemma buildComponent (hP : Descends b b' T P) {t u : Trail} (around : Enclosing) :
    ∀ v : Operand, P t u v → R (b.buildComponent t around v) (b'.buildComponent u around v)
  | .variable name, hv => by
    have ht := hP.place hv
    rw [Builder.buildComponent, Builder.buildComponent, h.site ht, h.buildKey ht]
    exact h.bind h.incomplete fun _ _ => h.ok _
  | .expression cs, hv => by
    have ht := hP.place hv
    have hchildren := buildChildren hP 0 0 {} cs hv rfl
    rw [Builder.buildComponent, Builder.buildComponent, h.site ht, h.fullpath ht]
    cases t.site.matchOp? with
    | none => exact h.bind hchildren fun _ _ => h.buildField ht _
    | some op =>
      refine h.guard rfl ?_
      split
      · exact h.bind h.incomplete fun _ _ => h.bind hchildren fun _ _ => h.buildElemMatch ht _
      · exact h.error rfl
  | .array elements, hv => by
    have ht := hP.place hv
    have helements := buildElements hP 0 elements hv rfl
    rw [Builder.buildComponent, Builder.buildComponent, h.site ht, h.fullpath ht]
    cases t.site.matchOp? with
    | none => exact h.error rfl
    | some op =>
      dsimp only
      split
      iterate 2
        · exact h.bind helements fun _ _ => h.ok _
      · refine h.guard rfl ?_
        split
        · exact h.bind h.incomplete fun _ _ => h.bind helements fun _ _ => h.ok _
        · exact h.buildLeaf ht _ _
  | .simple _, hv | .raw _, hv | .property _, hv => by
    have ht := hP.place hv
    unfold Builder.buildComponent
    rw [h.site ht, h.fullpath ht, h.buildKey ht]
    cases t.site.matchOp? with
    | none =>
      refine h.bind (h.castIntoQuery ht _ _ _) fun values _ =>
        h.bind (h.localized ht _ _) fun found _ => ?_
      cases found <;> exact h.ok _
    | some op =>
      dsimp only
      split
      · exact h.buildSimple ht _ _ _
      · exact h.guard rfl (h.buildLeaf ht _ _)

lemma buildChildren (hP : Descends b b' T P) {t u : Trail} {v : Operand} (element index : Nat)
    (around : Enclosing) : ∀ cs : Children, P t u v → (childrenAt v element).drop index = cs →
      R (b.buildChildren t element index around cs) (b'.buildChildren u element index around cs)
  | [], _, _ => h.ok _
  | (key, x) :: rest, hv, hcs => by
    obtain ⟨hx, hrest⟩ := getElem?_of_drop hcs
    exact h.bind (buildComponent hP around x (hP.child hv hx)) fun _ _ =>
      buildChildren hP element (index + 1) _ rest hv hrest

lemma buildElements (hP : Descends b b' T P) {t u : Trail} {vs : List Operand} (element : Nat) :
    ∀ elements : List Operand, P t u (.array vs) → vs.drop element = elements →
      R (b.buildElements t element elements) (b'.buildElements u element elements)
  | [], _, _ => h.ok _
  | .expression cs :: rest, hv, hvs => by
    obtain ⟨hget, hrest⟩ := getElem?_of_drop hvs
    have hcs : childrenAt (.array vs) element = cs := by rw [childrenAt, hget]
    exact h.bind (buildChildren hP element 0 {} cs hv hcs) fun _ _ =>
      h.bind (buildElements hP (element + 1) rest hv hrest) fun _ _ => h.ok _
  | .variable _ :: rest, hv, hvs =>
    h.bind h.incomplete fun _ _ =>
      h.bind (buildElements hP (element + 1) rest hv (getElem?_of_drop hvs).2) fun _ _ => h.ok _
  | .simple _ :: rest, hv, hvs | .raw _ :: rest, hv, hvs | .property _ :: rest, hv, hvs
  | .array _ :: rest, hv, hvs =>
    h.bind (buildElements hP (element + 1) rest hv (getElem?_of_drop hvs).2) fun _ _ => h.ok _

end

lemma buildNatural (hP : Descends b b' T P) (v : Operand) (hv : P t u v) :
    R (b.buildNatural t v) (b'.buildNatural u v) := by
  refine h.bind ?_ fun _ _ => h.ok _
  cases v with
  | expression cs => exact h.buildChildren hP 0 0 {} cs hv rfl
  | _ => exact h.ok _

end InStep

end Builder

end Conduit.Match
