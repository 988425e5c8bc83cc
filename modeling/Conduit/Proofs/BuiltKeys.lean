import Conduit.Proofs.FanOut

/-!
# No operators but those of a match

A query holds only keys that building a match puts there: fields, operators that passed their
checks, and the keys of literals.  So nothing that a caller writes into a value can act as an
operator.

Building is followed step by step: each part yields values whose keys are permitted, and enters
only conditions on fields into the index query (`operators_vetted`).
-/

namespace Conduit.Match

open List Match.Builder Journaled

open Fields Json IndexEntries

/-! ## What building yields -/

/-- Whether all keys entered into the index query hold what they may. -/
def Enters (P : String → Json → Prop) (journal : List Step) : Prop :=
  ∀ steps pairs path, Step.enter steps pairs path ∈ journal → ∀ f ∈ pairs, P f.1 f.2

/-- A part that succeeds yields something and enters only what may be entered. -/
def Yields (P : String → Json → Prop) {α : Type} (x : Build α) (Q : α → Prop) : Prop :=
  ∀ a journal, x = ⟨.ok a, journal⟩ → Q a ∧ Enters P journal

section

variable {P : String → Json → Prop} {α β : Type} {Q : α → Prop} {x : Build α}

lemma enters_nil : Enters P [] := nofun

lemma Enters.append {xs ys : List Step} (hx : Enters P xs) (hy : Enters P ys) :
    Enters P (xs ++ ys) :=
  fun steps pairs path h => (mem_append.1 h).elim (hx steps pairs path) (hy steps pairs path)

lemma yields_pure {a : α} (h : Q a) : Yields P (pure a : Build α) Q := by
  intro b journal heq
  cases heq
  exact ⟨h, enters_nil⟩

lemma yields_throw {e : CompileError} : Yields P (throw e : Build α) Q := nofun

lemma Yields.bind {f : α → Build β} {R : β → Prop} (hx : Yields P x Q)
    (hf : ∀ a, Q a → Yields P (f a) R) : Yields P (x >>= f) R := by
  intro b journal h
  obtain ⟨a, m, n, ha, hb, rfl⟩ := bind_ok_iff.1 h
  obtain ⟨hQ, hm⟩ := hx a m ha
  obtain ⟨hR, hn⟩ := hf a hQ b n hb
  exact ⟨hR, hm.append hn⟩

lemma yields_of {x : Except CompileError α} : Yields P (of x : Build α) fun a => x = .ok a := by
  intro a journal h
  injection h with hx hnil
  exact ⟨hx, hnil ▸ enters_nil⟩

lemma yields_lift {x : Compile α} : Yields P (lift x) fun a => x.result = .ok a := by
  intro a journal h
  obtain ⟨m, hx, rfl⟩ := mapNotes_ok_iff.1 h
  refine ⟨by rw [hx], fun steps pairs path hmem => ?_⟩
  obtain ⟨e, -, he⟩ := mem_map.1 hmem
  cases he

lemma yields_incomplete : Yields P (note .incomplete : Build Unit) fun _ => True := by
  intro a journal h
  cases h
  exact ⟨trivial, fun _ _ _ hmem => nomatch (mem_singleton.1 hmem)⟩

lemma yields_enter {trail : Trail} {pairs : Fields} (h : ∀ f ∈ pairs, P f.1 f.2) :
    Yields P (enter trail pairs) fun _ => True := by
  intro a journal heq
  cases heq
  refine ⟨trivial, fun steps pairs' path hmem => ?_⟩
  rcases mem_append.1 hmem with hmem | hmem
  · cases mem_singleton.1 hmem
  · cases mem_singleton.1 hmem
    exact h

lemma Yields.after {c : Prop} [Decidable c] {y : Build Unit} (hx : Yields P x Q)
    (hy : Yields P y fun _ => True) : Yields P (if c then y >>= fun _ => x else x) Q := by
  split
  · exact hy.bind fun _ _ => hx
  · exact hx

lemma Yields.mono {R : α → Prop} (hx : Yields P x Q) (h : ∀ a, Q a → R a) : Yields P x R :=
  fun a journal heq => ⟨h a (hx a journal heq).1, (hx a journal heq).2⟩

end

/-! ## Permitted keys -/

/-- A kind of keys that has all that a vetted match may bring into a query. -/
structure Permits (ctx : Context) (p : String → Prop) : Prop where
  field : ∀ {key}, Path.isOperator key = false → p key
  operator : ∀ op : MatchOp, (op.isRestricted = true → ctx.options.allowsOperator op.key = true) →
    p op.key
  literal : ∀ key ∈ literalKeys, p key
  geoWithin : p "$geoWithin"

variable {ctx : Context} {b : Builder} {p : String → Prop}

lemma Permits.free (hp : Permits ctx p) (op : MatchOp) (h : op.isRestricted = false) :
    p op.key := hp.operator op fun hr => by rw [h] at hr; cases hr

variable {x w v : Json} {op : MatchOp} {holder key : String} {caster : Caster} {values : List Json}
  {trail : Trail} {notes : List Event} {elements : List Operand} {format : Json → Json}
  {around : Enclosing} {built : Option Built} {journal : List Step} {i : Indexing}
  {out : StageOutput} {value : Json}

lemma Permits.vetted (hp : Permits ctx p) (hkey : VettedKey ctx holder key)
    (hop : MatchOp.ofKey? key = some op) : p op.key := by
  have heq := MatchOp.key_of_ofKey? hop
  obtain ⟨op', hop', hallowed, -⟩ := hkey.operator (by rw [← heq]; exact MatchOp.isOperator_key op)
  rw [hop] at hop'
  cases hop'
  exact hp.operator op (by rw [heq]; exact hallowed)

/-- The values of literals. -/
abbrev IsVettedLiteral (w : Json) : Prop := KeysAre (· ∈ literalKeys) w

lemma Permits.keysAre (hp : Permits ctx p) (h : IsVettedLiteral w) : KeysAre p w :=
  h.mono hp.literal

lemma keysAre_single (hkey : p key) (hv : KeysAre p v) :
    KeysAre p (single key v) := keysAre_singleton.2 ⟨hkey, hv⟩

lemma Permits.keysAre_tree (hp : Permits ctx p) : ∀ v : Json, Tree false false p v → KeysAre p v
  | .obj fs, h => by
    refine keysAre_obj.2 fun f hf => ?_
    rcases tree_unmarked.1 h f hf with ⟨hop, hkeys⟩ | ⟨hlogic, hlist⟩ | ⟨hfalse, -⟩
    · exact ⟨hp.field hop, hkeys⟩
    · obtain ⟨items, heq, -, hitems⟩ := hlist.exists_arr
      refine ⟨?_, ?_⟩
      · rcases hlogic with h | h
        · exact h ▸ hp.free .and rfl
        · exact h ▸ hp.free .or rfl
      · rw [heq]
        exact keysAre_arr.2 fun w hw => hp.keysAre_tree w (hitems w hw)
    · cases hfalse
  | .null, h => nomatch h
  | .bool _, h | .int _, h | .double _, h | .str _, h | .arr _, h => False.elim h
termination_by v => sizeOf v
decreasing_by exact (sizeOf_item_lt hw).trans (heq ▸ sizeOf_field_lt hf)

/-! ## Casting -/

lemma castValue_literal {type : PropertyType} {path : String} {raw : Json × Bool}
    (hraw : IsVettedLiteral raw.1) (h : castValue caster type path raw = .ok w) :
    IsVettedLiteral w := by
  unfold castValue at h
  split at h
  · cases h
    exact hraw
  · split at h
    · rcases castForQuery_cases h with rfl | h
      · exact hraw
      · rcases Cast.to?_cases h with rfl | ⟨harr, hobj⟩ | ⟨s, rfl⟩ | ⟨s, rfl⟩
        · exact hraw
        · exact keysAre_scalar harr hobj
        · exact keysAre_of_isLiteral (.date s)
        · exact keysAre_of_isLiteral (.oid s)
    · cases h
      exact keysAre_scalar rfl rfl

/-- What a leaf compares with: a literal, or a list of literals and placeholders. -/
def IsLeaf : Operand → Prop
  | .simple w => IsVettedLiteral w
  | .array elements => ∀ e ∈ elements, (∃ w, e = .simple w ∧ IsVettedLiteral w) ∨ e.isVariable = true
  | _ => False

lemma rawValues_literal {v : Operand} (h : IsLeaf v) :
    ∀ raw ∈ rawValues v, IsVettedLiteral raw.1 := by
  intro raw hraw
  cases v with
  | simple w =>
    cases mem_singleton.1 hraw
    exact h
  | array elements =>
    obtain ⟨e, he, rfl⟩ := mem_map.1 hraw
    rcases h e he with ⟨w, rfl, hw⟩ | hvariable
    · exact hw
    · cases e with
      | «variable» name => exact keysAre_scalar rfl rfl
      | _ => cases hvariable
  | _ => exact False.elim h

lemma isLeaf_array (hlist : VettedList key elements) (hamong : VettedAmong b.ctx key elements)
    (hkey : key ∉ ["$and", "$or"]) (hvalues : ∀ e ∈ elements, e.isExpression = false) :
    IsLeaf (.array elements) := by
  intro e he
  have hvetted := vettedAmong_iff.1 hamong e he
  rcases hlist.values hkey e he with hsimple | hvariable | ⟨-, hexpr⟩
  · cases e with
    | simple w => exact .inl ⟨w, rfl, hvetted⟩
    | _ => cases hsimple
  · exact .inr hvariable
  · rw [hvalues e he] at hexpr
    cases hexpr

/-- So is the list of an operator, unless it is logical or an `$all` of conditions. -/
lemma isLeaf_of_op (hop : MatchOp.ofKey? key = some op)
    (hlogic : (op = .and → False) ∧ (op = .or → False)) (hlist : VettedList key elements)
    (hamong : VettedAmong b.ctx key elements)
    (hall : ¬(decide (op = .all) && elements.any Operand.isExpression) = true) :
    IsLeaf (.array elements) := by
  have hkeys : key ∉ ["$and", "$or"] ∧ (op ≠ .all → key ∉ ["$and", "$or", "$all"]) := by
    rw [← MatchOp.key_of_ofKey? hop]
    cases op <;> first | exact (hlogic.1 rfl).elim | exact (hlogic.2 rfl).elim | decide
  refine isLeaf_array hlist hamong hkeys.1 fun e he => ?_
  cases hexpr : e.isExpression with
  | false => rfl
  | true =>
    have hany : elements.any Operand.isExpression = true := any_eq_true.2 ⟨e, he, hexpr⟩
    rw [hany, Bool.and_true, decide_eq_true_eq] at hall
    rw [hlist.not_expression (hkeys.2 hall) e he] at hexpr
    cases hexpr

lemma isOperator_indexKey (trail : Trail) : Path.isOperator (b.indexKey trail) = false := by
  unfold indexKey
  split
  · exact isOperator_append (Path.isOperator_property _)
  · exact Path.isOperator_property _

lemma isOperator_slotKey {n : Node} (h : b.slotKey? n = some key) :
    Path.isOperator key = false := by
  have hslot : ∀ slot rest, Path.isOperator (IndexEntries.slotKey slot ++ rest) = false := by
    intro slot rest
    unfold IndexEntries.slotKey
    split <;> simp only [String.append_assoc] <;> exact isOperator_slot _
  unfold slotKey? at h
  split at h
  · cases h
    split
    · rw [String.append_assoc]
      exact hslot _ _
    · simpa using hslot _ ""
  · cases h

lemma addPair_onField {pairs : Fields} (hpairs : ∀ f ∈ pairs, OnField p f.1 f.2)
    (hv : OnField p key v) : ∀ f ∈ addPair pairs key v, OnField p f.1 f.2 := by
  unfold Builder.addPair
  split
  · exact hpairs
  · exact forall_mem_append.2 ⟨hpairs, forall_mem_singleton.2 hv⟩

/-- Casting a literal for each node enters conditions on fields only. -/
lemma castNodes_yields (hp : Permits b.ctx p) {raw : List (Json × Bool)}
    (hraw : ∀ r ∈ raw, IsVettedLiteral r.1) {isArray enters : Bool}
    (hformat : ∀ w, KeysAre p w → KeysAre p (format w)) {ids : List NodeId}
    {slotted : Fields} (hslotted : ∀ f ∈ slotted, OnField p f.1 f.2) :
    Yields (OnField p) (b.castNodes trail raw isArray enters format caster ids slotted) fun out =>
      ids.mapM (fun id => raw.mapM (castValue caster (b.ctx.catalog.node id).type
        trail.fullpath)) = .ok out.1 ∧ ∀ f ∈ out.2, OnField p f.1 f.2 := by
  induction ids generalizing slotted with
  | nil => exact yields_pure ⟨rfl, hslotted⟩
  | cons id rest ih =>
    refine yields_of.bind fun cast hcast => ?_
    have hkeys : ∀ w ∈ cast, KeysAre p w := by
      intro w hw
      obtain ⟨r, hr, hcast⟩ := (mem_of_mapM hcast).1 hw
      exact hp.keysAre (castValue_literal (hraw r hr) hcast)
    have hentry : KeysAre p (format (if isArray then .arr cast else cast.headD .null)) := by
      refine hformat _ ?_
      split
      · exact keysAre_arr.2 hkeys
      · cases cast with
        | nil => exact keysAre_scalar rfl rfl
        | cons w more => exact hkeys w mem_cons_self
    have hrest : ∀ s, (∀ f ∈ s, OnField p f.1 f.2) → Yields (OnField p) (do
        let out ← b.castNodes trail raw isArray enters format caster rest s
        return (cast :: out.1, out.2)) fun out =>
          (id :: rest).mapM (fun id => raw.mapM (castValue caster
            (b.ctx.catalog.node id).type trail.fullpath)) = .ok out.1 ∧
          ∀ f ∈ out.2, OnField p f.1 f.2 := by
      refine fun s hs => (ih hs).bind fun out hout => yields_pure ⟨?_, hout.2⟩
      rw [mapM_cons, hcast, hout.1]
      rfl
    dsimp only
    split
    · split
      · next key hslot =>
        exact (yields_pure (addPair_onField hslotted ⟨isOperator_slotKey hslot, hentry⟩)).bind hrest
      · exact (yields_enter (forall_mem_singleton.2
          ⟨isOperator_indexKey _, hentry⟩)).bind fun _ _ => (yields_pure hslotted).bind hrest
    · exact (yields_pure hslotted).bind hrest

/-- The values of a leaf: its literals as cast for the nodes, or as they are without nodes. -/
structure CastValues (b : Builder) (trail : Trail) (v : Operand) (caster : Caster)
    (values : List Json) : Prop where
  literal : ∀ w ∈ values, IsVettedLiteral w
  casts : ∃ c : Candidate, trail.property.result = .ok (some c) ∧
    (c.nodes = [] ∧ values = (rawValues v).map Prod.fst ∨ c.nodes ≠ [] ∧
      ∃ casts, c.nodes.mapM (fun id => (rawValues v).mapM (castValue caster
        (b.ctx.catalog.node id).type trail.fullpath)) = .ok casts ∧
        values = Json.distinct casts.flatten)

lemma castIntoQuery_yields (hp : Permits b.ctx p) {v : Operand} (hv : IsLeaf v)
    (hformat : ∀ w, KeysAre p w → KeysAre p (format w)) (caster : Caster) :
    Yields (OnField p) (b.castIntoQuery trail v format caster) (CastValues b trail v caster) := by
  have hraw := rawValues_literal hv
  refine Yields.after (yields_lift.bind fun found hfound => ?_) yields_incomplete
  cases found with
  | none => exact yields_throw
  | some c =>
    dsimp only
    split
    · next hempty =>
      refine yields_pure ⟨fun w hw => ?_, c, hfound, .inl ⟨by simpa using hempty, rfl⟩⟩
      obtain ⟨raw, hmem, rfl⟩ := mem_map.1 hw
      exact hraw raw hmem
    · next hnonempty =>
      have hnone : ∀ f ∈ ([] : Fields), OnField p f.1 f.2 := nofun
      refine (castNodes_yields hp hraw hformat hnone).bind fun out hout => ?_
      refine Yields.after (.after (yields_pure ⟨fun w hw => ?_, c, hfound,
        .inr ⟨by simpa using hnonempty, out.1, hout.1, rfl⟩⟩) yields_incomplete)
        (yields_enter hout.2)
      obtain ⟨vs, hvs, hw⟩ := mem_flatten.1 (Json.mem_of_mem_distinctFrom hw)
      obtain ⟨id, -, hcast⟩ := (mem_of_mapM hout.1).1 hvs
      obtain ⟨raw, hmem, hcast⟩ := (mem_of_mapM hcast).1 hw
      exact castValue_literal (hraw raw hmem) hcast

lemma CastValues.one (h : CastValues b trail (.simple x) caster values) (type : PropertyType)
    (htype : ∀ id ∈ trailNodes trail, (b.ctx.catalog.node id).type = type) : ∃ w, values = [w] := by
  obtain ⟨c, hc, ⟨-, rfl⟩ | ⟨hne, casts, hcasts, rfl⟩⟩ := h.casts
  · exact ⟨x, rfl⟩
  · rw [trailNodes_eq hc] at htype
    -- every node casts the literal to the same value
    have hone : ∀ id ∈ c.nodes, ∀ vs, [(x, false)].mapM (castValue caster
        (b.ctx.catalog.node id).type trail.fullpath) = .ok vs →
        ∃ w, castValue caster type trail.fullpath (x, false) = .ok w ∧ vs = [w] := by
      intro id hid vs hvs
      rw [htype id hid, mapM_cons, except_bind_ok_iff] at hvs
      obtain ⟨w, hw, hvs⟩ := hvs
      cases hvs
      exact ⟨w, hw, rfl⟩
    obtain ⟨id, hid⟩ := exists_mem_of_ne_nil _ hne
    obtain ⟨vs, hmem, hvs⟩ := exists_of_mapM hcasts hid
    obtain ⟨w, hw, rfl⟩ := hone id hid vs hvs
    refine ⟨w, Json.distinct_of_forall_eq ?_ fun u hu => ?_⟩
    · exact ne_nil_of_mem (a := w) (mem_flatten.2 ⟨[w], hmem, mem_cons_self⟩)
    · obtain ⟨us, hus, hu⟩ := mem_flatten.1 hu
      obtain ⟨other, hother, hcast⟩ := (mem_of_mapM hcasts).1 hus
      obtain ⟨w', hw', rfl⟩ := hone other hother us hcast
      rw [mem_singleton.1 hu]
      rw [hw] at hw'
      exact (Except.ok.inj hw').symm

lemma CastValues.ne_nil (h : CastValues b trail (.simple x) caster values) : values ≠ [] := by
  obtain ⟨c, -, ⟨-, rfl⟩ | ⟨hne, casts, hcasts, rfl⟩⟩ := h.casts
  · exact cons_ne_nil _ _
  · obtain ⟨id, hid⟩ := exists_mem_of_ne_nil _ hne
    obtain ⟨vs, hvs, hcast⟩ := exists_of_mapM hcasts hid
    obtain ⟨w, hw, -⟩ := exists_of_mapM hcast (x := (x, false)) mem_cons_self
    have hmem : w ∈ casts.flatten := mem_flatten.2 ⟨vs, hvs, hw⟩
    obtain ⟨u, hu, -⟩ := Json.exists_mem_distinctFrom hmem Std.TreeSet.contains_emptyc
    exact ne_nil_of_mem hu

/-! ## Localized properties -/

lemma oneOrMany_keysAre {op : String} (hop : p op) (hvalues : ∀ w ∈ values, KeysAre p w) :
    KeysAre p (oneOrMany op values) := by
  unfold oneOrMany
  split
  · exact hvalues _ mem_cons_self
  · exact keysAre_single hop (keysAre_arr.2 hvalues)

lemma tree_single (hkey : Path.isOperator key = false) (hv : KeysAre p v) :
    Tree false false p (single key v) :=
  tree_unmarked.2 (forall_mem_singleton.2 (.inl ⟨hkey, hv⟩))

lemma tree_logic {items : List Json} (hkey : key = "$and" ∨ key = "$or") (hne : items ≠ [])
    (hitems : ∀ v ∈ items, Tree false false p v) : Tree false false p (single key (.arr items)) :=
  tree_unmarked.2 (forall_mem_singleton.2 (.inr (.inl ⟨hkey, treeList_arr.2 ⟨hne, hitems⟩⟩)))

lemma tree_typed {f : String × Json} (hf : OnField p f.1 f.2) (type : Option String) :
    Tree false false p (match type with
      | some type => .obj (Fields.insert [f] "type" (.str type))
      | none => .obj [f]) := by
  have hone : ∀ g ∈ [f], Member false false p g.1 g.2 := forall_mem_singleton.2 (.inl hf)
  cases type with
  | none => exact tree_unmarked.2 hone
  | some type => exact tree_unmarked.2 (forall_mem_insert hone
      (.inl ⟨by decide +kernel, keysAre_scalar rfl rfl⟩))

/-- A condition on localized nodes is a tree of conditions on fields. -/
lemma localized_yields (hp : Permits b.ctx p) {op : String} (hop : p op)
    (hvalues : ∀ w ∈ values, KeysAre p w) :
    Yields (OnField p) (b.localized trail values op) fun found =>
      ∀ w, found = some w → Tree false false p w := by
  have hexpr := oneOrMany_keysAre hop hvalues
  have hlocales : ∀ path, Path.isOperator ("locales." ++ path) = false := by
    intro path
    rw [Path.isOperator_append_of_ne (by decide)]
    decide +kernel
  have helement : ∀ locale : String, KeysAre p (single "$elemMatch"
      (.obj [("value", oneOrMany op values), ("locale", .str locale)])) := by
    intro locale
    refine keysAre_single (hp.free .elemMatch rfl) (keysAre_obj.2 ?_)
    simp only [forall_mem_cons, not_mem_nil, IsEmpty.forall_iff, implies_true, and_true]
    exact ⟨⟨hp.field (by decide +kernel), hexpr⟩, hp.field (by decide +kernel),
      keysAre_scalar rfl rfl⟩
  refine yields_lift.bind fun found _ => ?_
  have hnone : Yields (OnField p) (pure none : Build (Option Json)) fun found =>
      ∀ w, found = some w → Tree false false p w := by
    refine yields_pure ?_
    rintro w ⟨⟩
  cases found with
  | none => exact hnone
  | some c =>
    dsimp only
    split
    · exact hnone
    · next hlocalized =>
      refine yields_incomplete.bind fun _ _ => ?_
      split
      · refine yields_pure fun w hw => ?_
        cases hw
        exact tree_single (hlocales _) (helement _)
      · refine yields_pure fun w hw => ?_
        cases hw
        refine tree_logic (.inr rfl) ?_ fun v hv => ?_
        · rintro hnil
          rw [map_eq_nil_iff] at hnil
          simp [hnil] at hlocalized
        · obtain ⟨id, -, rfl⟩ := mem_map.1 hv
          refine tree_typed ?_ _
          split
          · exact ⟨hlocales _, helement _⟩
          · exact ⟨Path.isOperator_property _, hexpr⟩

/-! ## Objects under construction -/

/-- A built part with permitted keys. -/
def BuiltIs (p : String → Prop) (built : Option Built) : Prop :=
  ∀ x, built = some x → KeysAre p x.unwrap

/-- An object under construction with permitted keys. -/
structure EnclosingIs (p : String → Prop) (around : Enclosing) : Prop where
  fields : KeysAre p (.obj around.fields)
  replacement : ∀ v, around.replacement = some v → KeysAre p v

lemma enclosingIs_empty : EnclosingIs p {} where
  fields := keysAre_obj.2 nofun
  replacement := nofun

lemma builtIs_value (h : KeysAre p v) : BuiltIs p (some (.value v)) := by
  rintro x ⟨⟩
  exact h

lemma builtIs_replace (h : KeysAre p v) : BuiltIs p (some (.replace (.value v))) := by
  rintro x ⟨⟩
  exact h

lemma keysAre_merge (hand : p "$and") {fs gs : Fields} (hfs : KeysAre p (.obj fs))
    (hgs : KeysAre p (.obj gs)) : KeysAre p (.obj (Built.merge fs gs)) := by
  unfold Built.merge
  split
  · split
    · exact keysAre_insert hfs hand (keysAre_arr.2 (forall_mem_singleton.2 hgs))
    · next items hitems =>
      have hlist := keysAre_arr.1 (keysAre_obj.1 hfs _ (mem_of_get? hitems)).2
      exact keysAre_insert hfs hand (keysAre_arr.2 (forall_mem_append.2
        ⟨hlist, forall_mem_singleton.2 hgs⟩))
    · exact hfs
  · exact keysAre_obj.2 (forall_mem_extend (P := fun k w => p k ∧ KeysAre p w)
      (keysAre_obj.1 hfs) (keysAre_obj.1 hgs))

lemma EnclosingIs.addBuilt (hp : Permits ctx p) (h : EnclosingIs p around)
    (hbuilt : BuiltIs p built) : EnclosingIs p (addBuilt around built) := by
  have hand : p "$and" := hp.free .and rfl
  unfold Builder.addBuilt
  split
  · exact h
  · next inner =>
    refine ⟨h.fields, fun v hv => ?_⟩
    cases hv
    exact hbuilt (.replace inner) rfl
  · next fs =>
    have hfs : KeysAre p (.obj fs) := hbuilt _ rfl
    split
    · next current heq =>
      refine ⟨h.fields, fun v hv => ?_⟩
      cases hv
      exact keysAre_merge hand (h.replacement _ heq) hfs
    · exact ⟨keysAre_merge hand h.fields hfs, h.replacement⟩
  · exact h

lemma EnclosingIs.enclosed (h : EnclosingIs p around) : BuiltIs p (enclosed around) := by
  unfold Builder.enclosed
  split
  · next v hv => exact builtIs_replace (h.replacement v hv)
  · split
    · rintro x ⟨⟩
    · exact builtIs_value h.fields

lemma BuiltIs.objectOrEmpty (h : BuiltIs p built) : KeysAre p (objectOrEmpty built) := by
  cases built with
  | none => exact nofun
  | some x => exact h x rfl

/-! ## Operators -/

/-- A further condition goes into a branch of a fan-out. -/
def addToBranch (parentKey key : String) (branch w : Json) : Json := match branch with
  | .obj gs =>
    match (Fields.get? gs parentKey).getD (.obj []) with
    | .obj hs => .obj (Fields.insert gs parentKey (.obj (Fields.insert hs key w)))
    | _ => .obj gs
  | other => other

/-- A condition for each value. -/
def fanOut (parentKey key : String) (values : List Json) : Json :=
  single "$or" (.arr (values.map fun w => single parentKey (single key w)))

/-- **What a simple operator is built into**: one condition, a fan-out over several values, or the
fan-out around it with a further condition in each branch. -/
lemma buildSimple_cases {v : Operand} (h : b.buildSimple trail op v around = ⟨.ok built, journal⟩) :
    ∃ values m n, b.castIntoQuery trail v (single op.key)
        (if op = .present then .truth else .stored) = ⟨.ok values, m⟩ ∧ journal = m ++ n ∧ n = [] ∧
      ((∃ w, values = [w] ∧ built = some (.value (single op.key w))) ∨
      (∀ w, values ≠ [w]) ∧ (around.fields = [] ∨ around.replacement.isSome = true) ∧
        (built = some (.replace (.value (fanOut (b.buildKey trail.parent) op.key values))) ∨
        ∃ fs branches, around.replacement = some (.obj fs) ∧
          Fields.get? fs "$or" = some (.arr branches) ∧
          built = some (.replace (.value (.obj (Fields.insert fs "$or" (.arr (List.zipWith
            (addToBranch (b.buildKey trail.parent) op.key) branches values)))))))) := by
  simp only [buildSimple, bind_ok_iff] at h
  obtain ⟨values, m, n, hcast, h, rfl⟩ := h
  refine ⟨values, m, n, hcast, rfl, ?_⟩
  split at h
  · next w =>
    cases h
    exact ⟨rfl, .inl ⟨w, rfl, rfl⟩⟩
  · next hmany =>
    simp only [guard_ok_iff] at h
    obtain ⟨haround, h⟩ := h
    have haround : around.fields = [] ∨ around.replacement.isSome = true := by
      cases hr : around.replacement with
      | none => simpa [hr] using haround
      | some r => exact .inr rfl
    split at h
    · next fs hr =>
      split at h
      · next branches hor =>
        split at h
        · cases h
          exact ⟨rfl, .inr ⟨fun w hw => hmany w hw, haround, .inr ⟨fs, branches, hr, hor, rfl⟩⟩⟩
        · cases h
          exact ⟨rfl, .inr ⟨fun w hw => hmany w hw, haround, .inl rfl⟩⟩
      · cases h
        exact ⟨rfl, .inr ⟨fun w hw => hmany w hw, haround, .inl rfl⟩⟩
    · cases h
      exact ⟨rfl, .inr ⟨fun w hw => hmany w hw, haround, .inl rfl⟩⟩

lemma mem_zipWith {α β γ : Type} {f : α → β → γ} {xs : List α} {ys : List β} {z : γ}
    (h : z ∈ List.zipWith f xs ys) : ∃ x ∈ xs, ∃ y ∈ ys, z = f x y := by
  rw [← map_uncurry_zip_eq_zipWith] at h
  obtain ⟨⟨x, y⟩, hmem, rfl⟩ := mem_map.1 h
  exact ⟨x, (of_mem_zip hmem).1, y, (of_mem_zip hmem).2, rfl⟩

/-- A condition goes into the object of its field in a branch, which may be new. -/
lemma addToBranch_cases (parentKey key : String) (branch w : Json) :
    addToBranch parentKey key branch w = branch ∨ ∃ gs hs, branch = .obj gs ∧
      (hs = [] ∨ Fields.get? gs parentKey = some (.obj hs)) ∧ addToBranch parentKey key branch w =
        .obj (Fields.insert gs parentKey (.obj (Fields.insert hs key w))) := by
  unfold addToBranch
  split
  · next gs =>
    cases hget : Fields.get? gs parentKey with
    | none => exact .inr ⟨gs, [], rfl, .inl rfl, rfl⟩
    | some u =>
      cases u with
      | obj hs => exact .inr ⟨gs, hs, rfl, .inr hget, rfl⟩
      | _ => exact .inl rfl
  · exact .inl rfl

lemma keysAre_addToBranch {parentKey : String} (hparent : p parentKey) (hkey : p key)
    {branch : Json} (hbranch : KeysAre p branch) (hw : KeysAre p w) :
    KeysAre p (addToBranch parentKey key branch w) := by
  rcases addToBranch_cases parentKey key branch w with heq | ⟨gs, hs, rfl, hhs, heq⟩ <;> rw [heq]
  · exact hbranch
  · refine keysAre_insert hbranch hparent (keysAre_insert ?_ hkey hw)
    rcases hhs with rfl | hget
    · exact enclosingIs_empty.fields
    · exact (keysAre_obj.1 hbranch _ (mem_of_get? hget)).2

lemma buildSimple_yields (hp : Permits b.ctx p) (hop : p op.key) {v : Operand} (hv : IsLeaf v)
    (haround : EnclosingIs p around)
    (hparent : ∀ caster values, CastValues b trail v caster values → (∀ w, values ≠ [w]) →
      p (b.buildKey trail.parent)) :
    Yields (OnField p) (b.buildSimple trail op v around) (BuiltIs p) := by
  intro built journal h
  obtain ⟨values, m, n, hcast, rfl, rfl, hbuilt⟩ := buildSimple_cases h
  obtain ⟨hvalues, hm⟩ := castIntoQuery_yields hp hv (fun w hw => keysAre_single hop hw) _ _ _ hcast
  refine ⟨?_, hm.append enters_nil⟩
  have hkeys : ∀ w ∈ values, KeysAre p w := fun w hw => hp.keysAre (hvalues.literal w hw)
  have hor : p "$or" := hp.free .or rfl
  rcases hbuilt with ⟨w, rfl, rfl⟩ | ⟨hmany, -, hbuilt⟩
  · exact builtIs_value (keysAre_single hop (hkeys w mem_cons_self))
  · have hkey := hparent _ values hvalues hmany
    rcases hbuilt with rfl | ⟨fs, branches, hr, hget, rfl⟩
    · refine builtIs_replace (keysAre_single hor (keysAre_arr.2 fun u hu => ?_))
      obtain ⟨w, hw, rfl⟩ := mem_map.1 hu
      exact keysAre_single hkey (keysAre_single hop (hkeys w hw))
    · have hfs := haround.replacement _ hr
      refine builtIs_replace (keysAre_insert hfs hor (keysAre_arr.2 fun u hu => ?_))
      obtain ⟨branch, hbranch, w, hw, rfl⟩ := mem_zipWith hu
      exact keysAre_addToBranch hkey hop
        (keysAre_arr.1 (keysAre_obj.1 hfs _ (mem_of_get? hget)).2 branch hbranch) (hkeys w hw)

lemma underlying_literal {v : Operand} (h : IsLeaf v) : IsVettedLiteral v.underlying := by
  cases v with
  | simple w => exact h
  | array elements =>
    refine keysAre_arr.2 ?_
    induction elements with
    | nil => exact nofun
    | cons e rest ih =>
      obtain ⟨he, hrest⟩ := forall_mem_cons.1 h
      refine forall_mem_cons.2 ⟨?_, ih hrest⟩
      rcases he with ⟨w, rfl, hw⟩ | hvariable
      · exact hw
      · cases e with
        | «variable» name => exact keysAre_scalar rfl rfl
        | _ => cases hvariable
  | _ => exact False.elim h

/-- A part that is a tree if it stands for the object around it. -/
def ReplacesBy (p : String → Prop) (built : Option Built) : Prop :=
  ∀ r, built = some (.replace r) → Tree false false p r.unwrap

lemma replacesBy_value : ReplacesBy p (some (.value v)) := nofun

/-- What an operator on values is built into. -/
def LeafIs (p : String → Prop) (built : Option Built) : Prop := BuiltIs p built ∧ ReplacesBy p built

lemma leafIs_value (h : KeysAre p v) : LeafIs p (some (.value v)) :=
  ⟨builtIs_value h, replacesBy_value⟩

lemma Permits.leafIs_replace (hp : Permits ctx p) (h : Tree false false p v) :
    LeafIs p (some (.replace (.value v))) := by
  refine ⟨builtIs_replace (hp.keysAre_tree v h), ?_⟩
  rintro r ⟨⟩
  exact h

lemma localizedList_yields (hp : Permits b.ctx p) (trail : Trail) (hkey : p key)
    (hvalues : ∀ w ∈ values, KeysAre p w) :
    Yields (OnField p) (b.localizedList trail key values) (LeafIs p) := by
  refine (localized_yields hp hkey hvalues).bind fun found hfound => ?_
  cases found with
  | some w => exact yields_pure (hp.leafIs_replace (hfound w rfl))
  | none => exact yields_pure (leafIs_value (keysAre_single hkey (keysAre_arr.2 hvalues)))

lemma buildLeaf_yields (hp : Permits b.ctx p) (hop : p op.key) {v : Operand} (hv : IsLeaf v) :
    Yields (OnField p) (b.buildLeaf trail op v) (LeafIs p) := by
  have hunderlying : KeysAre p v.underlying := hp.keysAre (underlying_literal hv)
  have hcast : ∀ key, p key → ∀ caster, Yields (OnField p)
      (b.castIntoQuery trail v (single key) caster) (CastValues b trail v caster) :=
    fun key hkey => castIntoQuery_yields hp hv fun w hw => keysAre_single hkey hw
  have hempty : ∀ key, p key → LeafIs p (some (.value (single key (.arr [])))) :=
    fun key hkey => leafIs_value (keysAre_single hkey (keysAre_arr.2 nofun))
  have hlist : ∀ key values caster, p key → CastValues b trail v caster values →
      LeafIs p (some (.value (single key (.arr values)))) := fun key values caster hkey hvalues =>
    leafIs_value (keysAre_single hkey (keysAre_arr.2 fun w hw =>
      hp.keysAre (hvalues.literal w hw)))
  have hlocal : ∀ t key values caster, p key → CastValues b trail v caster values →
      Yields (OnField p) (b.localizedList t key values) (LeafIs p) :=
    fun t key values caster hkey hvalues =>
      localizedList_yields hp t hkey fun w hw => hp.keysAre (hvalues.literal w hw)
  unfold buildLeaf
  split
  iterate 2
    · exact yields_incomplete.bind fun _ _ => yields_pure
        (leafIs_value (keysAre_single hop hunderlying))
  · split
    · exact yields_incomplete.bind fun _ _ => yields_pure (hempty _ hop)
    · exact (hcast _ hop _).bind fun values hvalues => yields_pure (hlist _ _ _ hop hvalues)
  · split
    · exact yields_incomplete.bind fun _ _ => yields_pure (hempty _ hop)
    · exact (hcast _ hop _).bind fun values hvalues => hlocal _ _ _ _ hop hvalues
  · refine (castIntoQuery_yields hp hv (fun w hw => hw) _).bind fun values hvalues => ?_
    split
    · exact yields_pure (leafIs_value hunderlying)
    · exact yields_pure (leafIs_value (hp.keysAre (hvalues.literal _ mem_cons_self)))
    · exact yields_throw
  · exact (hcast _ hop _).bind fun values hvalues => hlocal _ _ _ _ hop hvalues
  · exact (hcast _ hp.geoWithin _).bind fun _ _ => yields_pure
      (leafIs_value (keysAre_single hp.geoWithin hunderlying))
  · exact yields_throw

lemma buildElemMatch_yields (hp : Permits ctx p) {conditions : Json} (h : KeysAre p conditions) :
    Yields (OnField p) (buildElemMatch trail conditions) (BuiltIs p) := by
  unfold buildElemMatch
  dsimp only
  split
  · exact yields_pure (builtIs_value (keysAre_single (hp.free .elemMatch rfl) h))
  · split
    · exact yields_throw
    · exact yields_pure (builtIs_replace h)

lemma buildField_yields (hp : Permits b.ctx p) (htrail : Path.isOperator trail.site.key = false)
    (h : BuiltIs p built) : Yields (OnField p) (b.buildField trail built) (LeafIs p) := by
  have hin : p "$in" := hp.free .oneOf rfl
  unfold buildField
  split
  · exact yields_pure ⟨nofun, nofun⟩
  · next inner => exact yields_pure (leafIs_value (h (.replace inner) rfl))
  · next v =>
    have hv : KeysAre p v := h (.value v) rfl
    refine (localized_yields hp hin (forall_mem_singleton.2 hv)).bind fun found hfound => ?_
    cases found with
    | some w => exact yields_pure (leafIs_value (hp.keysAre_tree w (hfound w rfl)))
    | none =>
      exact yields_pure (leafIs_value (keysAre_single (hp.field (isOperator_buildKey htrail)) hv))

/-! ## Building a match -/

variable {root : Trail} {v : Operand}

/-- **A comparison that fans out names a field or an `$elemMatch` that holds no references.** -/
lemma Component.parentKey (hp : Permits b.ctx p)
    (hmarks : ∀ a ∈ b.references, MarksReferences b.ctx root v a) {t : Trail}
    (h : Component b.ctx root v t (.simple x)) (hop : t.site.matchOp? = some op)
    (hsimple : op.isSimple = true) (hvalues : CastValues b t (.simple x) caster values)
    (hmany : ∀ w, values ≠ [w]) : p (b.buildKey t.parent) := by
  have hstands := h.stands hop
  have hlogic : op ≠ .and ∧ op ≠ .or := by
    constructor <;> rintro rfl <;> cases hsimple
  obtain ⟨hroot, hname⟩ := key_of_holder (not_holdsFields hstands hlogic)
  have hplace : Path.isOperator t.parent.holder = false ∨ t.parent.holder = "$elemMatch" := by
    revert hstands hsimple
    cases op <;> simp [Stands, MatchOp.isSimple, MatchOp.compareOp?]
  rcases hplace with hfield | helem
  · exact hp.field (isOperator_buildKey (by rw [hname]; exact hfield))
  · rw [helem] at hname
    unfold buildKey
    split
    · next hreference =>
      obtain ⟨hw, -, -, -⟩ := h
      rw [parent_child hw.ne_nil] at hreference hname hroot
      rw [site_child hw.ne_nil] at hop
      have hnodes := hmarks _ (by simpa [isReference] using hreference) _ _ hw.here hname
      obtain ⟨c, hc, -⟩ := hvalues.casts
      have heq := trailNodes_literal hroot hop (eq_ok_of_result hc)
      obtain ⟨w, hw⟩ := hvalues.one .reference fun id hid => by
        rw [trailNodes_eq hc, ← heq] at hid
        exact hnodes id hid
      exact absurd hw (hmany w)
    · rw [hname]
      exact hp.free .elemMatch rfl

mutual

lemma buildComponent_yields (hp : Permits b.ctx p)
    (hmarks : ∀ a ∈ b.references, MarksReferences b.ctx root v a) :
    ∀ (x : Operand) (t : Trail) (around : Enclosing),
    Component b.ctx root v t x → EnclosingIs p around →
    Yields (OnField p) (b.buildComponent t around x) (BuiltIs p)
  | .variable name, t, around, hx, _ => by
    refine yields_incomplete.bind fun _ _ => yields_pure (builtIs_value (keysAre_single ?_
      (keysAre_scalar rfl rfl)))
    cases hop : t.site.matchOp? with
    | some op => exact hp.vetted hx.vettedKey hop
    | none => exact hp.field (isOperator_buildKey (hx.isField hop))
  | .expression cs, t, around, hx, haround => by
    have hbelow := buildChildren_yields hp hmarks cs t 0 0 {} (hx.below 0) enclosingIs_empty
    rw [buildComponent]
    cases hop : t.site.matchOp? with
    | some op =>
      dsimp only
      split
      · exact yields_throw
      · split
        · exact yields_incomplete.bind fun _ _ => hbelow.bind fun out hout =>
            buildElemMatch_yields hp hout.enclosed.objectOrEmpty
        · exact yields_throw
    | none =>
      exact hbelow.bind fun out hout =>
        (buildField_yields hp (hx.isField hop) hout.enclosed).mono fun _ hfield => hfield.1
  | .array elements, t, around, hx, haround => by
    have hbelow := buildElements_yields hp hmarks elements t 0 hx.among
    rw [buildComponent]
    cases hop : t.site.matchOp? with
    | none => exact yields_throw
    | some op =>
      have hpkey := hp.vetted hx.vettedKey hop
      have hconditions : Yields (OnField p) (do
          return some (.value (single op.key (.arr (← b.buildElements t 0 elements)))))
          (BuiltIs p) := hbelow.bind fun items hitems =>
        yields_pure (builtIs_value (keysAre_single hpkey (keysAre_arr.2 hitems)))
      dsimp only
      split
      · exact hconditions
      · exact hconditions
      · next hand hor =>
        split
        · exact yields_throw
        · split
          · exact yields_incomplete.bind fun _ _ => hbelow.bind fun items hitems =>
              yields_pure (builtIs_value (keysAre_single (hp.free .all rfl) (keysAre_arr.2 hitems)))
          · next hall =>
            exact (buildLeaf_yields hp hpkey
              (isLeaf_of_op hop ⟨hand, hor⟩ hx.vetted.1 hx.vetted.2 hall)).mono
              fun _ hleaf => hleaf.1
  | .simple w, t, around, hx, haround => by
    have hleaf : IsLeaf (.simple w) := hx.vetted
    rw [buildComponent]
    · cases hop : t.site.matchOp? with
      | some op =>
        have hpkey := hp.vetted hx.vettedKey hop
        dsimp only
        split
        · next hsimple =>
          exact buildSimple_yields hp hpkey hleaf haround fun caster values hvalues hmany =>
            hx.parentKey hp hmarks hop hsimple hvalues hmany
        · split
          · exact yields_throw
          · exact (buildLeaf_yields hp hpkey hleaf).mono fun _ hleaf => hleaf.1
      | none =>
        have hin : p "$in" := hp.free .oneOf rfl
        refine (castIntoQuery_yields hp hleaf (fun w hw => hw) _).bind fun values hvalues => ?_
        have hkeys : ∀ w ∈ values, KeysAre p w := fun w hw => hp.keysAre (hvalues.literal w hw)
        refine (localized_yields hp hin hkeys).bind fun found hfound => ?_
        cases found with
        | some w => exact yields_pure (builtIs_value (hp.keysAre_tree w (hfound w rfl)))
        | none => exact yields_pure (builtIs_value (keysAre_single
            (hp.field (isOperator_buildKey (hx.isField hop))) (oneOrMany_keysAre hin hkeys)))
    all_goals exact nofun
  | .property _, _, _, hx, _
  | .raw _, _, _, hx, _ => False.elim hx.vetted

lemma buildChildren_yields (hp : Permits b.ctx p)
    (hmarks : ∀ a ∈ b.references, MarksReferences b.ctx root v a) :
    ∀ (cs : Children) (t : Trail) (element index : Nat)
    (around : Enclosing), Below b.ctx root v t element index cs → EnclosingIs p around →
    Yields (OnField p) (b.buildChildren t element index around cs) (EnclosingIs p)
  | [], _, _, _, _, _, haround => yields_pure haround
  | (_, x) :: rest, t, element, index, around, ⟨hx, hrest⟩, haround =>
    (buildComponent_yields hp hmarks x _ around hx haround).bind fun _ hbuilt =>
      buildChildren_yields hp hmarks rest t element (index + 1) _ hrest (haround.addBuilt hp hbuilt)

lemma buildElements_yields (hp : Permits b.ctx p)
    (hmarks : ∀ a ∈ b.references, MarksReferences b.ctx root v a) :
    ∀ (elements : List Operand) (t : Trail) (element : Nat), Among b.ctx root v t element elements →
    Yields (OnField p) (b.buildElements t element elements) fun items => ∀ w ∈ items, KeysAre p w
  | [], _, _, _ => yields_pure nofun
  | .expression cs :: rest, t, element, ⟨⟨hcs, _⟩, hrest⟩ =>
    (buildChildren_yields hp hmarks cs t element 0 {} hcs enclosingIs_empty).bind fun _ hout =>
      (buildElements_yields hp hmarks rest t (element + 1) hrest).bind fun _ hitems =>
        yields_pure (forall_mem_cons.2 ⟨hout.enclosed.objectOrEmpty, hitems⟩)
  | .variable _ :: rest, t, element, ⟨_, hrest⟩ =>
    yields_incomplete.bind fun _ _ =>
      (buildElements_yields hp hmarks rest t (element + 1) hrest).bind
      fun _ hitems => yields_pure (forall_mem_cons.2 ⟨keysAre_scalar rfl rfl, hitems⟩)
  | .simple _ :: rest, t, element, ⟨⟨_, hx, _⟩, hrest⟩ =>
    (buildElements_yields hp hmarks rest t (element + 1) hrest).bind fun _ hitems =>
      yields_pure (forall_mem_cons.2 ⟨hp.keysAre hx, hitems⟩)
  | .array x :: _, _, _, ⟨⟨_, _, hne⟩, _⟩ => absurd rfl (hne x)
  | .property _ :: _, _, _, ⟨⟨_, hvetted, _⟩, _⟩
  | .raw _ :: _, _, _, ⟨⟨_, hvetted, _⟩, _⟩ => False.elim hvetted

end

/-- **The native query has permitted keys**, and so has all that is entered. -/
lemma buildNatural_yields (hp : Permits b.ctx p) {cs : Children} (hmarks : ∀ a ∈ b.references,
      MarksReferences b.ctx (Trail.root b.ctx (.expression cs)) (.expression cs) a)
    (hcs : VettedBelow b.ctx "$match" cs) :
    Yields (OnField p) (b.buildNatural (Trail.root b.ctx (.expression cs)) (.expression cs))
      fun natural => KeysAre p (.obj natural) := by
  refine (buildChildren_yields hp hmarks cs _ 0 0 {} (below_root hcs) enclosingIs_empty).bind
    fun around haround => yields_pure ?_
  have hkeys := haround.enclosed.objectOrEmpty
  cases hobj : objectOrEmpty (enclosed around) with
  | obj fs =>
    rw [hobj] at hkeys
    exact hkeys
  | _ => exact keysAre_obj.2 nofun

/-! ## The query -/

lemma runSteps_tree {out : Indexing} (hfits : Fits p i.entries.baseFind)
    (hroot : Tree true true p (.obj i.entries.root)) (henters : Enters (OnField p) journal)
    (h : runSteps journal i = ⟨.ok out, notes⟩) :
    out.entries.baseFind = i.entries.baseFind ∧ Tree true true p (.obj out.entries.root) := by
  induction journal generalizing i notes with
  | nil =>
    cases h
    exact ⟨rfl, hroot⟩
  | cons step rest ih =>
    have hrest : Enters (OnField p) rest := fun steps pairs path hmem =>
      henters steps pairs path (mem_cons_of_mem _ hmem)
    cases step with
    | event e =>
      simp only [runSteps, bind_ok_iff] at h
      obtain ⟨_, _, _, -, h, -⟩ := h
      exact ih hfits hroot hrest h
    | incomplete => exact ih (i := { i with complete := false }) hfits hroot hrest h
    | enter steps pairs path =>
      have hentered : ∃ entries m, i.entries.insert steps pairs = (entries, none) ∧
          runSteps rest { i with entries } = ⟨.ok out, m⟩ := by
        cases hinsert : i.entries.insert steps pairs with
        | mk entries fault =>
          simp only [runSteps, hinsert] at h
          cases fault with
          | none =>
            refine ⟨entries, ?_⟩
            split at h
            · rw [bind_ok_iff] at h
              obtain ⟨_, _, n, -, h, -⟩ := h
              exact ⟨n, rfl, h⟩
            · exact ⟨notes, rfl, h⟩
          | some f => split at h <;> cases h
      obtain ⟨entries, m, hinsert, h⟩ := hentered
      obtain ⟨hbase, htree⟩ := insert_tree hfits hroot
        (henters steps pairs path mem_cons_self) hinsert
      obtain ⟨hout, hfinal⟩ := ih (i := { i with entries }) (by rw [hbase]; exact hfits) htree
        hrest h
      exact ⟨hout.trans hbase, hfinal⟩

/-- What a compiled match is made of: a native query with permitted keys and a tree of entries. -/
lemma compile_permits (hp : Permits ctx p) (hfits : Fits p ctx.baseFind) {w : Operand}
    (hparse : parse ctx value = .ok w) (h : compile ctx value = ⟨.ok out, notes⟩) :
    ∃ findings natural indexing, (validate ctx (Trail.root ctx w) w).result = .ok findings ∧
      (buildNatural ⟨ctx, findings.references⟩ (Trail.root ctx w) w).result = .ok natural ∧
      out.json = single "$match" (emitted (Fields.seed ctx.baseFind natural) indexing) ∧
      KeysAre p (.obj natural) ∧ ∀ index, indexing.entries.finish = some index →
        Tree false false p (.obj index.query) := by
  obtain ⟨cs, rfl, hcs⟩ := parse_vetted hparse
  obtain ⟨findings, natural, journal, indexing, events, hfindings, hnatural, hrun, -, hjson⟩ :=
    compile_queries hparse h
  have hmarks := validate_marks hcs (eq_ok_of_result hfindings)
  obtain ⟨hkeys, henters⟩ := buildNatural_yields (b := ⟨ctx, findings.references⟩) hp hmarks hcs
    natural journal hnatural
  have hnew : Tree true true p (.obj (IndexEntries.new ctx.baseFind).root) :=
    tree_obj.2 ⟨fun _ => nodup_nil, nofun⟩
  obtain ⟨hbase, htree⟩ := runSteps_tree (i := ⟨.new ctx.baseFind, true⟩) hfits hnew henters hrun
  refine ⟨findings, natural, indexing, hfindings, congrArg result hnatural, hjson, hkeys,
    fun index hindex => finish_tree ?_ htree hindex⟩
  rw [hbase]
  exact hfits

lemma keysAre_emitted (hp : Permits ctx p) {native : Fields} (hnative : KeysAre p (.obj native))
    (hindex : ∀ index, i.entries.finish = some index → KeysAre p (.obj index.query)) :
    KeysAre p (emitted native i) := by
  unfold emitted
  split
  · exact hnative
  · next index hfinish =>
    split
    · refine keysAre_single (hp.free .and rfl) (keysAre_arr.2 ?_)
      simp only [forall_mem_cons, not_mem_nil, IsEmpty.forall_iff, implies_true, and_true]
      exact ⟨hnative, hindex index hfinish⟩
    · exact hindex index hfinish

/-- The keys that casts, circles and patterns bring into a query. -/
def valueKeys : List String := ["$geoWithin", "$centerSphere", "$options", "$date", "$oid"]

/-- A key of a query: a field, a match operator that is allowed if it is restricted, or a key of a
value. -/
def Allowed (ctx : Context) (key : String) : Prop :=
  Path.isOperator key = true → key ∈ MatchOp.every.map MatchOp.key ++ valueKeys ∧
    (key ∈ ["$ne", "$nin", "$type"] →
      "*" ∈ ctx.options.allowedRestrictedOps ∨ key ∈ ctx.options.allowedRestrictedOps)

lemma permits_allowed (ctx : Context) : Permits ctx (Allowed ctx) where
  field hkey hop := by
    rw [hkey] at hop
    cases hop
  operator op hallowed _ := by
    refine ⟨mem_append_left _ (mem_map.2 ⟨op, by cases op <;> decide, rfl⟩), fun hmem => ?_⟩
    have hrestricted : op.isRestricted = true := by
      revert hmem
      cases op <;> decide
    have hany := hallowed hrestricted
    simp only [Options.allowsOperator, any_eq_true, Bool.or_eq_true, beq_iff_eq] at hany
    obtain ⟨allowed, hmem, rfl | rfl⟩ := hany
    · exact .inl hmem
    · exact .inr hmem
  literal key hkey _ := by
    have hall : ∀ key ∈ literalKeys, key ∈ MatchOp.every.map MatchOp.key ++ valueKeys ∧
        key ∉ ["$ne", "$nin", "$type"] := by decide
    exact ⟨(hall key hkey).1, fun hmem => absurd hmem (hall key hkey).2⟩
  geoWithin _ := ⟨by decide, fun hmem => absurd hmem (by decide)⟩

/-- Base conditions that hold no operators fit into every tree. -/
lemma fits_of_fields (hp : Permits ctx p) (hmarker : ¬p marker)
    (hnodup : (Fields.keys ctx.options.baseFind).Nodup)
    (hbase : ∀ f ∈ ctx.options.baseFind, OnField p f.1 f.2) : Fits p ctx.baseFind := by
  refine ⟨hmarker, hp.free .present rfl, ?_, ?_⟩
  all_goals
    unfold Context.baseFind
    split
  · exact hnodup
  · exact nodup_nil
  · exact hbase
  · exact nofun

lemma exists_parse (h : compile ctx value = ⟨.ok out, notes⟩) : ∃ w, parse ctx value = .ok w := by
  obtain ⟨w, _, _, hw, -⟩ := bind_ok_iff.1 h
  exact ⟨w, congrArg result hw⟩

/-- **No operator gets into a query through a match**: every operator key, at any depth, is one of
the match operators or a key that values are written with, and the restricted ones are there only
with leave. -/
theorem operators_vetted {value : Json} {out : StageOutput} {notes : List Event}
    (hnodup : (Fields.keys ctx.options.baseFind).Nodup)
    (hbase : ∀ key ∈ (Json.obj ctx.options.baseFind).nestedKeys, Path.isOperator key = false)
    (h : compile ctx value = ⟨.ok out, notes⟩) : ∃ query, out.json = single "$match" query ∧
      ∀ key ∈ query.nestedKeys, Path.isOperator key = true →
        key ∈ MatchOp.every.map MatchOp.key ++ valueKeys ∧ (key ∈ ["$ne", "$nin", "$type"] →
          "*" ∈ ctx.options.allowedRestrictedOps ∨ key ∈ ctx.options.allowedRestrictedOps) := by
  have hp := permits_allowed ctx
  have hplain : KeysAre (fun key => Path.isOperator key = false) (.obj ctx.options.baseFind) := hbase
  have hfits : Fits (Allowed ctx) ctx.baseFind := by
    refine fits_of_fields hp (fun hmarker => ?_) hnodup fun f hf => ?_
    · exact absurd (hmarker (by decide +kernel)).1 (by decide)
    · obtain ⟨hop, hkeys⟩ := keysAre_obj.1 hplain f hf
      exact ⟨hop, hkeys.mono fun key hkey => hp.field hkey⟩
  obtain ⟨w, hparse⟩ := exists_parse h
  obtain ⟨findings, natural, indexing, -, -, hjson, hkeys, hindex⟩ :=
    compile_permits hp hfits hparse h
  have hnative : KeysAre (Allowed ctx) (.obj (Fields.seed ctx.baseFind natural)) :=
    keysAre_obj.2 (forall_mem_seed (P := fun k u => Allowed ctx k ∧ KeysAre (Allowed ctx) u)
      (fun f hf => ⟨hp.field (hfits.base f hf).1, (hfits.base f hf).2⟩) (keysAre_obj.1 hkeys))
  exact ⟨_, hjson, keysAre_emitted hp hnative fun index hfinish =>
    hp.keysAre_tree _ (hindex index hfinish)⟩

/-- Restricted operators get into the query of a caller who may use them. -/
theorem tag_operators_vetted :
    let ctx := tagContext [("c_org", .int 3)]
    let value := .obj [("c_org", .obj [("$gte", .int 1)]), tagChoices]
    ∃ out query, (compile ctx value).result = .ok out ∧ out.json = single "$match" query ∧
      ["$or", "$nin", "$ne"] ⊆ query.nestedKeys ∧
      ∀ key ∈ query.nestedKeys, Path.isOperator key = true →
        key ∈ MatchOp.every.map MatchOp.key ++ valueKeys ∧ (key ∈ ["$ne", "$nin", "$type"] →
          "*" ∈ ctx.options.allowedRestrictedOps ∨ key ∈ ctx.options.allowedRestrictedOps) := by
  intro ctx value
  obtain ⟨out, hresult, hused⟩ : ∃ out, (compile ctx value).result = .ok out ∧
      ["$match", "$or", "$nin", "$ne"] ⊆ out.json.nestedKeys := exists_eq_ok_and (by decide +kernel)
  obtain ⟨query, hjson, hkeys⟩ := operators_vetted (by decide +kernel) (by decide +kernel)
    (eq_ok_of_result hresult)
  refine ⟨out, query, hresult, hjson, fun key hkey => ?_, hkeys⟩
  have hmem := hused (List.mem_cons_of_mem _ hkey)
  rw [hjson] at hmem
  rcases List.mem_append.1 hmem with hmem | hmem
  · rcases List.mem_cons.1 hmem with rfl | hmem
    · exact absurd hkey (by decide)
    · exact hmem
  · cases hmem

end Conduit.Match
