import Conduit.Proofs.AccessComplete
import Conduit.Proofs.SoundCandidates

/-!
# Access through computed fields

An output field of a projection has the level of the stored nodes whose values it hands on, and a
later stage that reads the field needs that level.  Which nodes these are is read off the
expression: `Expression.carry` follows references, inclusions, expansions and the few operators
that return part of an argument.  All other operators compute a value without a level
(`elaborate_carries`, `fieldAt_found`, `Registered.access`, `computed_field_keeps_access`).
-/

namespace Conduit

open Journaled ProjectedNode

/-! ## What an expression hands on -/

namespace ProjectedNode

/-- The level that a produced field has of its own. -/
def level : ProjectedNode → AccessLevel
  | .mk _ _ _ access _ _ _ => access

/-- The value of a field is that of some stored nodes, and nothing else is known about it. -/
structure Carries (p : ProjectedNode) (ids : List NodeId) : Prop where
  sources : p.sources = ids.map .node
  level : p.level = .none
  untyped : ids ≠ [] → p.declaredType = none

variable {p : ProjectedNode} {ids : List NodeId}

lemma Carries.rename (h : p.Carries ids) (name : String) : (p.rename name).Carries ids := by
  obtain ⟨⟩ := p
  exact ⟨h.sources, h.level, h.untyped⟩

lemma Carries.withArray (h : p.Carries ids) (array : Option Bool) :
    (p.withArray array).Carries ids := by
  obtain ⟨⟩ := p
  exact ⟨h.sources, h.level, h.untyped⟩

lemma carries_typed (type : PropertyType) (array : Option Bool) :
    (((named "").typed type).withArray array).Carries [] := ⟨rfl, rfl, fun h => absurd rfl h⟩

lemma carries_named (ids : List NodeId) (array : Option Bool) :
    (((named "").withSources (ids.map .node)).withArray array).Carries ids :=
  ⟨rfl, rfl, fun _ => rfl⟩

lemma carries_document (properties : List ProjectedNode) (ids : List NodeId) (array : Option Bool) :
    ((((named "").withProperties properties).withSources (ids.map .node)).withArray array).Carries
      ids := ⟨rfl, rfl, fun _ => rfl⟩

end ProjectedNode

namespace Expression

lemma carries_unknown : unknownNode.Carries [] := ⟨rfl, rfl, fun h => absurd rfl h⟩

/-- What a value hands on: the stored nodes whose values it is, and those of its first argument
where it is a list of arguments. -/
structure Carry where
  whole : List NodeId := []
  first : List NodeId := []

namespace Carry

/-- A value that is its own first argument. -/
def single (ids : List NodeId) : Carry := ⟨ids, ids⟩

/-- What an operator hands on of its value: an element or a part of the first argument.  All other
operators compute something new. -/
def through (c : Carry) : Option ExprOp → List NodeId
  | some .arrayElemAt | some .slice => c.first
  | some .literal | some .array => c.whole
  | _ => []

end Carry

variable (ctx : Context)

/-- What an object hands on: what its operator does, or what has been at its path before. -/
def carryObject (site : Site) (keys : List String) (parts : List (List NodeId)) : List NodeId :=
  match keys, parts with
  | [key], [only] => if Path.isOperator key then only else readNodesOf ctx site.propertyPath
  | _, _ => readNodesOf ctx site.propertyPath

mutual

/-- The stored nodes whose values a value at a place hands on as they are. -/
def carry (site : Site) : Operand → Carry
  | .variable _ | .raw _ => {}
  | .simple _ =>
    .single (if site.isOperator ∨ ctx.kind = .group then [] else readNodesOf ctx site.propertyPath)
  | .property path => .single (readNodesOf ctx path)
  | .array elements => ⟨[], (carryItems site elements).headD []⟩
  | .expression cs => .single (carryObject ctx site (cs.map Prod.fst) (carryChildren site cs))

def carryItems (site : Site) : List Operand → List (List NodeId)
  | [] => []
  | v :: rest => (carry site v).whole :: carryItems site rest

/-- What each field or operator of an object hands on. -/
def carryChildren (site : Site) : Children → List (List NodeId)
  | [] => []
  | (key, v) :: rest =>
    (if key = ExprOp.expand.key then readNodesOf ctx (site.child key).propertyPath
      else if Path.isOperator key then (carry (site.child key) v).through (ExprOp.ofKey? key)
      else (carry (site.child key) v).whole) :: carryChildren site rest

end

end Expression

end Conduit

namespace Conduit.Expression

open Journaled ProjectedNode

variable {ctx : Context} {notes : List Event} {c : Carry} {site : Site} {path : String}
  {e e' : Elaborated}

lemma read_carries {inclusion : Bool} {r : Reading}
    (h : read ctx site path inclusion = ⟨.ok r, notes⟩) :
    r.node.Carries (readNodesOf ctx path) := by
  simp only [read] at h
  split at h
  · next hempty =>
    rw [readNodesOf, List.isEmpty_iff.1 hempty]
    split at h
    · cases h
    · cases h
      exact carries_unknown
  · simp only [bind_ok_iff] at h
    obtain ⟨_, _, _, -, h, -⟩ := h
    split at h
    · simp only [bind_ok_iff] at h
      obtain ⟨_, _, _, -, h, -⟩ := h
      cases h
      exact carries_named _ _
    · cases h
      exact carries_named _ _

/-- An elaborated value hands on what is carried. -/
structure Hands (e : Elaborated) (c : Carry) : Prop where
  whole : e.node.Carries c.whole
  first : (e.inputs.head?.getD unknownNode).Carries c.first
  /-- Without inputs, nothing is handed on. -/
  none : e.inputs = [] → c.whole = []

lemma Hands.of_single {ids : List NodeId} (h : e.node.Carries ids)
    (hinputs : e.inputs = [e.node]) : Hands e (.single ids) where
  whole := h
  first := by rwa [hinputs]
  none := by simp [hinputs]

lemma operatorOutput_carries {op : ExprOp} {inputs : List ProjectedNode} {whole p : ProjectedNode}
    (hwhole : whole.Carries c.whole) (hfirst : (inputs.head?.getD unknownNode).Carries c.first)
    (hnone : inputs = [] → c.whole = []) (h : operatorOutput ctx op path inputs whole = .ok p) :
    p.Carries (c.through (some op)) := by
  cases op
  all_goals simp only [operatorOutput, except_bind_ok_iff] at h
  case arrayElemAt | slice =>
    obtain ⟨_, -, h⟩ := h
    cases h
    exact hfirst.withArray _
  case literal =>
    cases h
    exact hwhole
  case array =>
    cases h
    split
    · next hempty =>
      rw [Carry.through, hnone (List.isEmpty_iff.1 hempty)]
      exact carries_unknown.withArray _
    · exact hwhole
  -- All other operators produce a node of a type, after up to two demands on their inputs.
  case sum | avg | stdDevPop | stdDevSamp | setEquals | setIsSubset | setIntersection | setUnion
      | setDifference | concatArrays | strcasecmp | add | subtract | substr | size | dateToString =>
    obtain ⟨_, -, h⟩ := h
    cases h
    exact carries_typed _ _
  case trunc | sqrt | ln | floor | exp | ceil | abs | multiply | divide | mod | pow | log | concat
      | toLower | toUpper | dayOfYear | dayOfMonth | dayOfWeek | year | month | week | hour
      | minute | second | millisecond =>
    obtain ⟨_, -, _, -, h⟩ := h
    cases h
    exact carries_typed _ _
  all_goals
    cases h
    exact carries_typed _ _

lemma applyOperator_carries (hkind : ctx.kind ≠ .group) (he : Hands e c)
    (h : applyOperator ctx site e = ⟨.ok e', notes⟩) :
    Hands e' (.single (c.through (ExprOp.ofKey? site.key))) := by
  have hacc : accumulatorAt? ctx site = none := by
    unfold accumulatorAt?
    split
    · simp [hkind]
    · rfl
  simp only [applyOperator, hacc] at h
  split at h
  · next hsome => cases hsome
  · next op _ hop =>
    simp only [of_eq, bind_ok_iff] at h
    obtain ⟨p, _, _, hp, h, -⟩ := h
    cases h
    injection hp with hp _
    rw [hop]
    exact .of_single (operatorOutput_carries he.whole he.first he.none hp) rfl
  · cases h

lemma elaborateExpand_carries {v : Operand} (h : elaborateExpand ctx site v = ⟨.ok e, notes⟩) :
    Hands e (.single (readNodesOf ctx site.propertyPath)) := by
  simp only [elaborateExpand] at h
  split at h
  · simp only [Journaled.throw_eq, Journaled.error_bind, Journaled.mk.injEq, reduceCtorEq,
      false_and] at h
  · simp only [bind_ok_iff] at h
    obtain ⟨r, _, _, hr, ⟨_, _, _, -, h, -⟩, -⟩ := h
    cases h
    exact .of_single (read_carries hr) rfl

lemma elaborateSimple_carries {v : Json} (h : elaborateSimple ctx site v = ⟨.ok e, notes⟩) :
    Hands e (carry ctx site (.simple v)) := by
  simp only [elaborateSimple] at h
  rw [carry]
  split at h
  · next hop =>
    cases h
    rw [if_pos hop]
    exact .of_single (carries_typed _ _) rfl
  · next hop =>
    simp only [bind_ok_iff] at h
    obtain ⟨r, _, _, hr, h, -⟩ := h
    cases h
    rw [if_neg hop]
    exact .of_single (read_carries hr) rfl

lemma elaborateObject_carries {keys : List String} {parts : List Elaborated}
    {carried : List (List NodeId)} (hkind : ctx.kind ≠ .group)
    (hparts : List.Forall₂ (fun (e : Elaborated) ids => Hands e (.single ids)) parts carried) :
    Hands (elaborateObject ctx site keys parts) (.single (carryObject ctx site keys carried)) := by
  have hdocument : ∀ built expansions,
      Hands (elaborateObject.document ctx site parts built expansions)
        (.single (readNodesOf ctx site.propertyPath)) := by
    intro built expansions
    simp only [elaborateObject.document, hkind, if_false]
    exact .of_single (carries_document _ _ _) rfl
  unfold elaborateObject
  split
  · next key only =>
    cases hparts with
    | cons honly hrest =>
      cases hrest
      simp only [carryObject]
      split
      · exact ⟨honly.whole, honly.first, honly.none⟩
      · exact hdocument _ _
  · next hnot =>
    unfold carryObject
    split
    · next key ids =>
      cases hparts with
      | cons _ hrest =>
        cases hrest
        exact absurd rfl (hnot _ _ rfl)
    · exact hdocument _ _

lemma nameField_carries (he : Hands e c) (h : nameField ctx site e = ⟨.ok e', notes⟩) :
    Hands e' (.single c.whole) := by
  simp only [nameField, bind_ok_iff] at h
  obtain ⟨_, _, _, -, h, -⟩ := h
  cases h
  exact .of_single (he.whole.rename _) rfl

mutual

/-- **An elaborated value hands on what it carries.** -/
lemma elaborate_carries (hkind : ctx.kind ≠ .group) : ∀ (v : Operand) (site : Site)
    (e : Elaborated) (notes : List Event), elaborate ctx site v = ⟨.ok e, notes⟩ →
      Hands e (carry ctx site v)
  | .variable _, site, e, notes, h => by
    cases h
    exact ⟨carries_unknown, carries_unknown, fun _ => rfl⟩
  | .raw _, site, e, notes, h => by
    cases h
    exact ⟨carries_unknown, carries_unknown, fun _ => rfl⟩
  | .simple v, site, e, notes, h => elaborateSimple_carries h
  | .property path, site, e, notes, h => by
    simp only [elaborate, bind_ok_iff] at h
    obtain ⟨r, _, _, hr, h, -⟩ := h
    cases h
    exact .of_single (read_carries hr) rfl
  | .array elements, site, e, notes, h => by
    simp only [elaborate, bind_ok_iff] at h
    obtain ⟨parts, _, _, hparts, h, -⟩ := h
    cases h
    have hitems := elaborateItems_carries hkind elements site parts _ hparts
    refine ⟨carries_typed _ _, ?_, fun _ => rfl⟩
    rw [carry]
    generalize carryItems ctx site elements = carried at hitems
    cases hitems with
    | nil => exact carries_unknown
    | cons hfirst _ => exact hfirst
  | .expression cs, site, e, notes, h => by
    simp only [elaborate, bind_ok_iff] at h
    obtain ⟨parts, _, _, hparts, h, -⟩ := h
    cases h
    exact elaborateObject_carries hkind (elaborateChildren_carries hkind cs site parts _ hparts)

lemma elaborateItems_carries (hkind : ctx.kind ≠ .group) : ∀ (vs : List Operand) (site : Site)
    (parts : List Elaborated) (notes : List Event),
    elaborateItems ctx site vs = ⟨.ok parts, notes⟩ →
      List.Forall₂ (fun (e : Elaborated) ids => e.node.Carries ids) parts (carryItems ctx site vs)
  | [], site, parts, notes, h => by
    cases h
    exact .nil
  | v :: rest, site, parts, notes, h => by
    simp only [elaborateItems, bind_ok_iff] at h
    obtain ⟨first, m, _, hfirst, ⟨more, m', _, hrest, h, -⟩, -⟩ := h
    cases h
    exact .cons (elaborate_carries hkind v site first m hfirst).whole
      (elaborateItems_carries hkind rest site more m' hrest)

lemma elaborateChildren_carries (hkind : ctx.kind ≠ .group) :
    ∀ (cs : Children) (site : Site) (parts : List Elaborated) (notes : List Event),
    elaborateChildren ctx site cs = ⟨.ok parts, notes⟩ →
      List.Forall₂ (fun (e : Elaborated) ids => Hands e (.single ids)) parts
        (carryChildren ctx site cs)
  | [], site, parts, notes, h => by
    cases h
    exact .nil
  | (key, v) :: rest, site, parts, notes, h => by
    simp only [elaborateChildren_cons, bind_ok_iff] at h
    obtain ⟨first, m, _, hfirst, ⟨more, m', _, hrest, h, -⟩, -⟩ := h
    cases h
    refine .cons ?_ (elaborateChildren_carries hkind rest site more m' hrest)
    rcases elaborateChild_cases hfirst with ⟨hkey, hexpand⟩ | ⟨hkey, e, _, he, -, hcases⟩
    · rw [if_pos hkey]
      exact elaborateExpand_carries hexpand
    · have he := elaborate_carries hkind v _ e _ he
      rw [if_neg hkey]
      rcases hcases with ⟨hop, _, happly⟩ | ⟨hop, _, hname⟩
      · rw [if_pos hop]
        exact applyOperator_carries hkind he happly
      · rw [if_neg (by simp [hop])]
        exact nameField_carries he hname

end

end Conduit.Expression

/-! ## Output fields -/

namespace Conduit.Expression

open Journaled ProjectedNode List

variable {ctx : Context} {notes : List Event}

/-- The output field at a path of names, with its place: the way leads through objects of fields,
each of which gives the name once. -/
def fieldAt (site : Site) : List String → Children → Option (Site × Operand)
  | [], _ => none
  | name :: rest, cs =>
    if cs.any fun c => Path.isOperator c.1 then none
    else match cs.filter fun c => c.1 == name with
      | [(_, v)] =>
        match rest, v with
        | [], v => some (site.child name, v)
        | rest, .expression inner => fieldAt (site.child name) rest inner
        | _, _ => none
      | _ => none

variable {site : Site} {cs : Children}

lemma fieldAt_eq_some {names : List String} {r : Site × Operand}
    (h : fieldAt site names cs = some r) :
    (∀ f ∈ cs, Path.isOperator f.1 = false) ∧ ∃ name rest v, names = name :: rest ∧
      (name, v) ∈ cs ∧ (∀ f ∈ cs, f.1 = name → f.2 = v) ∧ (rest = [] ∧ r = (site.child name, v) ∨
        ∃ inner, v = .expression inner ∧ fieldAt (site.child name) rest inner = some r) := by
  unfold fieldAt at h
  split at h
  · cases h
  · next name rest =>
    split at h
    · cases h
    · next hops =>
      split at h
      · next key v hfilter =>
        have hmem : ∀ f, f ∈ cs ∧ f.1 = name ↔ f = (key, v) := by
          intro f
          rw [← mem_singleton (b := (key, v)), ← hfilter, mem_filter, beq_iff_eq]
        obtain ⟨hv, rfl⟩ := (hmem _).2 rfl
        refine ⟨by simpa using hops, _, rest, v, rfl, hv, fun f hf hkey => ?_, ?_⟩
        · rw [(hmem f).1 ⟨hf, hkey⟩]
        · split at h
          · cases h
            exact .inl ⟨rfl, rfl⟩
          · exact .inr ⟨_, rfl, h⟩
          · cases h
      · cases h

/-- A part is the elaborated value of a field, under its name. -/
def IsPartOf (ctx : Context) (site : Site) (part : Elaborated) (f : String × Operand) : Prop :=
  ∃ e notes, elaborate ctx (site.child f.1) f.2 = ⟨.ok e, notes⟩ ∧ part.node = e.node.rename f.1

lemma elaborateChild_field {key : String} {v : Operand} {part : Elaborated}
    (hkey : Path.isOperator key = false) (h : elaborateChild ctx site key v = ⟨.ok part, notes⟩) :
    IsPartOf ctx site part (key, v) := by
  rcases elaborateChild_cases h with ⟨rfl, -⟩ | ⟨-, e, _, he, -, hcases⟩
  · exact absurd hkey (by decide +kernel)
  · rcases hcases with ⟨hop, -⟩ | ⟨-, _, hname⟩
    · rw [hkey] at hop
      cases hop
    · simp only [nameField, bind_ok_iff] at hname
      obtain ⟨_, _, _, -, hname, -⟩ := hname
      cases hname
      exact ⟨e, _, he, rfl⟩

end Conduit.Expression

/-! ## Registered fields -/

namespace Conduit.Catalog

open Journaled ProjectedNode List

/-- The nodes of `c` are still there, and mean the same, in `c'`. -/
structure Extends (c c' : Catalog) : Prop where
  size : c.nodes.size ≤ c'.nodes.size
  node : ∀ id, id < c.nodes.size → c'.node id = c.node id

variable {c c' c'' c₀ : Catalog} {segment : String} {x id low low' : NodeId}

lemma Extends.refl (c : Catalog) : Extends c c := ⟨Nat.le_refl _, fun _ _ => rfl⟩

lemma Extends.trans (h : Extends c c') (h' : Extends c' c'') : Extends c c'' :=
  ⟨Nat.le_trans h.size h'.size, fun id hid =>
    (h'.node id (Nat.lt_of_lt_of_le hid h.size)).trans (h.node id hid)⟩

@[simp] lemma size_push (n : Node) : (c.push n).nodes.size = c.nodes.size + 1 := by
  simp [push]

@[simp] lemma size_adopt (id : NodeId) (children : List NodeId) :
    (c.adopt id children).nodes.size = c.nodes.size := by
  simp [adopt]

lemma node_eq (id : NodeId) : c.node id = c.nodes[id]?.getD default :=
  Array.getD_eq_getD_getElem? ..

lemma node_push_self (n : Node) : (c.push n).node c.nodes.size = n := by
  simp [node_eq, push]

lemma node_push_of_lt (n : Node) (h : id < c.nodes.size) : (c.push n).node id = c.node id := by
  rw [node_eq, node_eq, push, Array.getElem?_push_lt h, Array.getElem?_eq_getElem h]

lemma node_adopt_of_ne {other : NodeId} (children : List NodeId) (h : other ≠ id) :
    (c.adopt id children).node other = c.node other := by
  rw [node_eq, node_eq, adopt, Array.getElem?_modify, if_neg h.symm]

lemma node_adopt_self (children : List NodeId) (h : id < c.nodes.size) :
    (c.adopt id children).node id = { c.node id with children } := by
  rw [node_eq, node_eq, adopt, Array.getElem?_modify, if_pos rfl, Array.getElem?_eq_getElem h]
  rfl

lemma extends_push (n : Node) : Extends c (c.push n) :=
  ⟨by simp, fun _ hid => node_push_of_lt n hid⟩

mutual

/-- The node at `id` and the nodes below it are those of a produced field, registered in a catalog
that extends `c₀`.  All of them stand at `low` or after it. -/
def Registered (c₀ c : Catalog) (low id : NodeId) : ProjectedNode → Prop
  | .mk name type array access sources properties document =>
    low ≤ id ∧ id < c.nodes.size ∧ ∃ c₁ model parent path qualifiedPath children, Extends c₀ c₁ ∧
      c.node id = { c₁.projectedNode model parent path qualifiedPath
        (.mk name type array access sources [] document) with children } ∧
      RegisteredAll c₀ c low children properties

def RegisteredAll (c₀ c : Catalog) (low : NodeId) (ids : List NodeId) : List ProjectedNode → Prop
  | [] => ids = []
  | p :: rest => ∃ id more, ids = id :: more ∧ Registered c₀ c low id p ∧
    RegisteredAll c₀ c low more rest

end

mutual

lemma Registered.change (hlow : low' ≤ low) (hsize : c.nodes.size ≤ c'.nodes.size)
    (hnode : ∀ id, low ≤ id → id < c.nodes.size → c'.node id = c.node id) :
    ∀ (p : ProjectedNode) (id : NodeId), Registered c₀ c low id p → Registered c₀ c' low' id p
  | .mk name type array access sources properties document, id, h => by
    obtain ⟨hid, hlt, c₁, model, parent, path, qualifiedPath, children, hext, hn, hall⟩ := h
    refine ⟨Nat.le_trans hlow hid, Nat.lt_of_lt_of_le hlt hsize, c₁, model, parent, path,
      qualifiedPath, children, hext, ?_,
      RegisteredAll.change hlow hsize hnode properties children hall⟩
    rw [hnode id hid hlt, hn]

lemma RegisteredAll.change (hlow : low' ≤ low) (hsize : c.nodes.size ≤ c'.nodes.size)
    (hnode : ∀ id, low ≤ id → id < c.nodes.size → c'.node id = c.node id) :
    ∀ (ps : List ProjectedNode) (ids : List NodeId), RegisteredAll c₀ c low ids ps →
      RegisteredAll c₀ c' low' ids ps
  | [], ids, h => h
  | p :: rest, ids, h => by
    obtain ⟨id, more, rfl, hp, hrest⟩ := h
    exact ⟨id, more, rfl, Registered.change hlow hsize hnode p id hp,
      RegisteredAll.change hlow hsize hnode rest more hrest⟩

end

mutual

lemma pushProjected_registered : ∀ (p : ProjectedNode) (c : Catalog)
    (model parent : Nat) (path qualifiedPath : String), Extends c₀ c →
    let pushed := pushProjected model parent path qualifiedPath p c
    Extends c pushed.2 ∧ pushed.2.models = c.models ∧ Registered c₀ pushed.2 c.nodes.size pushed.1 p
  | .mk name type array access sources properties document, c, model, parent, path, qualifiedPath,
    hext => by
    simp only [pushProjected]
    generalize hn : c.projectedNode model parent path qualifiedPath
      (.mk name type array access sources [] document) = n
    have hid : n.id = c.nodes.size := by rw [← hn]; rfl
    rw [hid]
    obtain ⟨hpushed, hmodels, hall⟩ := pushAllProjected_registered properties (c.push n) model
      c.nodes.size n.path n.qualifiedPath (hext.trans (extends_push n))
    generalize pushAllProjected model c.nodes.size n.path n.qualifiedPath properties (c.push n) =
      pushed at hpushed hmodels hall
    have hsize := hpushed.size
    rw [size_push] at hsize hall
    have hsame : ∀ id : Nat, id ≠ c.nodes.size →
        (pushed.2.adopt c.nodes.size pushed.1).node id = pushed.2.node id :=
      fun id hne => node_adopt_of_ne _ hne
    refine ⟨⟨?_, fun id hlt => ?_⟩, hmodels, Nat.le_refl _, ?_, c, model, parent, path,
      qualifiedPath, pushed.1, hext, ?_, ?_⟩
    · rw [size_adopt]
      exact Nat.le_of_succ_le hsize
    · rw [hsame id (Nat.ne_of_lt hlt),
        hpushed.node id (by rw [size_push]; exact Nat.lt_succ_of_lt hlt), node_push_of_lt n hlt]
    · rw [size_adopt]
      exact hsize
    · rw [node_adopt_self _ hsize, hn, hpushed.node _ (by rw [size_push]; exact Nat.lt_succ_self _),
        node_push_self]
    · exact RegisteredAll.change (Nat.le_succ _) (Nat.le_of_eq (size_adopt ..).symm)
        (fun id hlow _ => hsame id (Nat.ne_of_gt hlow)) properties _ hall

lemma pushAllProjected_registered : ∀ (ps : List ProjectedNode) (c : Catalog)
    (model parent : Nat) (path qualifiedPath : String), Extends c₀ c →
    let pushed := pushAllProjected model parent path qualifiedPath ps c
    Extends c pushed.2 ∧ pushed.2.models = c.models ∧
      RegisteredAll c₀ pushed.2 c.nodes.size pushed.1 ps
  | [], c, _, _, _, _, _ => ⟨.refl c, rfl, rfl⟩
  | p :: rest, c, model, parent, path, qualifiedPath, hext => by
    simp only [pushAllProjected]
    obtain ⟨hfirst, hmodels, hp⟩ :=
      pushProjected_registered p c model parent path qualifiedPath hext
    generalize pushProjected model parent path qualifiedPath p c = pushed at hfirst hmodels hp
    obtain ⟨hrest, hmodels', hall⟩ :=
      pushAllProjected_registered rest pushed.2 model parent path qualifiedPath (hext.trans hfirst)
    generalize pushAllProjected model parent path qualifiedPath rest pushed.2 = more
      at hrest hmodels' hall
    refine ⟨hfirst.trans hrest, hmodels'.trans hmodels, pushed.1, more.1, rfl, ?_, ?_⟩
    · exact Registered.change (Nat.le_refl _) hrest.size (fun id _ hlt => hrest.node id hlt) p _ hp
    · exact RegisteredAll.change hfirst.size (Nat.le_refl _) (fun _ _ _ => rfl) rest _ hall

end

lemma addProjected_registered (c : Catalog) (object : String) (type : Option String)
    (ps : List ProjectedNode) (base : List ModelId) :
    let added := c.addProjected object type ps base
    let root := added.2.node (added.2.model added.1).root
    root.type = .document ∧ RegisteredAll c added.2 (c.nodes.size + 1) root.children ps := by
  simp only [addProjected]
  generalize object ++ "$" ++ toString c.models.size = q
  generalize hroot : (Node.mk ..) = root
  have htype : root.type = .document := by rw [← hroot]
  obtain ⟨hext, hmodels, hall⟩ := pushAllProjected_registered ps (c.push root) c.models.size
    c.nodes.size "" q (extends_push root)
  generalize pushAllProjected c.models.size c.nodes.size "" q ps (c.push root) = pushed
    at hext hmodels hall
  have hsize := hext.size
  rw [size_push] at hsize hall
  have hnode : (pushed.2.adopt c.nodes.size pushed.1).node c.nodes.size =
      { root with children := pushed.1 } := by
    rw [node_adopt_self _ hsize, hext.node _ (by rw [size_push]; exact Nat.lt_succ_self _),
      node_push_self]
  have hmodel : ∀ m : Model, ((pushed.2.models.push m).getD c.models.size default) = m := by
    intro m
    rw [hmodels]
    simp [push, Array.getD_eq_getD_getElem?]
  simp only [model, adopt, hmodel]
  constructor
  · exact (congrArg Node.type hnode).trans htype
  · refine (congrArg (fun ids => RegisteredAll c _ _ ids ps) (congrArg Node.children hnode)).mpr ?_
    exact RegisteredAll.change (Nat.le_refl _) (Nat.le_of_eq Array.size_modify.symm)
      (fun id hlow _ => by exact node_adopt_of_ne pushed.1 (Nat.ne_of_gt hlow)) ps _ hall

/-! ## Finding registered fields -/

lemma mem_foldl_named (ids next : List NodeId) : x ∈ ids.foldl (fun next child =>
        if (c.node child).name == segment && !next.contains child then next ++ [child] else next)
      next ↔ x ∈ next ∨ x ∈ ids ∧ (c.node x).name = segment := by
  induction ids generalizing next with
  | nil => simp
  | cons id rest ih =>
    by_cases hname : (c.node id).name = segment
    · by_cases hmem : id ∈ next
      · grind
      · grind
    · grind

lemma mem_step {current : List NodeId} : x ∈ c.step segment current ↔ ∃ id ∈ current,
      if !c.isRoot id && (c.node id).type == .any then x = id
      else x ∈ c.pathChildren id ∧ (c.node x).name = segment := by
  have hfold : ∀ next, x ∈ current.foldl (c.stepFrom segment) next ↔ x ∈ next ∨ ∃ id ∈ current,
      if !c.isRoot id && (c.node id).type == .any then x = id
      else x ∈ c.pathChildren id ∧ (c.node x).name = segment := by
    induction current with
    | nil => simp
    | cons id rest ih =>
      intro next
      rw [foldl_cons, ih, stepFrom]
      simp only [mem_cons, exists_eq_or_imp]
      split
      · simp only [mem_append, mem_singleton, or_assoc]
      · rw [mem_foldl_named, or_assoc]
  rw [step, hfold]
  simp

variable {c₀ : Catalog} {low id n : NodeId} {p : ProjectedNode} {ids : List NodeId}

lemma Registered.node (h : Registered c₀ c low id p) :
    (c.node id).name = p.name ∧ (c.node id).acl = none ∧ id ∈ c.lineage id := by
  obtain ⟨⟩ := p
  obtain ⟨-, -, c₁, _, parent, _, _, _, -, hn, -⟩ := h
  rw [lineage, hn]
  exact ⟨rfl, rfl, mem_cons_self ..⟩

lemma le_accessOf (c : Catalog) (ids : List NodeId) (level : AccessLevel) :
    level ≤ accessOf c (ids.map .node) level ∧
      ∀ n ∈ ids, (c.node n).readAccess ≤ accessOf c (ids.map .node) level := by
  induction ids generalizing level with
  | nil => exact ⟨AccessLevel.le_refl _, nofun⟩
  | cons id rest ih =>
    obtain ⟨hlevel, hrest⟩ := ih (level.max (c.node id).readAccess)
    rw [map_cons, accessOf]
    refine ⟨AccessLevel.le_trans (AccessLevel.le_max_left _ _) hlevel, fun n hn => ?_⟩
    rcases mem_cons.1 hn with rfl | hn
    · exact AccessLevel.le_trans (AccessLevel.le_max_right _ _) hlevel
    · exact hrest n hn

lemma accessOf_congr (level : AccessLevel) (h : ∀ n ∈ ids, c'.node n = c.node n) :
    accessOf c' (ids.map .node) level = accessOf c (ids.map .node) level := by
  induction ids generalizing level with
  | nil => rfl
  | cons id rest ih =>
    rw [map_cons, accessOf, accessOf, h id (mem_cons_self ..)]
    exact ih _ fun n hn => h n (mem_cons_of_mem _ hn)

/-- **A registered field has just the level of the nodes it carries.** -/
lemma Registered.access (h : Registered c₀ c low id p) (hp : p.Carries ids)
    (hlt : ∀ n ∈ ids, n < c₀.nodes.size) :
    (c.node id).readAccess = accessOf c₀ (ids.map .node) .none := by
  obtain ⟨name, type, array, access, sources, properties, document⟩ := p
  obtain ⟨-, -, c₁, _, _, _, _, _, hext, hnode, -⟩ := h
  have hsources : sources = ids.map .node := hp.sources
  have hlevel : access = .none := hp.level
  rw [hnode, ← accessOf_congr .none fun n hn => hext.node n (hlt n hn), ← hsources, ← hlevel]
  rfl

lemma sourceTypes_nodes (c : Catalog) (ids : List NodeId) :
    sourceTypes c (ids.map .node) = ids.map fun id => (c.node id).type := by
  induction ids with
  | nil => rfl
  | cons id rest ih => rw [map_cons, sourceTypes, ih, map_cons]

lemma agreedType_ne_list {ts : List PropertyType} {t : PropertyType} (ht : t ∈ ts)
    (hne : t ≠ .list) : (ProjectedNode.agreedType ts).getD .unknown ≠ .list := by
  unfold ProjectedNode.agreedType
  split
  · cases ht
  · cases mem_singleton.1 ht
    exact hne
  · next first rest _ =>
    split
    · next hall =>
      rcases mem_cons.1 ht with rfl | ht
      · exact hne
      · have hsame : t = first := by simpa using all_eq_true.1 hall.2.2 t ht
        rw [← hsame]
        exact hne
    · exact nofun

/-- A field that carries something other than a list is no list. -/
lemma Registered.type_ne_list (h : Registered c₀ c low id p) (hp : p.Carries ids) (hn : n ∈ ids)
    (hlt : n < c₀.nodes.size) (hne : (c₀.node n).type ≠ .list) : (c.node id).type ≠ .list := by
  obtain ⟨name, type, array, access, sources, properties, document⟩ := p
  obtain ⟨-, -, c₁, _, _, _, _, _, hext, hnode, -⟩ := h
  have hsources : sources = ids.map .node := hp.sources
  have htype : type = none := hp.untyped (ne_nil_of_mem hn)
  rw [hnode]
  show ProjectedNode.type c₁ (.mk name type array access sources [] document) ≠ .list
  rw [htype, hsources, ProjectedNode.type]
  cases document with
  | true =>
    intro h
    cases h
  | false =>
    rw [sourceTypes_nodes]
    refine agreedType_ne_list (mem_map.2 ⟨n, hn, rfl⟩) ?_
    rwa [hext.node n hlt]

end Conduit.Catalog

/-! ## Reading a computed field -/

namespace Conduit.Expression

open Journaled ProjectedNode List

variable {ctx : Context} {c : Catalog}

lemma elaborateObject_fields (hkind : ctx.kind ≠ .group) (site : Site) {keys : List String}
    (parts : List Elaborated) (hkeys : ∀ key ∈ keys, Path.isOperator key = false) :
    ∃ array, (elaborateObject ctx site keys parts).node =
      .mk "" none array .none ((readNodesOf ctx site.propertyPath).map .node)
        (parts.map Elaborated.node) true := by
  have hdocument : ∀ built expansions,
      (elaborateObject.document ctx site parts built expansions).node =
        .mk "" none (ctx.candidateNodes site.propertyPath).2 .none
          ((readNodesOf ctx site.propertyPath).map .node) (parts.map Elaborated.node) true := by
    intro built expansions
    simp only [elaborateObject.document, hkind, if_false]
    rfl
  refine ⟨(ctx.candidateNodes site.propertyPath).2, ?_⟩
  unfold elaborateObject
  split
  · next key only =>
    rw [if_neg (by simp [hkeys key (mem_singleton.2 rfl)])]
    exact hdocument _ _
  · exact hdocument _ _

/-- The children of a node are the elaborated fields of an object. -/
structure HoldsFields (ctx : Context) (c : Catalog) (site : Site) (cs : Children)
    (id : NodeId) : Prop where
  type : (c.node id).type = .document
  fields : ∃ parts notes low, elaborateChildren ctx site cs = ⟨.ok parts, notes⟩ ∧
    Catalog.RegisteredAll ctx.catalog c low (c.node id).children (parts.map Elaborated.node)

/-- A node is the elaborated value of a field, under some name. -/
def IsField (ctx : Context) (c : Catalog) (site : Site) (v : Operand) (id : NodeId) : Prop :=
  ∃ e notes low name, elaborate ctx site v = ⟨.ok e, notes⟩ ∧
    Catalog.Registered ctx.catalog c low id (e.node.rename name)

variable {site place : Site} {cs : Children} {v : Operand} {id : NodeId} {current : List NodeId}
  {name : String}

lemma IsField.holdsFields (hkind : ctx.kind ≠ .group)
    (hops : ∀ f ∈ cs, Path.isOperator f.1 = false) (h : IsField ctx c site (.expression cs) id) :
    HoldsFields ctx c site cs id := by
  obtain ⟨e, notes, low, name, he, hreg⟩ := h
  simp only [elaborate, bind_ok_iff] at he
  obtain ⟨parts, m, _, hparts, he, -⟩ := he
  injection he with he _
  injection he with he
  have hkeys : ∀ key ∈ cs.map Prod.fst, Path.isOperator key = false := by
    intro key hkey
    obtain ⟨f, hf, rfl⟩ := mem_map.1 hkey
    exact hops f hf
  obtain ⟨array, hnode⟩ := elaborateObject_fields hkind site parts hkeys
  rw [he] at hnode
  rw [hnode] at hreg
  obtain ⟨-, -, c₁, _, _, _, _, children, -, hn, hall⟩ := hreg
  refine ⟨by rw [hn]; rfl, parts, m, low, hparts, ?_⟩
  rw [hn]
  exact hall

lemma name_rename (p : ProjectedNode) (name : String) : (p.rename name).name = name := by
  obtain ⟨⟩ := p
  rfl

/-- The children of a node that holds fields are these fields, one by one. -/
lemma HoldsFields.children (hops : ∀ f ∈ cs, Path.isOperator f.1 = false)
    (h : HoldsFields ctx c site cs id) : Forall₂ (fun f child =>
      IsField ctx c (site.child f.1) f.2 child ∧ (c.node child).name = f.1) cs
        (c.node id).children := by
  obtain ⟨-, parts, notes, low, hparts, hall⟩ := h
  generalize (c.node id).children = ids at hall
  induction cs generalizing parts notes ids with
  | nil =>
    cases hparts
    cases hall
    exact .nil
  | cons f rest ih =>
    obtain ⟨key, v⟩ := f
    rw [forall_mem_cons] at hops
    simp only [elaborateChildren_cons, bind_ok_iff] at hparts
    obtain ⟨first, _, _, hfirst, ⟨more, m, _, hrest, h, -⟩, -⟩ := hparts
    cases h
    obtain ⟨child, ids, rfl, hreg, hall⟩ := hall
    obtain ⟨e, m', he, hnode⟩ := elaborateChild_field hops.1 hfirst
    rw [hnode] at hreg
    refine .cons ⟨⟨e, m', low, key, he, hreg⟩, ?_⟩ (ih hops.2 more m hrest ids hall)
    rw [hreg.node.1, name_rename]

/-- Below an object of fields, a step leads to its children of that name. -/
lemma HoldsFields.mem_step (hcurrent : ∀ id ∈ current, HoldsFields ctx c site cs id) :
    id ∈ c.step name current ↔
      ∃ parent ∈ current, id ∈ (c.node parent).children ∧ (c.node id).name = name := by
  rw [Catalog.mem_step]
  constructor
  iterate 2
    · rintro ⟨parent, hparent, hid⟩
      refine ⟨parent, hparent, ?_⟩
      simpa [Catalog.pathChildren, (hcurrent parent hparent).type] using hid

/-- One step along a path leads from an object of fields to the only field of that name. -/
lemma isField_of_mem_step (hops : ∀ f ∈ cs, Path.isOperator f.1 = false)
    (hcurrent : ∀ id ∈ current, HoldsFields ctx c site cs id)
    (honly : ∀ f ∈ cs, f.1 = name → f.2 = v) (hid : id ∈ c.step name current) :
    IsField ctx c (site.child name) v id := by
  obtain ⟨parent, hparent, hchild, hname⟩ := (HoldsFields.mem_step hcurrent).1 hid
  obtain ⟨f, hf, hfield, hkey⟩ := exists_mem_left ((hcurrent parent hparent).children hops) hchild
  rw [hname] at hkey
  rwa [honly f hf hkey.symm, ← hkey] at hfield

lemma step_field_ne_nil (hops : ∀ f ∈ cs, Path.isOperator f.1 = false)
    (hcurrent : ∀ id ∈ current, HoldsFields ctx c site cs id) (hne : current ≠ [])
    (hfield : (name, v) ∈ cs) : c.step name current ≠ [] := by
  obtain ⟨parent, hparent⟩ := exists_mem_of_ne_nil _ hne
  obtain ⟨id, hid, -, hname⟩ :=
    exists_mem_left ((hcurrent parent hparent).children hops).flip hfield
  exact ne_nil_of_mem ((HoldsFields.mem_step hcurrent).2 ⟨parent, hparent, hid, hname⟩)

/-- **A path of names leads to its output field**, and to nothing else. -/
lemma fieldAt_found (hkind : ctx.kind ≠ .group) :
    ∀ (names : List String) (site : Site) (cs : Children) (current : List NodeId),
    current ≠ [] → (∀ id ∈ current, HoldsFields ctx c site cs id) →
    fieldAt site names cs = some (place, v) →
    (names.foldl (fun current segment => c.step segment current) current ≠ [] ∧
      ∀ id ∈ names.foldl (fun current segment => c.step segment current) current,
        IsField ctx c place v id)
  | names, site, cs, current, hne, hcurrent, h => by
    obtain ⟨hops, name, rest, w, rfl, hmem, honly, hlast⟩ := fieldAt_eq_some h
    have hsome := step_field_ne_nil hops hcurrent hne hmem
    have hstep : ∀ id ∈ c.step name current, IsField ctx c (site.child name) w id :=
      fun id hid => isField_of_mem_step hops hcurrent honly hid
    rcases hlast with ⟨rfl, hr⟩ | ⟨inner, rfl, hinner⟩
    · cases hr
      exact ⟨hsome, hstep⟩
    · have hinnerOps := (fieldAt_eq_some hinner).1
      exact fieldAt_found hkind rest _ inner _ hsome
        (fun id hid => (hstep id hid).holdsFields hkind hinnerOps) hinner

/-- In a model whose root holds the fields, the path of a field means just that field. -/
lemma findNodes_field (hkind : ctx.kind ≠ .group) {m : ModelId} {path : String}
    (hroot : HoldsFields ctx c site cs (c.model m).root)
    (hfield : fieldAt site (Path.segments path) cs = some (place, v)) :
    ∀ id ∈ c.findNodes m path, IsField ctx c place v id := by
  obtain ⟨hne, hall⟩ := fieldAt_found hkind _ site cs [(c.model m).root] (cons_ne_nil _ _)
    (fun id hid => mem_singleton.1 hid ▸ hroot) hfield
  have hown : (c.ownNodes m path).isEmpty = false := by simpa [Catalog.ownNodes] using hne
  rw [Catalog.findNodes]
  simp only [hown, Bool.false_eq_true, if_false]
  exact hall

/-- **The root of a registered shape holds the fields it was made of.** -/
lemma addProjected_holdsFields {parts : List Elaborated} {notes : List Event}
    (hparts : elaborateChildren ctx site cs = ⟨.ok parts, notes⟩) (object : String)
    (type : Option String) (base : List ModelId) :
    let added := ctx.catalog.addProjected object type (parts.map Elaborated.node) base
    HoldsFields ctx added.2 site cs (added.2.model added.1).root := by
  obtain ⟨htype, hall⟩ :=
    Catalog.addProjected_registered ctx.catalog object type (parts.map Elaborated.node) base
  exact ⟨htype, parts, notes, _, hparts, hall⟩

end Conduit.Expression

/-! ## Stages and pipelines -/

namespace Conduit

open Journaled ProjectedNode

variable {ctx : Context} {notes : List Event} {value : Json} {output : StageOutput}

/-- What a projection stage registers: the elaborated output fields. -/
lemma compileStage_projection (hkind : ctx.kind = .project ∨ ctx.kind = .addFields)
    (h : compileStage ctx value = ⟨.ok output, notes⟩) :
    ∃ v parts m, Project.parse ctx value = .ok v ∧
      Expression.elaborateChildren ctx (Site.root ctx.kind.key) v.children = ⟨.ok parts, m⟩ ∧
      ∃ extendsInput,
        output.projection = some ⟨parts.map Expression.Elaborated.node, extendsInput⟩ := by
  simp only [compileStage, bind_ok_iff] at h
  obtain ⟨_, _, n, -, h, -⟩ := h
  replace h : Project.compile ctx value = ⟨.ok output, n⟩ := by
    rcases hkind with hkind | hkind <;> rwa [hkind] at h
  simp only [Project.compile, Expression.elaborateStage, of_eq, bind_ok_iff] at h
  obtain ⟨v, _, _, hparse, ⟨o, _, _, ⟨parts, m, _, hparts, ho, -⟩, h, -⟩, -⟩ := h
  injection hparse with hparse _
  cases ho
  refine ⟨v, parts, m, hparse, hparts, ?_⟩
  split at h
  · cases h
    exact ⟨_, rfl⟩
  · simp only [bind_ok_iff] at h
    obtain ⟨_, _, _, -, h, -⟩ := h
    cases h
    exact ⟨_, rfl⟩

namespace Pipeline

/-- **Computed fields keep the access of what they hand on.**  When a match, sort or group reads
an output field of an earlier projection, with no projection in between, the field has just the
level of the nodes whose values it is, and the pipeline needs the level of each of them. -/
theorem computed_field_keeps_access {s : Setting} {v : Json} {p : CompiledPipeline}
    (h : (compile s v).result = .ok p) {front middle back : List (Context × Json)}
    {ctx₁ ctx₂ : Context} {value₁ value₂ : Json}
    (hreached : reached s v = front ++ (ctx₁, value₁) :: (middle ++ (ctx₂, value₂) :: back))
    (hproject : ctx₁.kind = .project ∨ ctx₁.kind = .addFields)
    (hmiddle : ∀ r ∈ middle, r.1.kind.isProjection = false)
    (hlater : ctx₂.kind ∈ [.match, .sort, .group]) (hacl : ctx₂.skipAcl = false)
    {o : Operand} (hparse : Project.parse ctx₁ value₁ = .ok o) {names : List String} {place : Site}
    {e : Operand}
    (hfield : Expression.fieldAt (Site.root ctx₁.kind.key) names o.children = some (place, e))
    (hnodes : ∀ n ∈ (Expression.carry ctx₁ place e).whole, n < ctx₁.catalog.nodes.size)
    {read : PathRead} (hread : read ∈ stageReads ctx₂ value₂)
    (hpath : Path.segments read.path = names) (hopen : read.isOpen = false)
    (hsome : read.nodes ≠ []) : (∀ id ∈ read.nodes, (ctx₂.catalog.node id).readAccess =
      accessOf ctx₁.catalog ((Expression.carry ctx₁ place e).whole.map .node) .none) ∧
    ∀ n ∈ (Expression.carry ctx₁ place e).whole, (ctx₁.catalog.node n).type ≠ .list →
      (ctx₁.catalog.node n).readAccess ≤ p.requiredAccess := by
  obtain ⟨stages, start, outputs, notes, -, -, hfrom, hrun, rfl⟩ := compile_ok h
  have hkind : ctx₁.kind ≠ .group := by
    rcases hproject with hk | hk <;> rw [hk] <;> exact nofun
  have hclears := compileFrom_clears hrun (ctx₂, value₂) (by rw [← hfrom, hreached]; simp) hacl
    read hread hopen
  -- The projection registers its fields as the only model.
  obtain ⟨output, projection, type, base, houtput, hprojection, hcatalog, hmodels, hsound⟩ :=
    reached_after_projection hreached (by rcases hproject with hk | hk <;> rw [hk] <;> rfl) hmiddle
  obtain ⟨v', parts, m, hparse', hparts, extendsInput, hprojection'⟩ :=
    compileStage_projection hproject (eq_ok_of_result houtput)
  cases hparse.symm.trans hparse'
  cases hprojection.symm.trans hprojection'
  -- What the later stage reads is addressed by its path in that model.
  have hroot := Expression.addProjected_holdsFields hparts s.options.object type base
  have hisField : ∀ id ∈ read.nodes, Expression.IsField ctx₁ ctx₂.catalog place e id := by
    intro id hid
    rw [← hcatalog] at hsound
    obtain ⟨model, hmodel, hfound⟩ :=
      stageReads_mean hsound (Catalog.meets_foundIn hmodels) read hread id hid
    cases List.mem_singleton.1 hmodel
    rw [← hpath] at hfield
    rw [hcatalog] at hfound ⊢
    exact Expression.findNodes_field hkind hroot hfield id hfound
  have haccess : ∀ id ∈ read.nodes, (ctx₂.catalog.node id).readAccess = accessOf
      ctx₁.catalog ((Expression.carry ctx₁ place e).whole.map .node) .none := by
    intro id hid
    obtain ⟨elaborated, _, low, name, he, hreg⟩ := hisField id hid
    exact hreg.access ((Expression.elaborate_carries hkind e place _ _ he).whole.rename name) hnodes
  refine ⟨haccess, fun n hn htype => ?_⟩
  obtain ⟨id, hid⟩ := List.exists_mem_of_ne_nil _ hsome
  obtain ⟨elaborated, _, low, name, he, hreg⟩ := hisField id hid
  have hcarries := (Expression.elaborate_carries hkind e place _ _ he).whole.rename name
  have hcounts : ctx₂.kind.counts = true := by
    revert hlater
    cases ctx₂.kind <;> simp [StageKind.counts]
  have hlevel : (ctx₁.catalog.node n).readAccess ≤ (ctx₂.catalog.node id).readAccess := by
    rw [haccess id hid]
    exact (Catalog.le_accessOf ctx₁.catalog _ _).2 n hn
  exact AccessLevel.le_trans hlevel ((hclears id hid id hreg.node.2.2).2 hcounts
    (hreg.type_ne_list hcarries hn (hnodes n hn) htype) hreg.node.2.1)

/-- A field is computed, and the documents are then matched by it. -/
def computedMatch (e : Json) : Json :=
  .arr [.obj [("$addFields", .obj [("f", e)])], .obj [("$match", .obj [("f", .int 5)])]]

/-- Comparing another name of a property of a high level needs that level. -/
theorem alias_match_needs_delete :
    ∃ p, (compile guardedSetting (computedMatch (.str "c_weight"))).result = .ok p ∧
      AccessLevel.delete ≤ p.requiredAccess := by
  obtain ⟨p, hp⟩ : ∃ p, (compile guardedSetting (computedMatch (.str "c_weight"))).result = .ok p :=
    exists_eq_ok (by decide +kernel)
  have htwo : (reached guardedSetting (computedMatch (.str "c_weight"))).length = 2 := by
    decide +kernel
  have hfirst : ∀ r ∈ (reached guardedSetting (computedMatch (.str "c_weight")))[0]?,
      r.1.kind = .addFields ∧ ∃ o ∈ (Project.parse r.1 r.2).toOption,
        ∃ f ∈ Expression.fieldAt (Site.root r.1.kind.key) ["f"] o.children,
          (∀ n ∈ (Expression.carry r.1 f.1 f.2).whole, n < r.1.catalog.nodes.size) ∧
          ∃ n ∈ (Expression.carry r.1 f.1 f.2).whole, (r.1.catalog.node n).type ≠ .list ∧
            (r.1.catalog.node n).readAccess = .delete := by
    decide +kernel
  have hsecond : ∀ r ∈ (reached guardedSetting (computedMatch (.str "c_weight")))[1]?,
      r.1.kind ∈ [.match, .sort, .group] ∧ r.1.skipAcl = false ∧ ∃ read ∈ stageReads r.1 r.2,
        Path.segments read.path = ["f"] ∧ read.isOpen = false ∧ read.nodes ≠ [] := by
    decide +kernel
  obtain ⟨r₁, r₂, hreached⟩ := List.length_eq_two.1 htwo
  rw [hreached] at hfirst hsecond
  obtain ⟨hkind₁, o, ho, ⟨place, e⟩, hfield, hnodes, n, hn, htype, hlevel⟩ := hfirst r₁ rfl
  obtain ⟨hkind₂, hacl, read, hread, hpath, hopen, hsome⟩ := hsecond r₂ rfl
  have hall := computed_field_keeps_access hp (show _ = [] ++ r₁ :: ([] ++ r₂ :: []) from hreached)
    (.inr hkind₁) (fun r hr => nomatch hr) hkind₂ hacl (eq_ok_of_mem ho) hfield hnodes hread hpath
    hopen hsome
  exact ⟨p, hp, hlevel ▸ hall.2 n hn htype⟩

/-- A sum has no level of its own, whatever it is a sum of. -/
theorem sum_drops_access :
    (∃ r ∈ reached guardedSetting (computedMatch (.obj [("$add", .arr [.str "c_weight", .int 1])])),
      ∃ read ∈ stageReads r.1 r.2, ∃ id ∈ read.nodes, (r.1.catalog.node id).type ≠ .list ∧
        (r.1.catalog.node id).acl = none ∧ (r.1.catalog.node id).readAccess = .delete) ∧
      ((compile guardedSetting
        (computedMatch (.obj [("$add", .arr [.str "c_weight", .int 1])]))).result.toOption.map
          CompiledPipeline.requiredAccess) = some .none := by
  decide +kernel

end Pipeline

end Conduit
