import Conduit.Pipeline
import Conduit.Proofs.MatchShape
import Conduit.Proofs.MatchSteps

/-!
# What stages read

The property paths that each stage of a pipeline looks at, with the nodes that each may mean
there.  They are read off the parsed stage, whatever the stage then checks about them.

* `Match.leaves`: the conditions of a match that hold no further conditions.
* `Expression.reads`: the paths of an expression.
* `stageReads`: the paths of one stage.
* `Pipeline.reached`: the contexts in which the stages of a pipeline are compiled.
-/

namespace Conduit

open List

/-- A path that a stage reads. -/
structure PathRead where
  path : String
  /-- The nodes it may mean. -/
  nodes : List NodeId
  /-- Whether an operator compares the path with placeholders only. -/
  isOpen : Bool := false

/-! ## Matches -/

namespace Match

/-- Whether a list of a logical operator, or of an `$all` around conditions, is no condition of
its own. -/
def holdsConditions (site : Site) (elements : List Operand) : Bool := match site.matchOp? with
  | some .and | some .or => true
  | some .all => elements.all Operand.isExpression
  | _ => false

/-- A leaf, with the way to it. -/
abbrev LeafAt := Trail × Operand

variable (ctx : Context)

mutual

/-- The leaves of a component: what compares a path with a literal, a list or a placeholder. -/
def leaves (trail : Trail) : Operand → List LeafAt
  | .expression cs => leavesBelow trail 0 0 cs
  | .array elements =>
    (if holdsConditions trail.site elements then [] else [(trail, .array elements)]) ++
      leavesAmong trail 0 elements
  | v => [(trail, v)]

/-- The leaves of the object at position `element`. -/
def leavesBelow (trail : Trail) (element index : Nat) : Children → List LeafAt
  | [] => []
  | (key, v) :: rest =>
    leaves (trail.child ctx element index key v) v ++ leavesBelow trail element (index + 1) rest

/-- The leaves of the objects in a list. -/
def leavesAmong (trail : Trail) (element : Nat) : List Operand → List LeafAt
  | [] => []
  | .expression cs :: rest =>
    leavesBelow trail element 0 cs ++ leavesAmong trail (element + 1) rest
  | _ :: rest => leavesAmong trail (element + 1) rest

end

/-- Whether a leaf is an operator that compares with placeholders only: a single one, or those of
an `$all` without a literal. -/
def isOpenLeaf (site : Site) : Operand → Bool
  | .variable _ => site.matchOp?.isSome
  | .array elements => site.matchOp? == some .all && !elements.any Operand.isSimple
  | _ => false

/-- Whether a leaf is a list without elements, which compares with nothing. -/
def isEmptyLeaf : Operand → Bool
  | .array [] => true
  | _ => false

/-- The nodes that the path of a component may mean. -/
def trailNodes (trail : Trail) : List NodeId := match trail.property.result with
  | .ok (some c) => c.nodes
  | _ => []

lemma trailNodes_eq {trail : Trail} {c : Candidate} (h : trail.property.result = .ok (some c)) :
    trailNodes trail = c.nodes := by
  rw [trailNodes, h]

lemma root_ne_nil (v : Operand) : Trail.root ctx v ≠ [] := cons_ne_nil _ _

section

variable {ctx} {trail : Trail} (h : trail ≠ []) (element index : Nat) (key : String) (v : Operand)

include h

lemma site_child : (trail.child ctx element index key v).site = trail.site.child key := by
  cases trail with
  | nil => exact absurd rfl h
  | cons f rest => rfl

lemma child_ne_nil : trail.child ctx element index key v ≠ [] := by
  cases trail with
  | nil => exact absurd rfl h
  | cons f rest => exact cons_ne_nil _ _

lemma parent_child : (trail.child ctx element index key v).parent = trail := by
  cases trail with
  | nil => exact absurd rfl h
  | cons f rest => rfl

end

/-- What is known of a component goes down to its children, and at a leaf says something of it. -/
structure ReachesLeaves (ctx : Context) (P : Trail → Operand → Prop) (Q : LeafAt → Prop) :
    Prop where
  child : ∀ {t v element index key x}, P t v → (childrenAt v element)[index]? = some (key, x) →
    P (t.child ctx element index key x) x
  leaf : ∀ {t v}, P t v → v.isExpression = false →
    (∀ elements, v = .array elements → holdsConditions t.site elements = false) → Q (t, v)

section

variable {ctx : Context} {P : Trail → Operand → Prop} {Q : LeafAt → Prop}

mutual

/-- What goes from a component to its children goes to its leaves. -/
lemma forall_leaves (hP : ReachesLeaves ctx P Q) {t : Trail} :
    ∀ v : Operand, P t v → ∀ leaf ∈ leaves ctx t v, Q leaf
  | .expression cs, hv => forall_leavesBelow hP 0 0 cs hv rfl
  | .array elements, hv => by
    refine forall_mem_append.2 ⟨?_, forall_leavesAmong hP 0 elements hv rfl⟩
    split
    · exact forall_mem_nil _
    · next hholds =>
      refine forall_mem_singleton.2 (hP.leaf hv rfl fun es hes => ?_)
      cases hes
      exact Bool.eq_false_iff.2 hholds
  | .variable _, hv | .simple _, hv | .property _, hv | .raw _, hv =>
    forall_mem_singleton.2 (hP.leaf hv rfl nofun)

lemma forall_leavesBelow (hP : ReachesLeaves ctx P Q) {t : Trail} {v : Operand}
    (element index : Nat) : ∀ cs : Children, P t v → (childrenAt v element).drop index = cs →
      ∀ leaf ∈ leavesBelow ctx t element index cs, Q leaf
  | [], _, _ => forall_mem_nil _
  | (_, x) :: rest, hv, hcs => by
    obtain ⟨hx, hrest⟩ := getElem?_of_drop hcs
    exact forall_mem_append.2 ⟨forall_leaves hP x (hP.child hv hx),
      forall_leavesBelow hP element (index + 1) rest hv hrest⟩

lemma forall_leavesAmong (hP : ReachesLeaves ctx P Q) {t : Trail} {vs : List Operand}
    (element : Nat) : ∀ elements : List Operand, P t (.array vs) → vs.drop element = elements →
      ∀ leaf ∈ leavesAmong ctx t element elements, Q leaf
  | [], _, _ => forall_mem_nil _
  | .expression cs :: rest, hv, hvs => by
    obtain ⟨hget, hrest⟩ := getElem?_of_drop hvs
    exact forall_mem_append.2
      ⟨forall_leavesBelow hP element 0 cs hv (by rw [childrenAt, hget]; rfl),
        forall_leavesAmong hP (element + 1) rest hv hrest⟩
  | .variable _ :: rest, hv, hvs | .simple _ :: rest, hv, hvs | .property _ :: rest, hv, hvs
  | .raw _ :: rest, hv, hvs | .array _ :: rest, hv, hvs =>
    forall_leavesAmong hP (element + 1) rest hv (getElem?_of_drop hvs).2

end

end

/-- Without literals, the elements of `$all` are checked like those of `$and` and `$or`. -/
lemma checkElements_eq {ctx : Context} {trail : Trail} {elements : List Operand}
    (h : ∀ e ∈ elements, e.isSimple = false) (element : Nat) :
    checkElements ctx trail element elements = checkAllElements ctx trail element elements := by
  induction elements generalizing element with
  | nil => rfl
  | cons e rest ih =>
    obtain ⟨he, hrest⟩ := forall_mem_cons.1 h
    cases e with
    | simple x => cases he
    | _ => simp only [checkElements, checkAllElements, ih hrest]

/-- The leaves of a match; lists without elements are left out. -/
def matchLeaves (v : Operand) : List LeafAt :=
  (leavesBelow ctx (Trail.root ctx v) 0 0 v.children).filter fun leaf => !isEmptyLeaf leaf.2

/-- The paths that a match compares. -/
def reads (value : Json) : List PathRead := match parse ctx value with
  | .ok v => (matchLeaves ctx v).map fun leaf =>
    ⟨leaf.1.site.propertyPath, trailNodes leaf.1, isOpenLeaf leaf.1.site leaf.2⟩
  | .error _ => []

end Match

/-! ## Sorts, unwinds and expressions -/

/-- The nodes that candidates leave for a path. -/
def Candidate.nodesOf (cs : List Candidate) (path : String) : List NodeId :=
  match Candidate.find? cs path with
  | some c => c.nodes
  | none => []

/-- The paths that a sort orders by. -/
def Sort.reads (ctx : Context) (value : Json) : List PathRead := match Sort.parse ctx value with
  | .ok fields =>
    match Sort.candidates ctx (fields.map Prod.fst) with
    | .ok properties => fields.map fun f => ⟨f.1, Candidate.nodesOf properties f.1, false⟩
    | .error _ => []
  | .error _ => []

/-- The property that an unwind names, unless a placeholder stands for it. -/
def Unwind.path? (ctx : Context) (value : Json) : Option String :=
  match fieldsOf value >>= pathOf with
  | .ok v => if (ctx.placeholder? v).isSome then none else (propertyOf v).toOption
  | .error _ => none

/-- The path that is unwound. -/
def Unwind.reads (ctx : Context) (value : Json) : List PathRead := match Unwind.path? ctx value with
  | some path =>
    match Unwind.candidates ctx path with
    | .ok properties => [⟨path, Candidate.nodesOf properties path, false⟩]
    | .error _ => []
  | none => []

namespace Expression

variable (ctx : Context)

mutual

/-- The paths that a value at a place reads: references, and the fields that it includes. -/
def reads (site : Site) : Operand → List String
  | .variable _ | .raw _ => []
  | .simple _ => if site.isOperator ∨ ctx.kind = .group then [] else [site.propertyPath]
  | .property path => [path]
  | .array elements => readsAmong site elements
  | .expression cs => readsBelow site cs

def readsAmong (site : Site) : List Operand → List String
  | [] => []
  | v :: rest => reads site v ++ readsAmong site rest

def readsBelow (site : Site) : Children → List String
  | [] => []
  | (key, v) :: rest =>
    (if key = ExprOp.expand.key then [(site.child key).propertyPath]
      else reads (site.child key) v) ++ readsBelow site rest

end

/-- The nodes that an expression reads for a path. -/
def readNodesOf (path : String) : List NodeId :=
  ctx.filterByDiscriminators (ctx.candidateNodes path).1

/-- The paths that the output fields of a stage read. -/
def readsOf (v : Operand) : List PathRead :=
  (readsBelow ctx (Site.root ctx.kind.key) v.children).map fun path =>
    ⟨path, readNodesOf ctx path, false⟩

end Expression

/-! ## Stages -/

/-- The paths that the output fields of a parsed stage read, if it parses. -/
def outputReads (ctx : Context) : Except CompileError Operand → List PathRead
  | .ok v => Expression.readsOf ctx v
  | .error _ => []

/-- The paths that a stage reads. -/
def stageReads (ctx : Context) (value : Json) : List PathRead := match ctx.kind with
  | .match => Match.reads ctx value
  | .sort => Sort.reads ctx value
  | .group => outputReads ctx (Group.parse ctx value)
  | .project | .addFields => outputReads ctx (Project.parse ctx value)
  | .unwind => Unwind.reads ctx value
  | .limit | .skip => []

namespace Pipeline

/-- The stages that are compiled, each with its context: up to the first that fails. -/
def reachedFrom (s : Setting) (position : Nat) :
    List PendingStage → Progress → List (Context × Json)
  | [], _ => []
  | stage :: rest, p =>
    let ctx := contextOf s position (rest.map PendingStage.kind) stage p
    (ctx, stage.value) :: match (compileStage ctx stage.value).result with
      | .ok output =>
        match (advance s ctx output p).result with
        | .ok next => reachedFrom s (position + 1) rest next
        | .error _ => []
      | .error _ => []

/-- The stages of a pipeline that are compiled, each with its context. -/
def reached (s : Setting) (v : Json) : List (Context × Json) :=
  match stagesOf s.options v, start s with
  | .ok stages, .ok p => reachedFrom s 0 stages p
  | _, _ => []

end Pipeline

end Conduit
