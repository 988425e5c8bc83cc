import Conduit.Operand

/-!
# Outlines

A parsed stage as two numbered tables: components (a key with its value) and values.  Numbers
grow in the order of creation, so everything below a component has a larger number.
-/

namespace Conduit

namespace Outline

inductive Content where
  | expression (components : List Nat)
  | array (values : List Nat)
  | simple (v : Json)
  | property (path : String)
  | variable (name : String)
  | raw (v : Json)

def Content.isVariable : Content → Bool
  | .variable _ => true
  | _ => false

structure Component where
  site : Site
  value : Option Nat := none
  parent : Option Nat := none

structure Value where
  content : Content
  /-- The component the value belongs to, directly or through an array. -/
  owner : Nat
  array : Option Nat := none
  position : Nat := 0
  /-- How many expressions are around the value. -/
  depth : Nat

end Outline

structure Outline where
  components : Array Outline.Component
  values : Array Outline.Value

namespace Outline

instance : Inhabited Component := ⟨{ site := Site.root "" }⟩
instance : Inhabited Value := ⟨{ content := .simple .null, owner := 0, depth := 0 }⟩

def new (stage : String) : Outline := ⟨#[{ site := Site.root stage }], #[]⟩

variable (o : Outline)

def component (id : Nat) : Component := o.components.getD id default

def value (id : Nat) : Value := o.values.getD id default

def parentOf (id : Nat) : Option Nat := (o.component id).parent.map fun v => (o.value v).owner

def isTopLevel (id : Nat) : Bool := o.parentOf id == some 0

def propertyName (id : Nat) : String := Path.last (o.component id).site.propertyPath

def depthFor (owner : Nat) : Nat :=
  match (o.component owner).parent with
  | some v => (o.value v).depth + 1
  | none => 0

def children (id : Nat) : List Nat :=
  match (o.value id).content with
  | .expression cs => cs
  | _ => []

def elements (id : Nat) : List Nat :=
  match (o.value id).content with
  | .array vs => vs
  | _ => []

/-! ## Growing -/

/-- A new key of an expression, which does not list it yet. -/
def addComponent (parent : Nat) (key : String) : Nat × Outline :=
  let owner := o.component (o.value parent).owner
  (o.components.size,
    { o with components := o.components.push { site := owner.site.child key, parent } })

/-- A new value of a component, which does not hold it yet. -/
def addValue (owner : Nat) (content : Content) : Nat × Outline :=
  (o.values.size, { o with values := o.values.push { content, owner, depth := o.depthFor owner } })

/-- A new value at a position of an array, which does not list it yet. -/
def addElement (array position : Nat) (content : Content) : Nat × Outline :=
  let owner := (o.value array).owner
  (o.values.size,
    { o with values :=
      o.values.push { content, owner, array, position, depth := o.depthFor owner } })

def setValue (component value : Nat) : Outline :=
  { o with components := o.components.modify component fun c => { c with value } }

def pushChild (expression component : Nat) : Outline :=
  { o with values := o.values.modify expression fun v =>
    match v.content with
    | .expression cs => { v with content := .expression (cs ++ [component]) }
    | _ => v }

def pushElement (array value : Nat) : Outline :=
  { o with values := o.values.modify array fun v =>
    match v.content with
    | .array vs => { v with content := .array (vs ++ [value]) }
    | _ => v }

/-! ## Reading -/

/-- More steps than any way down can have. -/
def height : Nat := o.components.size + o.values.size + 1

def underlyingWithin : Nat → Nat → Json
  | 0, _ => .null
  | n + 1, id =>
    match (o.value id).content with
    | .expression cs =>
      .obj (cs.foldl (fun fs c =>
        match (o.component c).value with
        | some v => Fields.insert fs (o.component c).site.key (underlyingWithin n v)
        | none => fs) [])
    | .array vs => .arr (vs.map (underlyingWithin n))
    | .simple v | .raw v => v
    | .property path => .str path
    | .variable name => .str (Path.placeholder name)

def underlying (id : Nat) : Json := o.underlyingWithin o.height id

inductive Visit where
  | component (id : Nat)
  | value (id : Nat)
deriving DecidableEq

inductive Control where
  | continue
  | skip
  | stop
deriving DecidableEq

structure Walk where
  visits : List Visit := []
  stopped : Bool := false

/-- Whether a walk visits components, values or both, and how each visit ends. -/
structure Visitor where
  components : Bool
  values : Bool
  control : Visit → Control

/-- A visit, then what is below unless the visitor says otherwise. -/
def Visitor.enter (v : Visitor) (wanted : Bool) (visit : Visit) (below : Walk → Walk) (w : Walk) :
    Walk :=
  if w.stopped then w
  else if wanted then
    let w := { w with visits := w.visits ++ [visit] }
    match v.control visit with
    | .continue => below w
    | .skip => w
    | .stop => { w with stopped := true }
  else below w

mutual

def walkComponent (visitor : Visitor) : Nat → Nat → Walk → Walk
  | 0, _, w => w
  | n + 1, id, w =>
    visitor.enter visitor.components (.component id) (fun w =>
      match (o.component id).value with
      | some v => walkValue visitor n v w
      | none => w) w

def walkValue (visitor : Visitor) : Nat → Nat → Walk → Walk
  | 0, _, w => w
  | n + 1, id, w =>
    visitor.enter visitor.values (.value id) (fun w =>
      match (o.value id).content with
      | .expression cs => cs.foldl (fun w c => walkComponent visitor n c w) w
      | .array vs => vs.foldl (fun w v => walkValue visitor n v w) w
      | _ => w) w

end

def walk (visitor : Visitor) (start : Nat) : Walk := o.walkComponent visitor o.height start {}

def placeholderNames : List String :=
  Operand.sortedNames ((o.walk ⟨false, true, fun _ => .continue⟩ 0).visits.filterMap fun
    | .value id => match (o.value id).content with
      | .variable name => some name
      | _ => none
    | .component _ => none)

/-- The properties that components are about, each once, the shortest first. -/
def propertyPaths : List String :=
  let paths := (o.walk ⟨true, false, fun _ => .continue⟩ 0).visits.filterMap fun
    | .component id => some (o.component id).site.propertyPath
    | .value _ => none
  ((paths.filter fun p => !p.isEmpty).eraseDups).mergeSort fun a b =>
    a.utf8ByteSize ≤ b.utf8ByteSize

end Outline

end Conduit
