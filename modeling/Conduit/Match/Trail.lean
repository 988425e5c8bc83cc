import Conduit.Match.Narrowing

/-!
# Trails

The way from the stage down to one component, with what is left for it of models and properties.
These are found when first asked for, since a component nobody asks about may have none.
-/

namespace Conduit.Match

structure Frame where
  site : Site
  /-- The positions that lead to the component. -/
  address : List Nat
  /-- The position of the object that holds the component, in the list around it. -/
  element : Nat
  /-- How many elements the value of the component has. -/
  width : Nat
  models : Thunk (Except CompileError (List ModelId))
  properties : Thunk (Compile (List Candidate))

/-- The frames from a component up to the stage. -/
abbrev Trail := List Frame

namespace Trail

variable (ctx : Context)

/-- The properties left inside a component.  Two rounds let later conditions narrow earlier
ones. -/
def narrowTwice (address : List Nat) (site : Site) (v : Operand)
    (models : Except CompileError (List ModelId)) (above : Compile (List Candidate)) :
    Compile (List Candidate) :=
  Journaled.mapNotes (fun events => [.once address events]) do
    let models ← Journaled.of models
    let properties ← above
    let properties ← componentProperties ctx site models v properties
    componentProperties ctx site models v properties

def root (v : Operand) : Trail :=
  let site := Site.root ctx.kind.key
  let models := Thunk.mk fun _ => expressionModels ctx site v.children ctx.models
  [{ site
     address := []
     element := 0
     width := 0
     models
     properties := Thunk.mk fun _ =>
       narrowTwice ctx [] site v models.get (pure ctx.properties) }]

/-- The trail of a key directly below, in the object at position `element`. -/
def child (trail : Trail) (element index : Nat) (key : String) (v : Operand) : Trail :=
  match trail with
  | [] => []
  | parent :: rest =>
    let site := parent.site.child key
    let address := parent.address ++ [element, index]
    let models := Thunk.mk fun _ => do componentModels ctx site v (← parent.models.get)
    { site
      address
      element
      width := v.elements.length
      models
      properties := Thunk.mk fun _ =>
        narrowTwice ctx address site v models.get parent.properties.get } :: parent :: rest

def site : Trail → Site
  | f :: _ => f.site
  | [] => .root ""

def fullpath (t : Trail) : String := t.site.fullpath

def address : Trail → List Nat
  | f :: _ => f.address
  | [] => []

def parent : Trail → Trail
  | _ :: g :: rest => g :: rest
  | t => t

/-- The candidates of the component's own path. -/
def property : Trail → Compile (Option Candidate)
  | f :: _ => do return Candidate.find? (← f.properties.get) f.site.propertyPath
  | [] => pure none

/-- The closest component, from this one up, that names a field. -/
def named : Trail → Trail
  | [] => []
  | f :: rest => if f.site.isRoot || !f.site.isOperator then f :: rest else named rest

/-- The components that are stored by reference when this one is: operators belong to what is
around them, up to the field. -/
def referenced : Trail → List (List Nat)
  | f :: g :: rest =>
    f.address :: if f.site.isOperator && !g.site.isRoot then referenced (g :: rest) else []
  | [f] => [f.address]
  | [] => []

/-- The steps to the index entries of the component: one pair for each logical operator above
it. -/
def steps : Trail → List IndexStep
  | f :: g :: rest =>
    steps (g :: rest) ++
      if !g.site.isRoot && MatchOp.isLogicalKey g.site.key then
        [if g.site.key = "$or" then .or g.width else .and, .position f.element]
      else []
  | _ => []

end Trail

end Conduit.Match
