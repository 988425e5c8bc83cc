import Conduit.Proofs.Paths
import Conduit.Proofs.Reads

/-!
# Where the leaves of a match enter

The place of a component determines the key that it is entered under and the steps to its branch.
Logical operators are no part of the key, and they are all that makes up the steps
(`propertyPath_child`, `steps_child`).
-/

namespace Conduit

namespace Match

open IndexEntries

/-! ## Keys -/

/-- A place that names no property: the stage, or logical operators all the way down. -/
def Clear (site : Site) : Prop :=
  site.isRoot = true ∨ (Path.segments site.fullpath).filter Path.namesProperty = []

variable {site s s' : Site} {key : String} {trail : Trail}

lemma propertyPath_child (h : Clear site) (key : String) :
    (site.child key).propertyPath = Path.property key := by
  unfold Site.propertyPath Site.child
  rcases h with h | h
  · rw [if_pos h]
  · cases hroot : site.isRoot with
    | true => rfl
    | false =>
      rw [if_neg Bool.false_ne_true, Path.property, Path.segments_append, List.filter_append, h,
        List.nil_append]
      rfl

lemma Clear.child (h : Clear site) (hkey : key = "$and" ∨ key = "$or") :
    Clear (site.child key) := by
  have hnone : (Path.segments key).filter Path.namesProperty = [] := by
    rcases hkey with rfl | rfl <;> decide +kernel
  right
  unfold Site.child
  rcases h with h | h
  · rw [if_pos h]
    exact hnone
  · cases hroot : site.isRoot with
    | true => exact hnone
    | false =>
      rw [if_neg Bool.false_ne_true, Path.segments_append, List.filter_append, h, hnone]
      rfl

lemma indexKey_child {b : Builder} (htrail : trail ≠ []) (hclear : Clear trail.site)
    (hkey : Path.property key = key) (element index : Nat) (v : Operand) :
    b.indexKey (trail.child b.ctx element index key v) =
      b.buildKey (trail.child b.ctx element index key v) := by
  unfold Builder.indexKey Builder.buildKey
  rw [site_child htrail, propertyPath_child hclear, hkey]
  rfl

/-! ## Places of the same property -/

/-- The names of properties on the way to a place. -/
def names (s : Site) : List String :=
  if s.isRoot then [] else (Path.segments s.fullpath).filter Path.namesProperty

lemma names_child (s : Site) (key : String) :
    names (s.child key) = names s ++ (Path.segments key).filter Path.namesProperty := by
  have hroot : (s.child key).isRoot = false := rfl
  rw [names, names, hroot, if_neg Bool.false_ne_true]
  unfold Site.child
  split
  · rfl
  · rw [Path.segments_append, List.filter_append]

lemma propertyPath_eq_join (h : s.isRoot = false) : s.propertyPath = Path.join (names s) := by
  rw [names, h, if_neg Bool.false_ne_true]
  rfl

/-- Places with the same key for the same property. -/
structure SamePlace (s s' : Site) : Prop where
  key : s.key = s'.key
  propertyPath : s.propertyPath = s'.propertyPath
  names : names s = names s'

lemma samePlace_child (h : names s = names s') (key : String) :
    SamePlace (s.child key) (s'.child key) := by
  have hnames : names (s.child key) = names (s'.child key) := by rw [names_child, names_child, h]
  exact ⟨rfl, by rw [propertyPath_eq_join rfl, propertyPath_eq_join rfl, hnames], hnames⟩

lemma SamePlace.matchOp? (h : SamePlace s s') : s.matchOp? = s'.matchOp? := by
  rw [Site.matchOp?, Site.matchOp?, h.key]

/-! ## Steps -/

/-- The steps to the object at position `element` of a component. -/
def objectSteps (trail : Trail) (element : Nat) : List IndexStep := match trail with
  | [] => []
  | g :: rest => Trail.steps (g :: rest) ++
    if !g.site.isRoot && MatchOp.isLogicalKey g.site.key then
      [if g.site.key = "$or" then .or g.width else .and, .position element]
    else []

lemma steps_child {ctx : Context} (element index : Nat) (key : String) (v : Operand) :
    (trail.child ctx element index key v).steps = objectSteps trail element := by
  cases trail <;> rfl

/-- The step that a logical operator gives, and the position in its list. -/
def stepsOf (key : String) (v : Operand) (position : Nat) : List IndexStep :=
  if MatchOp.isLogicalKey key then
    [if key = "$or" then .or v.elements.length else .and, .position position]
  else []

lemma stepsOf_logical (h : key = "$and" ∨ key = "$or") (v : Operand) (position : Nat) :
    stepsOf key v position =
      [if key = "$or" then .or v.elements.length else .and, .position position] := by
  rcases h with rfl | rfl <;> rfl

section

variable {ctx : Context} {trail : Trail} (htrail : trail ≠ []) {key : String}

include htrail

lemma objectSteps_child (element index position : Nat) (key : String) (v : Operand) :
    objectSteps (trail.child ctx element index key v) position =
      objectSteps trail element ++ stepsOf key v position := by
  cases trail with
  | nil => exact absurd rfl htrail
  | cons f rest => simp [objectSteps, stepsOf, Trail.child, Site.child, Trail.steps, Site.isRoot]

/-- The elements of a logical operator are entered below it. -/
lemma objectSteps_logic (hkey : key = "$and" ∨ key = "$or") (element index position : Nat)
    (v : Operand) :
    objectSteps (trail.child ctx element index key v) position = objectSteps trail element ++
      [if key = "$or" then .or v.elements.length else .and, .position position] := by
  rw [objectSteps_child htrail, stepsOf_logical hkey]

lemma named_field (hkey : Path.isOperator key = false) (element index : Nat) (v : Operand) :
    (trail.child ctx element index key v).named = trail.child ctx element index key v := by
  cases trail with
  | nil => exact absurd rfl htrail
  | cons f rest => simp [Trail.child, Trail.named, Site.isOperator, Site.child, hkey]

lemma named_operator (hkey : Path.isOperator key = true) (element index : Nat) (v : Operand) :
    (trail.child ctx element index key v).named = trail.named := by
  cases trail with
  | nil => exact absurd rfl htrail
  | cons f rest =>
    simp [Trail.child, Trail.named, Site.isOperator, Site.child, Site.isRoot, hkey]

end

end Match

end Conduit
