import Conduit.Proofs.IndexFinish
import Conduit.Proofs.LiteralText
import Conduit.Proofs.Reads

/-!
# The clauses of a match

A match without conditions on array elements is a tree of clauses: a field with its leaves, or a
logical operator with the clauses of its elements.  Both queries that a match is built into can
be read off the clauses.  The native one compares each leaf with the distinct casts of its
literals; what is entered for the index query compares it once for each node, and the last node
decides (`meets_of_clauses`, `clauses_of_meets`).
-/

namespace Conduit.Match

open List

open IndexEntries

/-! ## Leaves -/

/-- How the literals of a leaf are cast. -/
def casterOf (site : Site) : Caster := if site.matchOp? = some .present then .truth else .stored

/-- The casts of the literals of a leaf for a node. -/
def castsOf (ctx : Context) (leaf : LeafAt) (id : NodeId) : List Json :=
  (Builder.rawValues leaf.2).filterMap fun raw =>
    (Builder.castValue (casterOf leaf.1.site) (ctx.catalog.node id).type leaf.1.fullpath raw).toOption

/-- Whether a leaf compares with literals that are cast. -/
def isCast (leaf : LeafAt) : Bool :=
  match leaf.1.site.matchOp? with
  | some .hasType | some .size => false
  | _ => !isEmptyLeaf leaf.2

/-- The casts of a leaf for each node its path may mean. -/
def leafCasts (ctx : Context) (leaf : LeafAt) : List (List Json) :=
  if isCast leaf then (trailNodes leaf.1).map (castsOf ctx leaf) else []

/-- The values that the native query compares a leaf with. -/
def leafValues (ctx : Context) (leaf : LeafAt) : List Json :=
  if leafCasts ctx leaf = [] then (Builder.rawValues leaf.2).map Prod.fst
  else Json.distinct (leafCasts ctx leaf).flatten

/-- A comparison with values as it is written below a field. -/
def comparison (op : Option MatchOp) (vs : List Json) : Json :=
  match op with
  | none | some .pattern => vs.headD .null
  | some .oneOf => single "$in" (.arr vs)
  | some .noneOf => single "$nin" (.arr vs)
  | some .within => single "$geoWithin" (vs.headD .null)
  | some op => single op.key (vs.headD .null)

/-- What is entered into the index query for a leaf, node by node. -/
def leafEntries (ctx : Context) (leaf : LeafAt) : List Json :=
  (leafCasts ctx leaf).map (comparison leaf.1.site.matchOp?)

/-! ## Clauses -/

/-- A condition of a match. -/
inductive Clause where
  /-- A field with its leaves. -/
  | field (key : String) (leaves : List LeafAt)
  /-- `$or` or `$and`, with the clauses of each element. -/
  | logic (isOr : Bool) (elements : List (List Clause))

/-- The step into a logical operator. -/
def logicStep (isOr : Bool) (width : Nat) : IndexStep := if isOr then .or width else .and

namespace Clause

/-- The key that a clause stands under. -/
def key : Clause → String
  | field key _ => key
  | logic isOr _ => if isOr then "$or" else "$and"

section

variable (ctx : Context)

mutual

/-- What is entered for a clause, seen from the object that holds it. -/
def entries : Clause → List Entry
  | field key leaves =>
    leaves.flatMap fun leaf => (leafEntries ctx leaf).map fun v => ([], key, v)
  | logic isOr elements => entriesAmong (logicStep isOr elements.length) 0 elements

def entriesAll : List Clause → List Entry
  | [] => []
  | c :: rest => entries c ++ entriesAll rest

/-- What is entered for the elements of a logical operator, from position `p` on. -/
def entriesAmong (s : IndexStep) (p : Nat) : List (List Clause) → List Entry
  | [] => []
  | e :: rest =>
    (entriesAll e).map (fun x => (s :: .position p :: x.1, x.2)) ++ entriesAmong s (p + 1) rest

end

end

mutual

/-- Whether a clause holds, given when a leaf of a field does. -/
def Holds (sat : String → Trail × Operand → Prop) : Clause → Prop
  | field key leaves => ∀ leaf ∈ leaves, sat key leaf
  | logic isOr elements =>
    if isOr then HoldsSome sat elements else HoldsEach sat elements

def HoldsAll (sat : String → Trail × Operand → Prop) : List Clause → Prop
  | [] => True
  | c :: rest => Holds sat c ∧ HoldsAll sat rest

def HoldsEach (sat : String → Trail × Operand → Prop) : List (List Clause) → Prop
  | [] => True
  | e :: rest => HoldsAll sat e ∧ HoldsEach sat rest

def HoldsSome (sat : String → Trail × Operand → Prop) : List (List Clause) → Prop
  | [] => False
  | e :: rest => HoldsAll sat e ∨ HoldsSome sat rest

end

variable {sat : String → Trail × Operand → Prop} {elements : List (List Clause)}
  {P : List Clause → Prop}

lemma holdsAll_iff {cs : List Clause} : HoldsAll sat cs ↔ ∀ c ∈ cs, c.Holds sat := by
  induction cs with
  | nil => simp [HoldsAll]
  | cons c rest ih => simp [HoldsAll, ih]

lemma holds_and : (logic false elements).Holds sat ↔ ∀ e ∈ elements, HoldsAll sat e := by
  simp only [Holds, Bool.false_eq_true, if_false]
  induction elements with
  | nil => simp [HoldsEach]
  | cons e rest ih => simp [HoldsEach, ih]

lemma holds_or : (logic true elements).Holds sat ↔ ∃ e ∈ elements, HoldsAll sat e := by
  simp only [Holds, if_true]
  induction elements with
  | nil => simp [HoldsSome]
  | cons e rest ih => simp [HoldsSome, ih]

/-- Whether a property of lists of clauses passes from the elements of logical operators to the
list that holds them. -/
def Ascends (P : List Clause → Prop) : Prop :=
  ∀ cs, (∀ isOr elements, logic isOr elements ∈ cs → ∀ e ∈ elements, P e) → P cs

mutual

lemma ascends_below (step : Ascends P) : ∀ (cs : List Clause)
    (isOr : Bool) (elements : List (List Clause)), logic isOr elements ∈ cs → ∀ e ∈ elements, P e
  | field _ _ :: rest, isOr, elements, h, e, he => by
    rcases mem_cons.1 h with h | h
    · cases h
    · exact ascends_below step rest isOr elements h e he
  | logic isOr' elements' :: rest, isOr, elements, h, e, he => by
    rcases mem_cons.1 h with h | h
    · cases h
      exact ascends_among step elements' e he
    · exact ascends_below step rest isOr elements h e he

lemma ascends_among (step : Ascends P) : ∀ (elements : List (List Clause)), ∀ e ∈ elements, P e
  | e :: rest, e', he => by
    rcases mem_cons.1 he with h | he
    · rw [h]
      exact step e (ascends_below step e)
    · exact ascends_among step rest e' he

end

/-- **Induction over clauses**, from the elements of logical operators up. -/
lemma induction {motive : List Clause → Prop}
    (step : ∀ cs, (∀ isOr elements, logic isOr elements ∈ cs → ∀ e ∈ elements, motive e) →
      motive cs) (cs : List Clause) : motive cs :=
  step cs (ascends_below step cs)

/-! ## What the entries of clauses are -/

section

variable {ctx : Context}

lemma entriesAll_eq (cs : List Clause) : entriesAll ctx cs = cs.flatMap (entries ctx) := by
  induction cs with
  | nil => rfl
  | cons c rest ih => rw [entriesAll, ih, flatMap_cons]

lemma entries_field (key : String) (leaves : List LeafAt) : (field key leaves).entries ctx =
      (leaves.flatMap (leafEntries ctx)).map fun v => ([], key, v) := by
  rw [entries, map_flatMap]

variable {c : Clause} {s : IndexStep} {elements : List (List Clause)} {p : Nat} {k : String}
  {cs : List Clause}

lemma getD_mem_of_entries_ne (h : entriesAll ctx (elements.getD p []) ≠ []) :
    elements.getD p [] ∈ elements := by
  rw [getD_eq_getElem?_getD] at h ⊢
  cases hp : elements[p]? with
  | none =>
    rw [hp] at h
    exact absurd rfl h
  | some e => exact mem_of_getElem? hp

lemma key_logic (isOr : Bool) (elements : List (List Clause)) (width : Nat) :
    (logicStep isOr width).key? = some (logic isOr elements).key := by
  cases isOr <;> rfl

lemma inBranch_under (s : IndexStep) (key : String) (p q : Nat) (es : List Entry) :
    inBranch key p (es.map fun x => (s :: .position q :: x.1, x.2)) =
      if s.key? = some key ∧ q = p then es else [] := by
  induction es with
  | nil => simp [inBranch]
  | cons x rest ih =>
    rw [map_cons, ← singleton_append, inBranch_append, inBranch_step, ih]
    split <;> simp

lemma inBranch_among {key : String} (hs : s.key? = some key) (p q : Nat)
    (elements : List (List Clause)) : inBranch key p (entriesAmong ctx s q elements) =
      if q ≤ p then entriesAll ctx (elements.getD (p - q) []) else [] := by
  induction elements generalizing q with
  | nil => simp [entriesAmong, inBranch, entriesAll]
  | cons e rest ih =>
    rw [entriesAmong, inBranch_append, inBranch_under, ih]
    by_cases hq : q = p
    · subst hq
      simp [hs]
    · by_cases hle : q ≤ p
      · have hsub : p - q = p - (q + 1) + 1 := by omega
        rw [if_neg fun h => hq h.2, if_pos (by omega), if_pos hle, hsub]
        rfl
      · rw [if_neg fun h => hq h.2, if_neg (by omega), if_neg hle]
        rfl

lemma inBranch_among_other {key : String} (hs : s.key? ≠ some key) (p q : Nat)
    (elements : List (List Clause)) : inBranch key p (entriesAmong ctx s q elements) = [] := by
  induction elements generalizing q with
  | nil => rfl
  | cons e rest ih =>
    rw [entriesAmong, inBranch_append, inBranch_under, ih, if_neg fun h => hs h.1]
    rfl

lemma inBranch_field (k : String) (p : Nat) (key : String) (leaves : List LeafAt) :
    inBranch k p ((field key leaves).entries ctx) = [] := by
  rw [entries_field]
  refine filterMap_eq_nil_iff.2 fun e he => ?_
  obtain ⟨v, -, rfl⟩ := mem_map.1 he
  rfl

lemma inBranch_logic (isOr : Bool) (elements : List (List Clause)) (p : Nat) :
    inBranch (logic isOr elements).key p ((logic isOr elements).entries ctx) =
      entriesAll ctx (elements.getD p []) := by
  rw [entries, inBranch_among (key_logic isOr elements _), if_pos (Nat.zero_le p), Nat.sub_zero]

lemma inBranch_of_key_ne (h : c.key ≠ k) (p : Nat) : inBranch k p (c.entries ctx) = [] := by
  cases c with
  | field key leaves => exact inBranch_field k p key leaves
  | logic isOr elements =>
    refine inBranch_among_other (fun hs => h ?_) p 0 elements
    rw [key_logic isOr elements] at hs
    exact Option.some.inj hs

lemma entriesAmong_steps {e : Entry} (he : e ∈ entriesAmong ctx s p elements) :
    ∃ q rest, e.1 = s :: .position q :: rest ∧ p ≤ q ∧ q < p + elements.length := by
  induction elements generalizing p with
  | nil => cases he
  | cons c rest ih =>
    rcases mem_append.1 he with he | he
    · obtain ⟨x, -, rfl⟩ := mem_map.1 he
      exact ⟨p, x.1, rfl, Nat.le_refl p, by rw [length_cons]; omega⟩
    · obtain ⟨q, tail, heq, hle, hlt⟩ := ih he
      exact ⟨q, tail, heq, by omega, by rw [length_cons]; omega⟩

/-- A logical operator enters something into one of its branches. -/
lemma exists_inBranch_logic {isOr : Bool} (h : (logic isOr elements).entries ctx ≠ []) :
    ∃ p, entriesAll ctx (elements.getD p []) ≠ [] := by
  obtain ⟨e, he⟩ := exists_mem_of_ne_nil _ h
  obtain ⟨q, rest, hsteps, -, -⟩ := entriesAmong_steps he
  refine ⟨q, ?_⟩
  rw [← inBranch_logic isOr elements q]
  refine ne_nil_of_mem (a := (rest, e.2)) (mem_filterMap.2 ⟨e, he, ?_⟩)
  rw [hsteps]
  simp [key_logic isOr elements]

lemma valuesAt_field (k key : String) (leaves : List LeafAt) :
    valuesAt k ((field key leaves).entries ctx) =
      if key = k then leaves.flatMap (leafEntries ctx) else [] := by
  rw [entries_field, valuesAt, filterMap_map]
  by_cases hk : key = k <;> simp [hk]

lemma valuesAt_logic (k : String) (isOr : Bool) (elements : List (List Clause)) :
    valuesAt k ((logic isOr elements).entries ctx) = [] := by
  refine filterMap_eq_nil_iff.2 fun e he => ?_
  obtain ⟨q, rest, heq, -, -⟩ := entriesAmong_steps he
  simp [heq]

lemma valuesAt_of_key_ne (h : c.key ≠ k) : valuesAt k (c.entries ctx) = [] := by
  cases c with
  | field key leaves =>
    rw [valuesAt_field]
    exact if_neg h
  | logic isOr elements => exact valuesAt_logic k isOr elements

/-- No two clauses enter anything under the same key. -/
def Apart (ctx : Context) (cs : List Clause) : Prop :=
  ((cs.filter fun c => !(c.entries ctx).isEmpty).map key).Nodup

lemma Apart.eq (h : Apart ctx cs) {c' : Clause} (hc : c ∈ cs) (hc' : c' ∈ cs)
    (hne : c.entries ctx ≠ []) (hne' : c'.entries ctx ≠ []) (hkey : c.key = c'.key) : c = c' :=
  inj_on_of_nodup_map h (mem_filter.2 ⟨hc, by simp [hne]⟩) (mem_filter.2 ⟨hc', by simp [hne']⟩) hkey

lemma apart_cons (h : Apart ctx (c :: cs)) :
    Apart ctx cs ∧ (c.entries ctx ≠ [] → ∀ x ∈ cs, x.key = c.key → x.entries ctx = []) := by
  unfold Apart at h
  by_cases hc : c.entries ctx = []
  · rw [filter_cons_of_neg (by simp [hc])] at h
    exact ⟨h, fun hne => absurd hc hne⟩
  · rw [filter_cons_of_pos (by simp [hc]), map_cons, nodup_cons] at h
    refine ⟨h.2, fun _ x hx hkey => ?_⟩
    by_contra hne
    exact h.1 (hkey ▸ mem_map_of_mem (mem_filter.2 ⟨hx, by simp [hne]⟩))

section

variable {β : Type} {g : Entry → Option β} {k : String}
  (hg : ∀ c : Clause, c.key ≠ k → (c.entries ctx).filterMap g = [])

include hg

variable {cs : List Clause}

lemma filterMap_entriesAll_eq_nil (h : ∀ c ∈ cs, c.key = k → c.entries ctx = []) :
    (entriesAll ctx cs).filterMap g = [] := by
  induction cs with
  | nil => rfl
  | cons c rest ih =>
    have hc : (c.entries ctx).filterMap g = [] := by
      by_cases hk : c.key = k
      · rw [h c mem_cons_self hk]
        rfl
      · exact hg c hk
    rw [entriesAll, filterMap_append, hc, nil_append]
    exact ih fun x hx => h x (mem_cons_of_mem _ hx)

/-- What is picked from the entries by their key comes from the one clause that has it. -/
lemma filterMap_entriesAll (hcs : Apart ctx cs) (hc : c ∈ cs) (hkey : c.key = k)
    (hne : c.entries ctx ≠ []) : (entriesAll ctx cs).filterMap g = (c.entries ctx).filterMap g := by
  induction cs with
  | nil => cases hc
  | cons x rest ih =>
    obtain ⟨hrest, hx⟩ := apart_cons hcs
    rw [entriesAll, filterMap_append]
    rcases mem_cons.1 hc with rfl | hc
    · rw [filterMap_entriesAll_eq_nil hg fun y hy hyk => hx hne y hy (hyk.trans hkey.symm),
        append_nil]
    · have hhead : (x.entries ctx).filterMap g = [] := by
        by_cases hempty : x.entries ctx = []
        · rw [hempty]
          rfl
        · exact hg x fun hxk => hne (hx hempty c hc (hkey.trans hxk.symm))
      rw [hhead, nil_append, ih hrest hc]

lemma exists_of_filterMap_ne_nil (h : (entriesAll ctx cs).filterMap g ≠ []) :
    ∃ c ∈ cs, c.key = k ∧ c.entries ctx ≠ [] := by
  by_contra hnone
  refine h (filterMap_entriesAll_eq_nil hg fun c hc hk => ?_)
  by_contra hne
  exact hnone ⟨c, hc, hk, hne⟩

end

end

end Clause

end Conduit.Match
