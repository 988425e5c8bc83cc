import Conduit.Proofs.CandidateModels
import Conduit.Proofs.MatchVetting

/-!
# Components stored by reference

The check of a match marks the components that are stored by reference, by their addresses.  An
operator belongs to the property around it, so that `$elemMatch` is marked when an operator directly
below it compares references.  The operators below one `$elemMatch` all mean the same nodes: one
that is marked holds no comparison of anything but references (`validate_marks`).
-/

namespace Conduit

open Journaled List

namespace Candidate

lemma union_keeps {a b r : Candidate} (h : union a b = .ok r) :
    r.path = a.path ∧ a.nodes ⊆ r.nodes ∧ b.nodes ⊆ r.nodes := by
  have hfold : ∀ (new old : List NodeId),
      old ⊆ new.foldl (fun ns n => if ns.contains n then ns else ns ++ [n]) old ∧
      new ⊆ new.foldl (fun ns n => if ns.contains n then ns else ns ++ [n]) old := by
    intro new
    induction new with
    | nil => exact fun old => ⟨fun n hn => hn, nofun⟩
    | cons m rest ih =>
      intro old
      have hstep := ih (if old.contains m then old else old ++ [m])
      have hold : old ⊆ (if old.contains m then old else old ++ [m]) := by
        split
        · exact fun n hn => hn
        · exact fun n hn => mem_append_left _ hn
      have hm : m ∈ (if old.contains m then old else old ++ [m]) := by
        split
        · next h => simpa using h
        · exact mem_append_right _ mem_cons_self
      exact ⟨fun n hn => hstep.1 (hold hn), cons_subset.2 ⟨hstep.1 hm, hstep.2⟩⟩
  simp only [union, except_bind_ok_iff] at h
  obtain ⟨u, -, h⟩ := h
  split at h
  · next hsame =>
    cases h
    simp only [sameNodes, Bool.and_eq_true, all_eq_true] at hsame
    exact ⟨rfl, fun n hn => hn, fun n hn => by simpa using hsame.2 n hn⟩
  · cases h
    exact ⟨rfl, (hfold b.nodes a.nodes).1, (hfold b.nodes a.nodes).2⟩

lemma nodesOf_cons (c : Candidate) (rest : List Candidate) (path : String) :
    nodesOf (c :: rest) path = if c.path = path then c.nodes else nodesOf rest path := by
  unfold nodesOf find?
  by_cases h : c.path = path <;> simp [h]

variable {out : List Candidate}

/-- A list of candidates keeps its nodes when another one is united with it. -/
lemma mergeOne_union_keeps {new : Candidate} {ps : List Candidate}
    (h : mergeOne union new ps = .ok out) :
    (∀ path, nodesOf ps path ⊆ nodesOf out path) ∧ new.nodes ⊆ nodesOf out new.path := by
  induction ps generalizing out with
  | nil =>
    cases h
    refine ⟨fun path n hn => (nomatch hn), ?_⟩
    rw [nodesOf_cons, if_pos rfl]
    exact fun n hn => hn
  | cons c rest ih =>
    rw [mergeOne] at h
    split at h
    · next hpath =>
      simp only [except_bind_ok_iff] at h
      obtain ⟨r, hr, h⟩ := h
      cases h
      obtain ⟨hrpath, hc, hnew⟩ := union_keeps hr
      refine ⟨fun path => ?_, ?_⟩
      · rw [nodesOf_cons, nodesOf_cons, hrpath]
        split
        · exact hc
        · exact fun n hn => hn
      · rw [nodesOf_cons, hrpath, if_pos hpath]
        exact hnew
    · next hpath =>
      simp only [except_bind_ok_iff] at h
      obtain ⟨tail, htail, h⟩ := h
      cases h
      obtain ⟨hkept, hnew⟩ := ih htail
      refine ⟨fun path => ?_, ?_⟩
      · rw [nodesOf_cons, nodesOf_cons]
        split
        · exact fun n hn => hn
        · exact hkept path
      · rw [nodesOf_cons, if_neg hpath]
        exact hnew

/-- **Uniting lists of candidates loses no nodes.** -/
lemma mergeUnion_keeps {groups : List (List Candidate)} (h : mergeUnion groups = .ok out)
    {group : List Candidate} (hgroup : group ∈ groups) (path : String) :
    nodesOf group path ⊆ nodesOf out path := by
  have hfold : ∀ (ps acc : List Candidate),
      ps.foldlM (fun acc c => mergeOne union c acc) acc = .ok out →
      (∀ path, nodesOf acc path ⊆ nodesOf out path) ∧ ∀ c ∈ ps, c.nodes ⊆ nodesOf out c.path := by
    intro ps
    induction ps with
    | nil =>
      intro acc h
      cases h
      exact ⟨fun path n hn => hn, nofun⟩
    | cons c rest ih =>
      intro acc h
      rw [foldlM_cons, except_bind_ok_iff] at h
      obtain ⟨acc', hacc, h⟩ := h
      obtain ⟨hkept, hnew⟩ := mergeOne_union_keeps hacc
      obtain ⟨hrest, hmem⟩ := ih acc' h
      exact ⟨fun path n hn => hrest path (hkept path hn),
        forall_mem_cons.2 ⟨fun n hn => hrest c.path (hnew hn), hmem⟩⟩
  intro n hn
  unfold nodesOf at hn
  split at hn
  · next c hc =>
    have hmem := mem_of_find?_eq_some hc
    have hpath : c.path = path := by simpa using find?_some hc
    rw [← hpath]
    exact (hfold _ _ h).2 c (mem_flatten.2 ⟨group, hgroup, hmem⟩) hn
  · cases hn

end Candidate

namespace Match

variable {ctx : Context}

/-! ## The nodes below an operator -/

variable {f : Findings} {notes : List Event} {op : MatchOp} {c : Candidate} {models : List ModelId}
  {site : Site} {elements : List Operand} {w : Operand}

/-- Values that are no conditions leave the properties as they are. -/
lemma elementsProperties_values {properties : List Candidate}
    {groups : List (List Candidate)} (hvalues : ∀ e ∈ elements, e.isExpression = false)
    (h : elementsProperties ctx models false site properties elements = ⟨.ok groups, notes⟩) :
    groups = elements.map fun _ => properties := by
  induction elements generalizing groups notes with
  | nil =>
    cases h
    rfl
  | cons e rest ih =>
    obtain ⟨he, hrest⟩ := forall_mem_cons.1 hvalues
    cases e with
    | expression cs => cases he
    | _ =>
      simp only [elementsProperties, Bool.false_eq_true, if_false, bind_ok_iff] at h
      first
      | obtain ⟨_, _, _, hpure, ⟨tail, m, n, htail, h, -⟩, -⟩ := h
        cases hpure
        cases h
        rw [ih hrest htail]
        rfl
      | obtain ⟨tail, m, n, htail, h, -⟩ := h
        cases h
        rw [ih hrest htail]
        rfl

/-- A literal, or a list of values. -/
def IsValue : Operand → Prop
  | .simple _ => True
  | .array elements => ∀ e ∈ elements, e.isExpression = false
  | _ => False

/-- A value leaves the properties as they are; an empty list leaves none. -/
lemma componentProperties_value (hw : IsValue w) :
    (∀ properties out notes, componentProperties ctx site models w properties = ⟨.ok out, notes⟩ →
      ∀ path, Candidate.nodesOf properties path ⊆ Candidate.nodesOf out path) ∨
    ∀ properties out notes, componentProperties ctx site models w properties = ⟨.ok out, notes⟩ →
      out = [] := by
  cases w with
  | simple x =>
    refine .inl fun properties out notes h path n hn => ?_
    cases h
    exact hn
  | array elements =>
    have hmerged : ∀ properties out notes,
        componentProperties ctx site models (.array elements) properties = ⟨.ok out, notes⟩ →
        Candidate.mergeUnion (elements.map fun _ => properties) = .ok out := by
      intro properties out notes h
      simp only [componentProperties, bind_ok_iff] at h
      obtain ⟨groups, m, n, hgroups, h, -⟩ := h
      rw [← elementsProperties_values hw hgroups]
      exact congrArg result h
    cases elements with
    | nil =>
      refine .inr fun properties out notes h => ?_
      cases hmerged properties out notes h
      rfl
    | cons e rest =>
      exact .inl fun properties out notes h =>
        Candidate.mergeUnion_keeps (hmerged properties out notes h) mem_cons_self
  | _ => exact False.elim hw

section

variable {trail : Trail} (hroot : trail.site.isRoot = false) {element index : Nat} {key : String}
  (hop : MatchOp.ofKey? key = some op) {w : Operand}

include hroot hop

lemma property_operator
    (h : (trail.child ctx element index key w).property = ⟨.ok (some c), notes⟩) :
    ∃ models above once twice m n, componentProperties ctx (trail.site.child key) models w above =
        ⟨.ok once, m⟩ ∧
      componentProperties ctx (trail.site.child key) models w once = ⟨.ok twice, n⟩ ∧
      trailNodes trail = Candidate.nodesOf above trail.site.propertyPath ∧
      Candidate.find? twice trail.site.propertyPath = some c := by
  cases trail with
  | nil => cases h
  | cons f rest =>
    simp only [Trail.child, Trail.property, bind_ok_iff] at h
    obtain ⟨twice, _, _, hprops, hfind, -⟩ := h
    simp only [Thunk.get, Trail.narrowTwice, mapNotes_ok_iff, of_eq, bind_ok_iff] at hprops
    obtain ⟨_, ⟨models, _, _, -, ⟨above, m, _, habove, ⟨once, m', n', honce, htwice, -⟩, -⟩, -⟩, -⟩ :=
      hprops
    have hpath : (f.site.child key).propertyPath = f.site.propertyPath :=
      propertyPath_operator hroot hop
    have hfound : Candidate.find? twice f.site.propertyPath = some c := by
      injection hfind with hfind _
      rw [← hpath]
      exact Except.ok.inj hfind
    refine ⟨models, above, once, twice, m', n', honce, htwice, ?_, hfound⟩
    have habove' : f.properties.get = ⟨.ok above, m⟩ := habove
    simp only [trailNodes, Trail.property, habove', Trail.site, ok_bind, pure_eq]
    unfold Candidate.nodesOf
    cases Candidate.find? above f.site.propertyPath <;> rfl

/-- A list of values has no fewer candidates than what is around it. -/
lemma trailNodes_value (hw : IsValue w)
    (h : (trail.child ctx element index key w).property = ⟨.ok (some c), notes⟩) :
    trailNodes trail ⊆ c.nodes := by
  obtain ⟨models, above, once, twice, m, n, honce, htwice, habove, hc⟩ :=
    property_operator hroot hop h
  rcases componentProperties_value hw with hkeeps | hnone
  · have hnodes : c.nodes = Candidate.nodesOf twice trail.site.propertyPath := by
      rw [Candidate.nodesOf, hc]
    rw [habove, hnodes]
    exact List.Subset.trans (hkeeps _ _ _ honce _) (hkeeps _ _ _ htwice _)
  · rw [hnone _ _ _ htwice] at hc
    cases hc

lemma trailNodes_literal {w : Json}
    (h : (trail.child ctx element index key (.simple w)).property = ⟨.ok (some c), notes⟩) :
    trailNodes trail = c.nodes := by
  obtain ⟨models, above, once, twice, m, n, honce, htwice, habove, hc⟩ :=
    property_operator hroot hop h
  cases honce
  cases htwice
  rw [habove, Candidate.nodesOf, hc]

end

/-! ## Addresses -/

lemma vettedBelow_childrenAt {key : String} (h : Vetted ctx key w) (element : Nat) :
    VettedBelow ctx key (childrenAt w element) := by
  unfold childrenAt
  split
  · exact h.2
  · split
    · next hget => exact (vettedAmong_iff.1 h.2 _ (mem_of_getElem? hget)).2
    · trivial
  · trivial

/-- The component at an address below another one. -/
def follow (ctx : Context) : List Nat → Trail → Operand → Option (Trail × Operand)
  | [], trail, v => some (trail, v)
  | element :: index :: rest, trail, v =>
    match (childrenAt v element)[index]? with
    | some (key, w) => follow ctx rest (trail.child ctx element index key w) w
    | none => none
  | [_], _, _ => none

section

variable (ctx) (root : Trail) (v : Operand)

/-- A component is found where its address says. -/
structure Located (trail : Trail) (w : Operand) : Prop where
  ne_nil : trail ≠ []
  follow : ∀ rest, follow ctx (trail.address ++ rest) root v = follow ctx rest trail w

/-- An address marks no `$elemMatch` that compares anything but references. -/
def MarksReferences (a : List Nat) : Prop :=
  ∀ trail w, follow ctx a root v = some (trail, w) → trail.site.key = "$elemMatch" →
    ∀ id ∈ trailNodes trail, (ctx.catalog.node id).type = .reference

/-- No `$elemMatch` but the component itself is marked with it. -/
def Sole (trail : Trail) : Prop :=
  ∀ a ∈ trail.referenced, ∀ other w, follow ctx a root v = some (other, w) →
    other.site.key = "$elemMatch" → other = trail

end

variable {root trail t : Trail} {v w x : Operand} {element index : Nat} {key : String}
  {cs rest : Children}

lemma Located.here (h : Located ctx root v trail w) :
    Match.follow ctx trail.address root v = some (trail, w) := by
  simpa [Match.follow] using h.follow []

lemma address_child (htrail : trail ≠ []) (element index : Nat) (key : String) (w : Operand) :
    (trail.child ctx element index key w).address = trail.address ++ [element, index] := by
  cases trail with
  | nil => exact absurd rfl htrail
  | cons f rest => rfl

lemma Located.child (h : Located ctx root v trail w) {done : Children}
    (hchildren : childrenAt w element = done ++ (key, x) :: rest) :
    Located ctx root v (trail.child ctx element done.length key x) x where
  ne_nil := child_ne_nil h.ne_nil _ _ _ _
  follow tail := by
    rw [address_child h.ne_nil, append_assoc, h.follow]
    simp [Match.follow, hchildren]

/-! ## Components of a match -/

/-- The key above the children of a component. -/
def Trail.holder (t : Trail) : String := if t.site.isRoot then "$match" else t.site.key

lemma key_of_holder (h : holdsFields t.holder = false) :
    t.site.isRoot = false ∧ t.site.key = t.holder := by
  unfold Trail.holder at h ⊢
  split at h
  · cases h
  · next hroot => exact ⟨by simpa using hroot, by rw [if_neg hroot]⟩

section

variable (ctx) (root : Trail) (v : Operand)

/-- A component below another one, with a key and a value that passed. -/
inductive Component : Trail → Operand → Prop
  | child {trail : Trail} {w x : Operand} {element : Nat} {done rest : Children}
      {key : String} : Located ctx root v trail w →
      childrenAt w element = done ++ (key, x) :: rest → VettedKey ctx trail.holder key →
      Vetted ctx key x → Component (trail.child ctx element done.length key x) x

/-- The keys and values of an object, from a position on. -/
def Below (trail : Trail) (element : Nat) : Nat → Children → Prop
  | _, [] => True
  | index, (key, x) :: rest => Component ctx root v (trail.child ctx element index key x) x ∧
    Below trail element (index + 1) rest

/-- The elements of a list, from a position on. -/
def Among (trail : Trail) : Nat → List Operand → Prop
  | _, [] => True
  | element, x :: rest => (Below ctx root v trail element 0 x.children ∧
    Vetted ctx trail.holder x ∧ ∀ xs, x ≠ .array xs) ∧ Among trail (element + 1) rest

end

lemma Located.below (h : Located ctx root v trail w) (done : Children)
    (hchildren : childrenAt w element = done ++ cs) (hcs : VettedBelow ctx trail.holder cs) :
    Below ctx root v trail element done.length cs := by
  induction cs generalizing done with
  | nil => trivial
  | cons c rest ih =>
    refine ⟨.child h hchildren hcs.1.1 hcs.1.2, ?_⟩
    have hrest := ih (done ++ [c]) (by rw [hchildren, append_assoc]; rfl) hcs.2
    rwa [length_append] at hrest

namespace Component

variable (h : Component ctx root v t x)

include h

lemma located : Located ctx root v t x := by
  obtain ⟨hw, hchildren, -, -⟩ := h
  exact hw.child hchildren

lemma holder_eq : t.holder = t.site.key := by
  obtain ⟨hw, -, -, -⟩ := h
  rw [Trail.holder, site_child hw.ne_nil]
  rfl

lemma vettedKey : VettedKey ctx t.parent.holder t.site.key := by
  obtain ⟨hw, -, hkey, -⟩ := h
  rwa [parent_child hw.ne_nil, site_child hw.ne_nil]

lemma vetted : Vetted ctx t.site.key x := by
  obtain ⟨hw, -, -, hx⟩ := h
  rwa [site_child hw.ne_nil]

lemma isField (hop : t.site.matchOp? = none) : Path.isOperator t.site.key = false := by
  cases hkey : Path.isOperator t.site.key with
  | false => rfl
  | true =>
    obtain ⟨op, hop', -⟩ := h.vettedKey.operator hkey
    rw [Site.matchOp?, hop'] at hop
    cases hop

lemma stands (hop : t.site.matchOp? = some op) : Stands op t.parent.holder := by
  have hkey : Path.isOperator t.site.key = true := by
    rw [← MatchOp.key_of_ofKey? hop]
    exact MatchOp.isOperator_key op
  obtain ⟨op', hop', -, hstands⟩ := h.vettedKey.operator hkey
  cases hop.symm.trans hop'
  exact hstands

lemma below (element : Nat) : Below ctx root v t element 0 (childrenAt x element) :=
  h.located.below [] rfl (by rw [h.holder_eq]; exact vettedBelow_childrenAt h.vetted element)

end Component

lemma Component.among (h : Component ctx root v t (.array elements)) :
    Among ctx root v t 0 elements := by
  have hrest : ∀ done rest, elements = done ++ rest → VettedAmong ctx t.site.key rest →
      Among ctx root v t done.length rest := by
    intro done rest hall hvetted
    induction rest generalizing done with
    | nil => trivial
    | cons x rest ih =>
      refine ⟨⟨?_, by rw [h.holder_eq]; exact hvetted.1, ?_⟩, ?_⟩
      · have hbelow := h.below done.length
        have hchildren : childrenAt (.array elements) done.length = x.children := by
          cases x <;> simp [childrenAt, hall, Operand.children]
        rwa [hchildren] at hbelow
      · rintro xs rfl
        exact absurd (hall ▸ mem_append_right _ mem_cons_self) h.vetted.1.array_notMem
      · have hnext := ih (done ++ [x]) (by rw [hall, append_assoc]; rfl) hvetted.2
        rwa [length_append] at hnext
  exact hrest [] elements rfl h.vetted.2

lemma below_root (hcs : VettedBelow ctx "$match" cs) :
    Below ctx (Trail.root ctx (.expression cs)) (.expression cs) (Trail.root ctx (.expression cs)) 0 0
      cs :=
  Located.below (w := .expression cs) ⟨root_ne_nil ctx _, fun _ => rfl⟩ [] rfl hcs

section

variable (h : Component ctx root v (trail.child ctx element index key w) x)

include h

lemma ne_nil_of_component : trail ≠ [] := by
  rintro rfl
  exact h.located.ne_nil rfl

lemma parent_of_component : (trail.child ctx element index key w).parent = trail :=
  parent_child (ne_nil_of_component h) element index key w

lemma key_of_component : (trail.child ctx element index key w).site.key = key := by
  rw [site_child (ne_nil_of_component h)]
  rfl

end

/-! ## Marks -/

/-- Below a key that holds no fields, marks reach at most one `$elemMatch`. -/
def Alone (ctx : Context) (root : Trail) (v : Operand) (t : Trail) : Prop :=
  holdsFields t.holder = false → Sole ctx root v t

lemma not_holdsFields {holder : String} (h : Stands op holder) (hop : op ≠ .and ∧ op ≠ .or) :
    holdsFields holder = false := by
  cases hholds : holdsFields holder with
  | false => rfl
  | true =>
    have hnot := isOperator_of_holdsFields hholds
    have hne : holder ≠ "$all" ∧ holder ≠ "$elemMatch" := by
      rcases holdsFields_cases hholds with rfl | rfl | rfl <;> decide
    cases op <;> simp_all [Stands]

section

variable (h : Component ctx root v t x)

include h

/-- What a component is marked with: itself, and what is around it if it is an operator. -/
lemma Component.mem_referenced {a : List Nat} (ha : a ∈ t.referenced) :
    a = t.address ∨ ∃ op, t.site.matchOp? = some op ∧ a ∈ t.parent.referenced := by
  have hkey := h.vettedKey
  obtain @⟨trail, _, _, _, _, _, _, hw, -, -, -⟩ := h
  cases trail with
  | nil => exact absurd rfl hw.ne_nil
  | cons g rest =>
    simp only [Trail.child, Trail.referenced, mem_cons] at ha
    rcases ha with ha | ha
    · exact .inl ha
    · split at ha
      · next hop =>
        obtain ⟨op, hop, -⟩ := hkey.operator (Bool.and_eq_true_iff.1 hop).1
        exact .inr ⟨op, hop, ha⟩
      · cases ha

/-- A field or an operator that holds conditions on elements is marked with no other
`$elemMatch`. -/
lemma Component.alone (habove : Alone ctx root v t.parent)
    (hholds : ∀ op, t.site.matchOp? = some op → op ∈ [MatchOp.and, .or, .all, .elemMatch]) :
    Alone ctx root v t := by
  intro hfields a ha other w hother helem
  rcases h.mem_referenced ha with rfl | ⟨op, hop, ha⟩
  · rw [h.located.here] at hother
    cases hother
    rfl
  · have hstands := h.stands hop
    have hopkey := MatchOp.key_of_ofKey? hop
    have hnot : op ≠ .and ∧ op ≠ .or := by
      rw [h.holder_eq, ← hopkey] at hfields
      constructor <;> rintro rfl <;> exact absurd hfields (by decide)
    have hholder := not_holdsFields hstands hnot
    have heq := habove hholder a ha other w hother helem
    -- neither `$all` nor `$elemMatch` stands below an `$elemMatch`
    rw [heq, (key_of_holder hholder).2] at helem
    rw [helem] at hstands
    have hmem := hholds op hop
    simp only [mem_cons, not_mem_nil, or_false] at hmem
    rcases hmem with rfl | rfl | rfl | rfl
    · exact absurd rfl hnot.1
    · exact absurd rfl hnot.2
    iterate 2
      · exact absurd hstands (by unfold Stands; decide +kernel)

/-- **A component that compares references marks only what does so too.** -/
lemma Component.marks (habove : Alone ctx root v t.parent)
    (hne : t.site.key ∉ ["$and", "$or", "$elemMatch"])
    (hnodes : ∀ id ∈ trailNodes t, (ctx.catalog.node id).type = .reference)
    (haround : ∀ op, t.site.matchOp? = some op → t.parent.holder = "$elemMatch" →
      trailNodes t.parent ⊆ trailNodes t) :
    ∀ a ∈ t.referenced, MarksReferences ctx root v a := by
  intro a ha other w hother helem
  simp only [mem_cons, not_mem_nil, or_false, not_or] at hne
  rcases h.mem_referenced ha with rfl | ⟨op, hop, ha⟩
  · rw [h.located.here] at hother
    cases hother
    exact absurd helem hne.2.2
  · have hopkey := MatchOp.key_of_ofKey? hop
    have hnot : op ≠ .and ∧ op ≠ .or := by
      constructor <;> rintro rfl
      · exact hne.1 hopkey.symm
      · exact hne.2.1 hopkey.symm
    have hholder := not_holdsFields (h.stands hop) hnot
    have heq := habove hholder a ha other w hother helem
    rw [heq] at helem ⊢
    rw [(key_of_holder hholder).2] at helem
    exact fun id hid => hnodes id (haround op hop helem hid)

/-! ## The check -/

end

lemma checkNodes_marks {ids : List NodeId} (h : checkNodes ctx trail ids = ⟨.ok f, notes⟩) :
    ∀ a ∈ f.references,
      a ∈ trail.referenced ∧ ∃ id ∈ ids, (ctx.catalog.node id).type = .reference := by
  induction ids generalizing f notes with
  | nil =>
    cases h
    exact nofun
  | cons id rest ih =>
    simp only [checkNodes, bind_ok_iff, guard_ok_iff] at h
    obtain ⟨_, m, n, -, ⟨-, g, m', n', hrest, hf, -⟩, -⟩ := h
    cases hf
    intro a ha
    rcases mem_append.1 ha with ha | ha
    · dsimp only at ha
      split at ha
      · next htype => exact ⟨ha, id, mem_cons_self, htype⟩
      · cases ha
    · obtain ⟨hmem, other, hother, htype⟩ := ih hrest a ha
      exact ⟨hmem, other, mem_cons_of_mem _ hother, htype⟩

/-- A path either has references only or none, and marks only in the first case. -/
lemma checkProperty_marks (h : checkProperty ctx trail = ⟨.ok f, notes⟩) :
    ∃ c m, trail.property = ⟨.ok (some c), m⟩ ∧ ∀ a ∈ f.references, a ∈ trail.referenced ∧
      trailNodes trail ≠ [] ∧ ∀ id ∈ trailNodes trail, (ctx.catalog.node id).type = .reference := by
  simp only [checkProperty, bind_ok_iff] at h
  obtain ⟨found, m, n, hproperty, h, -⟩ := h
  cases found with
  | none => cases h
  | some c =>
    simp only [bind_ok_iff, guard_ok_iff] at h
    obtain ⟨g, m', n', hnodes, ⟨hmixed, hg⟩, -⟩ := h
    cases hg
    refine ⟨c, m, hproperty, fun a ha => ?_⟩
    obtain ⟨hmem, id, hid, htype⟩ := checkNodes_marks hnodes a ha
    rw [trailNodes_eq (congrArg result hproperty)]
    refine ⟨hmem, ne_nil_of_mem hid, ?_⟩
    have hany : (c.nodes.any fun id => (ctx.catalog.node id).type == .reference) = true :=
      any_eq_true.2 ⟨id, hid, by simpa using htype⟩
    rw [hany, Bool.true_and, Bool.not_eq_true', Bool.not_eq_false] at hmixed
    exact fun other hother => by simpa using all_eq_true.1 hmixed other hother

lemma Component.checkProperty (h : Component ctx root v t x) (habove : Alone ctx root v t.parent)
    (hne : t.site.key ∉ ["$and", "$or", "$elemMatch"])
    (hvalue : t.site.matchOp?.isSome = true → t.parent.holder = "$elemMatch" → IsValue x)
    (hcheck : (checkProperty ctx t).result = .ok f) :
    ∀ a ∈ f.references, MarksReferences ctx root v a := by
  obtain ⟨c, m, hproperty, hmarks⟩ := checkProperty_marks (eq_ok_of_result hcheck)
  intro a ha
  obtain ⟨hmem, -, hnodes⟩ := hmarks a ha
  refine h.marks habove hne hnodes (fun op hop helem => ?_) a hmem
  replace hvalue := hvalue (by rw [hop]; rfl) helem
  have hroot := (key_of_holder (by rw [helem]; decide : holdsFields t.parent.holder = false)).1
  rw [trailNodes_eq (congrArg result hproperty)]
  obtain ⟨hw, -, -, -⟩ := h
  rw [parent_child hw.ne_nil] at hroot ⊢
  rw [site_child hw.ne_nil] at hop
  exact trailNodes_value hroot hop hvalue hproperty

mutual

lemma checkComponent_marks : ∀ (x : Operand) (t : Trail) (f : Findings),
    Component ctx root v t x → Alone ctx root v t.parent →
    (checkComponent ctx t x).result = .ok f → ∀ a ∈ f.references, MarksReferences ctx root v a
  | .variable name, t, f, hx, habove, h => by
    rw [checkComponent] at h
    split at h
    · cases h
      exact nofun
    · next hnone =>
      have hfield := hx.isField (by simpa using hnone)
      refine hx.checkProperty habove (fun hmem => ?_) (fun hop => absurd hop hnone) h
      rw [(by decide +kernel : ∀ k ∈ ["$and", "$or", "$elemMatch"], Path.isOperator k = true)
        _ hmem] at hfield
      cases hfield
  | .expression cs, t, f, hx, habove, h => by
    refine checkChildren_marks cs t 0 0 f (hx.below 0) (hx.alone habove fun op hop => ?_) h
    have hopkey := MatchOp.key_of_ofKey? hop
    have hmem := hx.vetted.1 (by rw [← hopkey]; exact MatchOp.isOperator_key op)
    rw [← hopkey] at hmem
    revert hmem
    cases op <;> decide
  | .array elements, t, f, hx, habove, h => by
    rw [checkComponent] at h
    cases hop : t.site.matchOp? with
    | none =>
      rw [hop] at h
      cases h
    | some op =>
      rw [hop] at h
      have hopkey := MatchOp.key_of_ofKey? hop
      have hlist := hx.vetted.1
      have halone : op ∈ [MatchOp.and, .or, .all, .elemMatch] → Alone ctx root v t := by
        refine fun hmem => hx.alone habove fun op' hop' => ?_
        cases hop.symm.trans hop'
        exact hmem
      have hleaf : op ∉ [MatchOp.and, .or, .all, .elemMatch] →
          (checkProperty ctx t).result = .ok f → ∀ a ∈ f.references, MarksReferences ctx root v a := by
        intro hmem hcheck
        have hkeys : t.site.key ∉ ["$and", "$or", "$elemMatch"] ∧
            t.site.key ∉ ["$and", "$or", "$all"] := by
          rw [← hopkey]
          revert hmem
          cases op <;> decide
        exact hx.checkProperty habove hkeys.1 (fun _ _ => hlist.not_expression hkeys.2) hcheck
      cases op
      case and | or =>
        have hsimple : ∀ e ∈ elements, e.isSimple = false := by
          intro e he
          rcases (hlist.conditions (by rw [← hopkey]; decide)).2 e he with hexpr | hvariable
          · cases e <;> first | rfl | cases hexpr
          · cases e <;> first | rfl | cases hvariable
        rw [checkElements_eq hsimple] at h
        exact checkAllElements_marks elements t 0 f hx.among (halone (by decide))
          (fun e he hliteral => absurd hliteral (by rw [hsimple e he]; exact Bool.false_ne_true)) h
      case all =>
        refine checkAllElements_marks elements t 0 f hx.among (halone (by decide))
          (fun _ _ _ g hcheck => ?_) h
        refine hx.checkProperty habove (by rw [← hopkey]; decide) (fun _ heq => ?_) hcheck
        have hstands : Path.isOperator t.parent.holder = false := hx.stands hop
        rw [heq] at hstands
        exact absurd hstands (by decide +kernel)
      case elemMatch =>
        cases h
        exact nofun
      case oneOf | noneOf =>
        dsimp only at h
        split at h
        · cases h
          exact nofun
        · exact hleaf (by decide) h
      all_goals exact hleaf (by decide) h
  | .simple w, t, f, hx, habove, h => by
    have hleaf : t.site.key ∉ ["$and", "$or", "$elemMatch"] → ∀ {g : Findings},
        (checkProperty ctx t).result = .ok g → ∀ a ∈ g.references, MarksReferences ctx root v a :=
      fun hne g hcheck => hx.checkProperty habove hne (fun _ _ => trivial) hcheck
    rw [checkComponent] at h
    · split at h
      case h_1 =>
        next hop =>
        simp only [result_bind_ok_iff] at h
        obtain ⟨g, hg, _, -, hf⟩ := h
        cases hf
        exact hleaf (by rw [← MatchOp.key_of_ofKey? hop]; decide) hg
      case h_8 =>
        next _ _ hand hor helem _ _ =>
        refine hleaf (fun hmem => ?_) h
        simp only [mem_cons, not_mem_nil, or_false] at hmem
        rcases hmem with hkey | hkey | hkey
        · exact hand (by rw [Site.matchOp?, hkey]; rfl)
        · exact hor (by rw [Site.matchOp?, hkey]; rfl)
        · exact helem (by rw [Site.matchOp?, hkey]; rfl)
      all_goals
        cases h
        exact nofun
    all_goals exact nofun
  | .property _, _, _, hx, _, _
  | .raw _, _, _, hx, _, _ => False.elim hx.vetted

lemma checkChildren_marks : ∀ (cs : Children) (t : Trail) (element index : Nat)
    (f : Findings), Below ctx root v t element index cs → Alone ctx root v t →
    (checkChildren ctx t element index cs).result = .ok f →
    ∀ a ∈ f.references, MarksReferences ctx root v a
  | [], _, _, _, f, _, _, h => by
    cases h
    exact nofun
  | (key, x) :: rest, t, element, index, f, ⟨hx, hrest⟩, halone, h => by
    simp only [checkChildren, result_bind_ok_iff] at h
    obtain ⟨first, hfirst, g, hg, hf⟩ := h
    cases hf
    intro a ha
    rcases mem_append.1 ha with ha | ha
    · exact checkComponent_marks x _ first hx (by rw [parent_of_component hx]; exact halone) hfirst a ha
    · exact checkChildren_marks rest t element (index + 1) g hrest halone hg a ha

lemma checkAllElements_marks : ∀ (elements : List Operand) (t : Trail) (element : Nat)
    (f : Findings), Among ctx root v t element elements → Alone ctx root v t →
    (∀ e ∈ elements, e.isSimple = true → ∀ g, (checkProperty ctx t).result = .ok g →
      ∀ a ∈ g.references, MarksReferences ctx root v a) →
    (checkAllElements ctx t element elements).result = .ok f →
    ∀ a ∈ f.references, MarksReferences ctx root v a
  | [], _, _, f, _, _, _, h => by
    cases h
    exact nofun
  | x :: rest, t, element, f, ⟨⟨hbelow, _⟩, hrest⟩, halone, hself, h => by
    obtain ⟨hx, hlater⟩ := forall_mem_cons.1 hself
    cases x with
    | expression cs =>
      simp only [checkAllElements, result_bind_ok_iff] at h
      obtain ⟨first, hfirst, g, hg, hf⟩ := h
      cases hf
      intro a ha
      rcases mem_append.1 ha with ha | ha
      · exact checkChildren_marks cs t element 0 first hbelow halone hfirst a ha
      · exact checkAllElements_marks rest t (element + 1) g hrest halone hlater hg a ha
    | simple x => exact hx rfl f h
    | _ => exact checkAllElements_marks rest t (element + 1) f hrest halone hlater h

end

/-- **Marks are right**: a marked `$elemMatch` compares nothing but references. -/
lemma validate_marks {findings : Findings} (hcs : VettedBelow ctx "$match" cs)
    (h : validate ctx (Trail.root ctx (.expression cs)) (.expression cs) = ⟨.ok findings, notes⟩) :
    ∀ a ∈ findings.references,
      MarksReferences ctx (Trail.root ctx (.expression cs)) (.expression cs) a := by
  have hroot : Alone ctx (Trail.root ctx (.expression cs)) (.expression cs)
      (Trail.root ctx (.expression cs)) := nofun
  exact checkChildren_marks cs _ 0 0 findings (below_root hcs) hroot (congrArg result h)

end Match

end Conduit
