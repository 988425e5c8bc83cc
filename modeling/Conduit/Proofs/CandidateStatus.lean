import Conduit.Proofs.OrderlessNarrowing
import Mathlib.Data.Fintype.Option
import Mathlib.Data.List.Fold

/-!
# Candidates as sets

The nodes of a candidate are listed, but stand for a set.  For each path and node, a list of
candidates has a status: the node is left, or it is ruled out, or the path has no candidate.
Lists are merged status by status, and a list without the path has no say (`merge_clean`).

Where all lists mark the same paths as arrays, merging does not fail.
-/

namespace Conduit

open List

/-! ## Failures -/

/-- A computation succeeds with a value that has a property, or fails for another reason than that
candidates cannot be merged. -/
inductive Spares {α : Type} (P : α → Prop) : Except CompileError α → Prop
  | ok {a : α} (h : P a) : Spares P (.ok a)
  | error {e : CompileError} (h : e.fault.isMerge = false) : Spares P (.error e)

namespace Spares

variable {α β ν : Type} {P : α → Prop} {Q : β → Prop} {a : α} {x : Except CompileError α}
  {f : α → Except CompileError β} {c : Prop} {e : CompileError} {y : Journaled ν α}

lemma of_ok (h : Spares P (.ok a)) : P a := by
  cases h with
  | ok h => exact h

lemma imp {R : α → Prop} (h : Spares P x) (himp : ∀ a, x = .ok a → P a → R a) : Spares R x := by
  cases h with
  | ok h => exact .ok (himp _ rfl h)
  | error h => exact .error h

lemma bind (h : Spares P x) (hf : ∀ a, x = .ok a → P a → Spares Q (f a)) : Spares Q (x >>= f) := by
  cases h with
  | ok h => exact hf _ rfl h
  | error h => exact .error h

lemma map {f : α → β} (h : Spares P x) (hf : ∀ a, P a → Q (f a)) : Spares Q (f <$> x) := by
  cases h with
  | ok h => exact .ok (hf _ h)
  | error h => exact .error h

lemma guard [Decidable c] {f : β → Except CompileError α} {y : Except CompileError α}
    (he : e.fault.isMerge = false) (hy : Spares P y) :
    Spares P (if c then (throw e : Except CompileError β) >>= f else y) := by
  split
  · exact .error he
  · exact hy

lemma mapM {xs : List α} (h : ∀ x ∈ xs, Spares Q (f x)) :
    Spares (fun ys => ∀ y ∈ ys, Q y) (xs.mapM f) := by
  induction xs with
  | nil => exact .ok fun _ h => by cases h
  | cons x rest ih =>
    rw [mapM_cons]
    obtain ⟨hx, hrest⟩ := forall_mem_cons.1 h
    exact (hx.bind fun y _ hy => (ih hrest).bind fun ys _ hys => .ok (forall_mem_cons.2 ⟨hy, hys⟩))

lemma pureResult (h : P a) : Spares P (pure a : Journaled ν α).result := .ok h

lemma bindResult {x : Journaled ν α} {f : α → Journaled ν β} (h : Spares P x.result)
    (hf : ∀ a, x.result = .ok a → P a → Spares Q (f a).result) : Spares Q (x >>= f).result := by
  rw [Journaled.result_bind]
  exact h.bind hf

lemma noteResult {n : ν} {f : Unit → Journaled ν α} (h : Spares P (f ()).result) :
    Spares P (Journaled.note n >>= f).result := h

lemma guardResult [Decidable c] {f : β → Journaled ν α} (he : e.fault.isMerge = false)
    (hy : Spares P y.result) :
    Spares P (if c then (throw e : Journaled ν β) >>= f else y).result := by
  split
  · exact .error he
  · exact hy

lemma iteResult [Decidable c] {x : Journaled ν α} (hx : Spares P x.result)
    (hy : Spares P y.result) : Spares P (if c then x else y).result := by
  split
  · exact hx
  · exact hy

end Spares

/-- How lists of candidates are merged: all must leave a node, or one. -/
inductive Junction where
  | conj
  | disj

namespace Junction

def holds : Junction → Bool → Bool → Bool
  | conj => and
  | disj => or

/-- The status of a node in two lists together. -/
def join (j : Junction) : Option Bool → Option Bool → Option Bool := Option.merge j.holds

def combine : Junction → Candidate → Candidate → Except CompileError Candidate
  | conj => Candidate.inter
  | disj => Candidate.union

variable (j : Junction)

lemma join_comm (a b : Option Bool) : j.join a b = j.join b a := by
  cases j <;> revert a b <;> decide

lemma join_assoc (a b c : Option Bool) : j.join (j.join a b) c = j.join a (j.join b c) := by
  cases j <;> revert a b c <;> decide

@[simp] lemma join_none (a : Option Bool) : j.join a none = a := by cases a <;> rfl

@[simp] lemma none_join (a : Option Bool) : j.join none a = a := by cases a <;> rfl

@[simp] lemma join_some (a b : Bool) : j.join (some a) (some b) = some (j.holds a b) := rfl

@[simp] lemma disj_join_true (a : Option Bool) : disj.join (some true) a = some true := by
  cases a <;> rfl

lemma join_self (a : Option Bool) : j.join a a = a := by
  cases j <;> revert a <;> decide

instance : Std.Associative j.join := ⟨j.join_assoc⟩

instance : Std.Commutative j.join := ⟨j.join_comm⟩

end Junction

namespace Candidate

open Match (paths mem_paths)

/-! ## Lists of candidates -/

/-- One candidate for each path, with each node once. -/
structure Distinct (ps : List Candidate) : Prop where
  paths : (paths ps).Nodup
  nodes : ∀ c ∈ ps, c.nodes.Nodup

/-- The status of a node at a path. -/
def status (ps : List Candidate) (path : String) (id : NodeId) : Option Bool :=
  (find? ps path).map fun c => c.nodes.contains id

/-- What the candidate of a path says about being an array. -/
def flag (ps : List Candidate) (path : String) : Option Bool := (find? ps path).bind isArray

/-- The same nodes and the same flag for each path. -/
def SameSets (ps qs : List Candidate) : Prop :=
  ∀ path, Option.Rel (fun c d => c.isArray = d.isArray ∧ ∀ id, id ∈ c.nodes ↔ id ∈ d.nodes)
    (find? ps path) (find? qs path)

/-- Candidates of distinct paths that are marked as arrays by a function. -/
structure Clean (F : String → Option Bool) (ps : List Candidate) : Prop extends Distinct ps where
  flags : ∀ c ∈ ps, c.isArray = F c.path

variable {F : String → Option Bool} {ps qs : List Candidate} {c : Candidate} {path : String}
  {id : NodeId}

lemma find?_cons (c : Candidate) (ps : List Candidate) (path : String) :
    find? (c :: ps) path = if c.path = path then some c else find? ps path := by
  by_cases h : c.path = path <;> simp [find?, h]

lemma mem_of_find? (h : find? ps path = some c) : c ∈ ps ∧ c.path = path :=
  ⟨mem_of_find?_eq_some h, by simpa using find?_some h⟩

lemma find?_eq_none_iff : find? ps path = none ↔ path ∉ paths ps := by
  simp [find?, paths]

lemma status_cons (c : Candidate) (ps : List Candidate) (path : String) (id : NodeId) :
    status (c :: ps) path id =
      if c.path = path then some (c.nodes.contains id) else status ps path id := by
  rw [status, find?_cons]
  split <;> rfl

lemma isSome_status (id : NodeId) : (status ps path id).isSome = true ↔ path ∈ paths ps := by
  rw [status, Option.isSome_map, Option.isSome_iff_ne_none, ne_eq, find?_eq_none_iff, not_not]

lemma status_eq_none_iff : status ps path id = none ↔ path ∉ paths ps := by
  rw [status, Option.map_eq_none_iff, find?_eq_none_iff]

lemma Distinct.tail (h : Distinct (c :: ps)) : Distinct ps :=
  ⟨(nodup_cons.1 h.paths).2, fun d hd => h.nodes d (mem_cons_of_mem _ hd)⟩

lemma Distinct.find?_of_mem (h : Distinct ps) (hc : c ∈ ps) : find? ps c.path = some c := by
  induction ps with
  | nil => cases hc
  | cons d rest ih =>
    rw [find?_cons]
    rcases mem_cons.1 hc with rfl | hc
    · exact if_pos rfl
    · have hne : d.path ≠ c.path := fun heq => (nodup_cons.1 h.paths).1 (heq ▸ mem_paths hc)
      rw [if_neg hne, ih h.tail hc]

lemma Distinct.clean (h : Distinct ps) : Clean (flag ps) ps :=
  { h with flags := fun c hc => by rw [flag, h.find?_of_mem hc]; rfl }

lemma Clean.tail (h : Clean F (c :: ps)) : Clean F ps :=
  { h.toDistinct.tail with flags := fun d hd => h.flags d (mem_cons_of_mem _ hd) }

lemma clean_nil : Clean F [] where
  paths := nodup_nil
  nodes _ h := by cases h
  flags _ h := by cases h

lemma Clean.cons (h : Clean F ps) (hnew : c.path ∉ paths ps) (hnodes : c.nodes.Nodup)
    (hflag : c.isArray = F c.path) : Clean F (c :: ps) where
  paths := nodup_cons.2 ⟨hnew, h.paths⟩
  nodes := forall_mem_cons.2 ⟨hnodes, h.nodes⟩
  flags := forall_mem_cons.2 ⟨hflag, h.flags⟩

lemma SameSets.of_status (hps : Clean F ps) (hqs : Clean F qs)
    (h : ∀ path id, status ps path id = status qs path id) : SameSets ps qs := by
  intro path
  have hpath := h path
  simp only [status] at hpath
  cases hp : find? ps path with
  | none =>
    have hnone := hpath 0
    rw [hp, Option.map_none, eq_comm, Option.map_eq_none_iff] at hnone
    rw [hnone]
    exact .none
  | some c =>
    cases hq : find? qs path with
    | none =>
      have hnone := hpath 0
      rw [hp, hq] at hnone
      cases hnone
    | some d =>
      obtain ⟨hc, hcpath⟩ := mem_of_find? hp
      obtain ⟨hd, hdpath⟩ := mem_of_find? hq
      refine .some ⟨by rw [hps.flags c hc, hqs.flags d hd, hcpath, hdpath], fun id => ?_⟩
      have hid := hpath id
      rw [hp, hq] at hid
      have hcontains : c.nodes.contains id = d.nodes.contains id := Option.some.inj hid
      rw [← contains_iff_mem, ← contains_iff_mem, hcontains]

lemma SameSets.status_eq (h : SameSets ps qs) (path : String) (id : NodeId) :
    status ps path id = status qs path id := by
  have hpath := h path
  rw [status, status]
  generalize find? ps path = a, find? qs path = b at hpath
  cases hpath with
  | none => rfl
  | some hcd =>
    refine congrArg some ?_
    rw [Bool.eq_iff_iff, contains_iff_mem, contains_iff_mem]
    exact hcd.2 id

/-! ## Merging -/

lemma perm_of_sameNodes {ids : List NodeId} (hids : ids.Nodup) (h : c.sameNodes ids = true) :
    ids ~ c.nodes := by
  simp only [sameNodes, Bool.and_eq_true, beq_iff_eq, all_eq_true, contains_iff_mem] at h
  exact (hids.subperm h.2).perm_of_length_le h.1.le

lemma combine_ok (j : Junction) {a b : Candidate} (hpath : a.path = b.path)
    (hflag : a.isArray = b.isArray) (ha : a.nodes.Nodup) (hb : b.nodes.Nodup) :
    ∃ out, j.combine a b = .ok out ∧ out.path = a.path ∧ out.isArray = a.isArray ∧ out.nodes.Nodup ∧
      ∀ id, out.nodes.contains id = j.holds (a.nodes.contains id) (b.nodes.contains id) := by
  have hcompatible : checkCompatible a b = .ok () := by simp [checkCompatible, hpath, hflag]; rfl
  by_cases hsame : a.sameNodes b.nodes = true
  · refine ⟨a, ?_, rfl, rfl, ha, fun id => ?_⟩
    · cases j <;> simp only [Junction.combine, inter, union, hcompatible, hsame] <;> rfl
    · have hperm := perm_of_sameNodes hb hsame
      have heq : b.nodes.contains id = a.nodes.contains id := by
        rw [Bool.eq_iff_iff, contains_iff_mem, contains_iff_mem, hperm.mem_iff]
      rw [heq]
      cases j <;> simp only [Junction.holds, Bool.and_self, Bool.or_self]
  · cases j with
    | conj =>
      refine ⟨{ a with nodes := a.nodes.filter b.nodes.contains }, ?_, rfl, rfl, ha.filter _,
        fun id => ?_⟩
      · simp only [Junction.combine, inter, hcompatible]
        rw [if_neg hsame]
        rfl
      · rw [Bool.eq_iff_iff]
        simp [Junction.holds]
    | disj =>
      refine ⟨⟨a.path, b.nodes.foldl (fun ns n => if ns.contains n then ns else ns ++ [n]) a.nodes,
        a.isArray⟩, ?_, rfl, rfl, Match.nodup_foldl_addNew b.nodes a.nodes ha, fun id => ?_⟩
      · simp only [Junction.combine, union, hcompatible]
        rw [if_neg hsame]
        rfl
      · rw [Bool.eq_iff_iff, contains_iff_mem, Match.mem_foldl_addNew]
        simp [Junction.holds]

variable (j : Junction)

lemma mergeOne_clean (hps : Clean F ps) (hnodes : c.nodes.Nodup) (hflag : c.isArray = F c.path) :
    ∃ out, mergeOne j.combine c ps = .ok out ∧ Clean F out ∧
      ∀ path id, status out path id = j.join (status ps path id) (status [c] path id) := by
  induction ps with
  | nil =>
    refine ⟨[c], rfl, clean_nil.cons not_mem_nil hnodes hflag, fun path id => ?_⟩
    exact (j.none_join _).symm
  | cons d rest ih =>
    rw [mergeOne]
    have hd := hps.flags d mem_cons_self
    have hnew := (nodup_cons.1 hps.paths).1
    by_cases hpath : d.path = c.path
    · obtain ⟨e, he, hepath, heflag, henodes, hholds⟩ := combine_ok j hpath
        (by rw [hd, hflag, hpath]) (hps.nodes d mem_cons_self) hnodes
      refine ⟨e :: rest, ?_, hps.tail.cons (by rwa [hepath]) henodes (by rw [heflag, hepath, hd]),
        fun path id => ?_⟩
      · rw [if_pos hpath, he]; rfl
      · simp only [status_cons, hepath, ← hpath]
        split
        · rw [hholds, Junction.join_some]
        · exact (j.join_none _).symm
    · obtain ⟨out, hout, hclean, hstatus⟩ := ih hps.tail
      refine ⟨d :: out, ?_, hclean.cons ?_ (hps.nodes d mem_cons_self) hd, fun path id => ?_⟩
      · rw [if_neg hpath, hout]; rfl
      · rw [← @status_eq_none_iff _ _ 0, hstatus, status_eq_none_iff.2 hnew, status_cons,
          if_neg (Ne.symm hpath)]
        rfl
      · rw [status_cons, status_cons d, hstatus]
        by_cases hq : d.path = path
        · rw [if_pos hq, if_pos hq, status_cons, if_neg fun h => hpath (hq.trans h.symm)]
          exact (j.join_none _).symm
        · rw [if_neg hq, if_neg hq]

lemma foldlM_clean {cs acc : List Candidate} (hacc : Clean F acc)
    (hcs : ∀ c ∈ cs, c.nodes.Nodup ∧ c.isArray = F c.path) :
    ∃ out, cs.foldlM (fun acc c => mergeOne j.combine c acc) acc = .ok out ∧ Clean F out ∧
      ∀ path id, status out path id =
        (cs.map fun c => status [c] path id).foldl j.join (status acc path id) := by
  induction cs generalizing acc with
  | nil => exact ⟨acc, rfl, hacc, fun _ _ => rfl⟩
  | cons c rest ih =>
    obtain ⟨hc, hrest⟩ := forall_mem_cons.1 hcs
    obtain ⟨mid, hmid, hclean, hstatus⟩ := mergeOne_clean j hacc hc.1 hc.2
    obtain ⟨out, hout, houtclean, houtstatus⟩ := ih hclean hrest
    refine ⟨out, ?_, houtclean, fun path id => ?_⟩
    · rw [foldlM_cons, hmid]
      exact hout
    · rw [houtstatus, hstatus, map_cons, foldl_cons]

lemma foldl_join_status (hps : Distinct ps) (s : Option Bool) :
    (ps.map fun c => status [c] path id).foldl j.join s = j.join s (status ps path id) := by
  induction ps generalizing s with
  | nil => exact (j.join_none s).symm
  | cons c rest ih =>
    rw [map_cons, foldl_cons, ih hps.tail, j.join_assoc, status_cons c, status_cons c]
    by_cases hpath : c.path = path
    · have hnone : status rest path id = none :=
        status_eq_none_iff.2 (hpath ▸ (nodup_cons.1 hps.paths).1)
      rw [if_pos hpath, if_pos hpath, hnone, j.join_none]
    · rw [if_neg hpath, if_neg hpath]
      exact congrArg _ (j.none_join _)

/-- **Lists that mark the same paths as arrays are merged status by status.** -/
lemma merge_clean {groups : List (List Candidate)} (h : ∀ g ∈ groups, Clean F g) :
    ∃ out, merge j.combine groups = .ok out ∧ Clean F out ∧
      ∀ path id, status out path id = (groups.map fun g => status g path id).foldr j.join none := by
  have hmembers : ∀ c ∈ groups.flatten, c.nodes.Nodup ∧ c.isArray = F c.path := by
    intro c hc
    obtain ⟨g, hg, hc⟩ := mem_flatten.1 hc
    exact ⟨(h g hg).nodes c hc, (h g hg).flags c hc⟩
  obtain ⟨out, hout, hclean, hstatus⟩ := foldlM_clean j clean_nil hmembers
  refine ⟨out, hout, hclean, fun path id => ?_⟩
  have hfold : ∀ s, (groups.flatten.map fun c => status [c] path id).foldl j.join s =
      (groups.map fun g => status g path id).foldl j.join s := by
    clear hout hstatus hmembers
    induction groups with
    | nil => exact fun s => rfl
    | cons g rest ih =>
      obtain ⟨hg, hrest⟩ := forall_mem_cons.1 h
      intro s
      rw [flatten_cons, map_append, foldl_append, foldl_join_status j hg.toDistinct, ih hrest]
      rfl
  rw [hstatus, hfold]
  exact foldl_eq_foldr ..

end Candidate

/-! ## Gathered nodes -/

namespace Catalog

variable {c : Catalog} {found : List NodeId} {n : NodeId}

lemma gatherNodes_eq (models : List ModelId) (path : String) : c.gatherNodes models path =
      (models.flatMap fun m => c.findNodes m path).foldl c.addGathered [] :=
  foldl_flatMap.symm

/-- One more node is new, or stands for one with its qualified path. -/
lemma addGathered_cases (found : List NodeId) (id : NodeId) :
    ((∀ n ∈ found, (c.node n).qualifiedPath ≠ (c.node id).qualifiedPath) ∧
      c.addGathered found id = found ++ [id]) ∨
    ∃ front old rest, found = front ++ old :: rest ∧
      (c.node old).qualifiedPath = (c.node id).qualifiedPath ∧ c.addGathered found id =
        if (c.nodeModel old).typeMaster && (c.nodeModel id).isTypedVariant then front ++ id :: rest
        else found := by
  unfold addGathered
  simp only [span_eq_takeWhile_dropWhile]
  split
  · next hspan =>
    refine .inl ⟨fun n hn heq => ?_, rfl⟩
    have hdrop := dropWhile_eq_nil_iff.1 (Prod.mk.inj hspan).2 n hn
    simp [heq] at hdrop
  · next front old rest hspan =>
    obtain ⟨htake, hdrop⟩ := Prod.mk.inj hspan
    refine .inr ⟨front, old, rest, ?_, ?_, rfl⟩
    · rw [← htake, ← hdrop, takeWhile_append_dropWhile]
    · have hhead := head?_dropWhile_not
        (fun n => !((c.node n).qualifiedPath == (c.node id).qualifiedPath)) found
      rw [hdrop] at hhead
      simpa using hhead

lemma mem_addGathered {id : NodeId} (h : n ∈ c.addGathered found id) : n ∈ found ∨ n = id := by
  rcases addGathered_cases (c := c) found id with
    ⟨-, hadd⟩ | ⟨front, old, rest, hfound, -, hadd⟩
  · rw [hadd] at h
    simpa using h
  · rw [hadd] at h
    split at h
    · rw [hfound]
      simp only [mem_append, mem_cons] at h ⊢
      tauto
    · exact .inl h

lemma mem_foldl_addGathered {ids : List NodeId} (h : n ∈ ids.foldl c.addGathered found) :
    n ∈ found ∨ n ∈ ids := by
  induction ids generalizing found with
  | nil => exact .inl h
  | cons id rest ih =>
    rcases ih h with h | h
    · rcases mem_addGathered h with h | rfl
      · exact .inl h
      · exact .inr (mem_cons_self ..)
    · exact .inr (mem_cons_of_mem _ h)

lemma mem_gatherNodes {models : List ModelId} {path : String}
    (h : n ∈ c.gatherNodes models path) : ∃ m ∈ models, n ∈ c.findNodes m path := by
  rw [gatherNodes_eq] at h
  exact mem_flatMap.1 ((mem_foldl_addGathered h).resolve_left not_mem_nil)

lemma qualifiedPaths_addGathered (found : List NodeId) (id : NodeId) :
    (c.addGathered found id).map (fun n => (c.node n).qualifiedPath) =
      if (c.node id).qualifiedPath ∈ found.map fun n => (c.node n).qualifiedPath
      then found.map fun n => (c.node n).qualifiedPath
      else found.map (fun n => (c.node n).qualifiedPath) ++ [(c.node id).qualifiedPath] := by
  rcases addGathered_cases (c := c) found id with
    ⟨hnew, hadd⟩ | ⟨front, old, rest, rfl, hsame, hadd⟩
  · rw [hadd, if_neg]
    · simp
    · simpa using hnew
  · rw [if_pos (by simp [← hsame]), hadd]
    split <;> simp [hsame]

/-- **The nodes that a path addresses are gathered one for each qualified path.** -/
lemma nodup_qualifiedPaths_gatherNodes (models : List ModelId) (path : String) :
    ((c.gatherNodes models path).map fun n => (c.node n).qualifiedPath).Nodup := by
  have hfold : ∀ ids found : List NodeId, (found.map fun n => (c.node n).qualifiedPath).Nodup →
      ((ids.foldl c.addGathered found).map fun n => (c.node n).qualifiedPath).Nodup := by
    intro ids
    induction ids with
    | nil => exact fun found hfound => hfound
    | cons id rest ih =>
      intro found hfound
      refine ih _ ?_
      rw [qualifiedPaths_addGathered]
      split
      · exact hfound
      · next hnew => exact hfound.append (nodup_singleton _) (by simpa using hnew)
  rw [gatherNodes_eq]
  exact hfold _ [] nodup_nil

lemma nodup_gatherNodes (models : List ModelId) (path : String) :
    (c.gatherNodes models path).Nodup :=
  (nodup_qualifiedPaths_gatherNodes models path).of_map _

end Catalog

end Conduit
