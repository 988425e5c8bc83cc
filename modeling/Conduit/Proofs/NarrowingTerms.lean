import Conduit.Proofs.CandidateStatus

/-!
# Narrowing as a formula

A match narrows properties by a formula: its leaves resolve a path under a demand, and objects,
`$and` and `$or` join what their parts leave.  All leaves look at the properties that the match is
given, and not at what other leaves make of them.  So a pass succeeds when each leaf does, and what
it leaves of a node at a path is the value of the formula: a leaf of another path says what was said
before, and a part that does not mention a path that is new says nothing
(`componentProperties_realizes`).
-/

namespace Conduit

open List Candidate Journaled

namespace Catalog

variable (c : Catalog)

/-- The path of the set that a node lives in. -/
def setPath (id : NodeId) : String := match c.pathParent id with
  | some parent => (c.node parent).path
  | none => ""

/-- The path of the discriminator that a node depends on.  The nodes of a set depend on one, apart
from discriminators. -/
def governor? (id : NodeId) : Option String := match c.discriminatorKey id with
  | none => none
  | some key => if (c.node id).name = key then none else some (c.setPath id ++ "." ++ key)

/-- Whether a node tells the documents of its set apart. -/
def isDiscriminator (id : NodeId) : Bool := c.discriminatorKey id == some (c.node id).name

variable {c} {ps : List Candidate} {id : NodeId}

lemma discriminatorAllows_eq : c.discriminatorAllows ps id =
    (c.governor? id).all fun path => (c.documentName id).all fun name =>
      (find? ps path).all fun p => (p.nodes.filterMap c.documentName).contains name := by
  unfold discriminatorAllows governor?
  cases c.discriminatorKey id with
  | none => rfl
  | some key =>
    dsimp only
    split
    · rfl
    · split
      · next hfind =>
        change find? ps (c.setPath id ++ "." ++ key) = none at hfind
        cases c.documentName id <;> simp [hfind]
      · next p hfind =>
        change find? ps (c.setPath id ++ "." ++ key) = some p at hfind
        cases c.documentName id <;> simp [hfind]

/-- A node may occur where the discriminator it depends on may have the name of its document. -/
lemma discriminatorAllows_iff : c.discriminatorAllows ps id = true ↔
    ∀ path name, c.governor? id = some path → c.documentName id = some name →
      path ∈ Match.paths ps → ∃ n, status ps path n = some true ∧ c.documentName n = some name := by
  rw [discriminatorAllows_eq]
  cases c.governor? id with
  | none => simp
  | some path =>
    cases c.documentName id with
    | none => simp
    | some name =>
      cases hfind : find? ps path with
      | none => simp [hfind, find?_eq_none_iff.1 hfind]
      | some p =>
        have hin : path ∈ Match.paths ps := by
          rw [← isSome_status id, status, hfind]
          rfl
        simp [hin, status, hfind]

end Catalog

namespace Match

/-! ## One path -/

/-- Whether a demand leaves a node. -/
def Demand.admits (c : Catalog) (ps : List Candidate) (demand : Demand) (id : NodeId) : Bool :=
  if c.isDiscriminator id then demand.filter?.any fun f => f.accepts (c.documentName id)
  else c.discriminatorAllows ps id

/-- The nodes of a path before it is narrowed. -/
def candidatesAt (ctx : Context) (models : List ModelId) (ps : List Candidate) (path : String) :
    List NodeId :=
  match find? ps path with
  | some c => c.nodes
  | none => ctx.catalog.gatherNodes models path

/-- Whether a path can be narrowed by a demand: discriminators can be compared with it, and in a
strict pipeline a node is left. -/
structure Resolves (ctx : Context) (models : List ModelId) (ps : List Candidate) (path : String)
    (demand : Demand) : Prop where
  named : ∀ id ∈ candidatesAt ctx models ps path, ctx.catalog.isDiscriminator id = true →
    demand.filter?.isSome = true
  left : ctx.strict = true →
    ∃ id ∈ candidatesAt ctx models ps path, demand.admits ctx.catalog ps id = true

variable {ctx : Context} {models : List ModelId} {ps : List Candidate} {demand : Demand} {α : Type}
  {id : NodeId} {e : CompileError} {qs out : List Candidate} {c : Catalog} {xs : List α}
  {path : String} {site : Site}

lemma resolves_iff : Resolves ctx models ps path demand ↔
    (∀ id ∈ candidatesAt ctx models ps path, ctx.catalog.isDiscriminator id = true →
      demand.filter?.isSome = true) ∧
    (ctx.strict = true → (candidatesAt ctx models ps path).filter (demand.admits ctx.catalog ps) ≠ []) := by
  simp only [ne_eq, filter_eq_nil_iff, not_forall, not_not, exists_prop]
  exact ⟨fun h => ⟨h.named, h.left⟩, fun h => ⟨h.1, h.2⟩⟩

lemma nodup_candidatesAt (hps : Candidate.Distinct ps) (path : String) :
    (candidatesAt ctx models ps path).Nodup := by
  unfold candidatesAt
  split
  · next c hc => exact hps.nodes c (mem_of_find? hc).1
  · exact Catalog.nodup_gatherNodes models path

lemma demandAllows_eq (site : Site) (demand : Demand) (id : NodeId) :
    demandAllows ctx site ps demand id =
      if ctx.catalog.isDiscriminator id && demand.filter?.isNone then
        .error (Fault.setNameExpected.at site.fullpath)
      else .ok (demand.admits ctx.catalog ps id) := by
  unfold demandAllows Demand.admits Catalog.isDiscriminator
  cases hkey : ctx.catalog.discriminatorKey id with
  | none => simp [Catalog.discriminatorAllows, hkey]
  | some key =>
    by_cases hname : (ctx.catalog.node id).name = key
    · cases demand.filter? <;> simp [hname]
    · simp [hname, Ne.symm hname]

lemma exists_ok_of_filterM {f : α → Except CompileError Bool} {ys : List α}
    (h : xs.filterM f = .ok ys) {x : α} (hx : x ∈ xs) : ∃ b, f x = .ok b := by
  have haux : ∀ (xs acc : List α) {zs}, xs.filterAuxM f acc = .ok zs → x ∈ xs →
      ∃ b, f x = .ok b := by
    intro xs
    induction xs with
    | nil => exact fun _ _ _ hx => absurd hx not_mem_nil
    | cons y rest ih =>
      intro acc zs hzs hx
      obtain ⟨b, hb, hrest⟩ := except_bind_ok_iff.1 hzs
      rcases mem_cons.1 hx with rfl | hx
      · exact ⟨b, hb⟩
      · exact ih _ hrest hx
  obtain ⟨zs, hzs, -⟩ := except_bind_ok_iff.1 h
  exact haux xs [] hzs hx

lemma filterM_demandAllows {demand : Demand} {ids found : List NodeId} :
    ids.filterM (demandAllows ctx site ps demand) = .ok found ↔
      (∀ id ∈ ids, ctx.catalog.isDiscriminator id = true → demand.filter?.isSome = true) ∧
        found = ids.filter (demand.admits ctx.catalog ps) := by
  have hok : (∀ id ∈ ids, ctx.catalog.isDiscriminator id = true → demand.filter?.isSome = true) →
      ids.filterM (demandAllows ctx site ps demand) =
        .ok (ids.filter (demand.admits ctx.catalog ps)) := by
    refine fun hnamed => filterM_ok fun id hid => ?_
    rw [demandAllows_eq, if_neg]
    simpa [Option.isSome_iff_ne_none] using hnamed id hid
  constructor
  · intro hfound
    have hnamed : ∀ id ∈ ids, ctx.catalog.isDiscriminator id = true →
        demand.filter?.isSome = true := by
      intro id hid hdiscriminator
      obtain ⟨b, hb⟩ := exists_ok_of_filterM hfound hid
      rw [demandAllows_eq] at hb
      by_contra hnone
      rw [if_pos (by simpa [hdiscriminator] using hnone)] at hb
      cases hb
    rw [hok hnamed] at hfound
    exact ⟨hnamed, (Except.ok.inj hfound).symm⟩
  · rintro ⟨hnamed, rfl⟩
    exact hok hnamed

/-- The list with one path narrowed. -/
def narrowed (ctx : Context) (models : List ModelId) (ps : List Candidate) (path : String)
    (demand : Demand) : List Candidate :=
  let candidates := candidatesAt ctx models ps path
  let found := candidates.filter (demand.admits ctx.catalog ps)
  if (find? ps path).isSome ∧ found = candidates then ps
  else ps.filter (fun p => p.path != path) ++ [⟨path, found, flag ps path⟩]

lemma admits_of_no_set (h : ctx.catalog.discriminatorKey id = none) (demand : Demand) :
    demand.admits ctx.catalog ps id = true := by
  simp [Demand.admits, Catalog.isDiscriminator, Catalog.discriminatorAllows, h]

lemma guarded_ok_iff {found candidates : List NodeId} {strict isNew : Bool} {event : Event}
    {k : Unit → Compile (List Candidate)} :
    result (if found.isEmpty && strict then (throw e : Compile Unit) >>= k
      else if isNew && decide (found = candidates) then pure ps
      else note event >>= fun _ => pure qs) = .ok out ↔
      (strict = true → found ≠ []) ∧
        (if isNew = true ∧ found = candidates then ps else qs) = out := by
  by_cases hempty : (found.isEmpty && strict) = true
  · rw [if_pos hempty]
    simp only [Bool.and_eq_true, List.isEmpty_iff] at hempty
    exact iff_of_false (fun h => by cases h) fun h => h.1 hempty.2 hempty.1
  · rw [if_neg hempty]
    have hleft : strict = true → found ≠ [] := fun hstrict hnil => hempty (by simp [hstrict, hnil])
    by_cases hsame : isNew = true ∧ found = candidates
    · rw [if_pos hsame, if_pos (by simpa using hsame)]
      exact ⟨fun h => ⟨hleft, Except.ok.inj h⟩, fun h => congrArg Except.ok h.2⟩
    · rw [if_neg hsame, if_neg (by simpa using hsame)]
      exact ⟨fun h => ⟨hleft, Except.ok.inj h⟩, fun h => congrArg Except.ok h.2⟩

/-- **Resolving a property** narrows its path, or fails. -/
lemma resolveProperty_ok_iff : (resolveProperty ctx site models ps demand).result = .ok out ↔
      Resolves ctx models ps site.propertyPath demand ∧
        narrowed ctx models ps site.propertyPath demand = out := by
  have hfilter := fun found => @filterM_demandAllows ctx ps site demand
    (candidatesAt ctx models ps site.propertyPath) found
  have hunchanged : ∀ candidates : List NodeId,
      ((!candidates.any fun id => (ctx.catalog.discriminatorKey id).isSome) ||
        (candidates.filter (demand.admits ctx.catalog ps)).length == candidates.length) =
      decide (candidates.filter (demand.admits ctx.catalog ps) = candidates) := by
    intro candidates
    rw [Bool.eq_iff_iff, decide_eq_true_iff, filter_eq_self, Bool.or_eq_true, beq_iff_eq,
      length_filter_eq_length_iff]
    refine ⟨fun h => h.elim (fun hsets id hid => ?_) id, .inr⟩
    have hkeys : ∀ id ∈ candidates, ctx.catalog.discriminatorKey id = none := by simpa using hsets
    exact admits_of_no_set (hkeys id hid) demand
  have hresolved : ∀ ids found : List NodeId,
      (if decide (found = ids) = true then ids else found) = found := by
    intro ids found
    split
    · next h => exact (of_decide_eq_true h).symm
    · rfl
  rw [resolves_iff, narrowed, and_assoc]
  unfold resolveProperty candidatesAt flag at *
  cases hfind : find? ps site.propertyPath <;>
  · simp only [hfind] at hfilter ⊢
    rw [result_bind, except_bind_ok_iff]
    simp only [of_eq, hfilter, and_assoc, exists_and_left, exists_eq_left, hunchanged, hresolved]
    exact and_congr_right fun _ => guarded_ok_iff

/-- A node that depends on a discriminator is left where that allows it, whatever is demanded. -/
lemma admits_of_governed (h : c.governor? id = some path) (demand : Demand) :
    demand.admits c ps id = c.discriminatorAllows ps id := by
  refine if_neg fun hdiscriminator => ?_
  rw [Catalog.isDiscriminator, beq_iff_eq] at hdiscriminator
  simp [Catalog.governor?, hdiscriminator] at h

lemma admits_congr (h : c.discriminatorAllows ps id = c.discriminatorAllows qs id)
    (demand : Demand) : demand.admits c ps id = demand.admits c qs id := by
  rw [Demand.admits, Demand.admits, h]

/-- Whether a demand leaves a node that the path had. -/
def leafVerdict (ctx : Context) (models : List ModelId) (ps : List Candidate) (path : String)
    (id : NodeId) (demand : Demand) : Bool :=
  (candidatesAt ctx models ps path).contains id && demand.admits ctx.catalog ps id

lemma contains_narrowed (path : String) (demand : Demand) (id : NodeId) :
    ((candidatesAt ctx models ps path).filter (demand.admits ctx.catalog ps)).contains id =
      leafVerdict ctx models ps path id demand := by
  simp [leafVerdict]

lemma status_replace (path : String) (c : Candidate) (hc : c.path = path) (q : String)
    (id : NodeId) : status (ps.filter (fun p => p.path != path) ++ [c]) q id =
      if path = q then some (c.nodes.contains id) else status ps q id := by
  induction ps with
  | nil =>
    rw [filter_nil, nil_append, status_cons, hc]
  | cons d rest ih =>
    rw [status_cons]
    by_cases hd : d.path = path
    · rw [filter_cons_of_neg (by simp [hd]), ih]
      split
      · rfl
      · next hq => rw [if_neg (hd ▸ hq)]
    · rw [filter_cons_of_pos (by simp [hd]), cons_append, status_cons, ih]
      by_cases hq : d.path = q
      · rw [if_pos hq, if_pos hq, if_neg fun h => hd (hq.trans h.symm)]
      · rw [if_neg hq, if_neg hq]

lemma status_narrowed (path : String) (demand : Demand) (q : String) (id : NodeId) :
    status (narrowed ctx models ps path demand) q id =
      if path = q then some (leafVerdict ctx models ps path id demand)
      else status ps q id := by
  unfold narrowed
  dsimp only
  split
  · next hsame =>
    obtain ⟨c, hc⟩ := Option.isSome_iff_exists.1 hsame.1
    split
    · next hq =>
      rw [← contains_narrowed, hsame.2, ← hq, status, candidatesAt, hc]
      rfl
    · rfl
  · rw [status_replace path _ rfl, contains_narrowed]

lemma distinct_replace (hps : Candidate.Distinct ps) (c : Candidate) (hc : c.nodes.Nodup) :
    Candidate.Distinct (ps.filter (fun p => p.path != c.path) ++ [c]) := by
  constructor
  · rw [paths, map_append]
    refine Nodup.append (hps.paths.sublist (filter_sublist.map _)) (nodup_singleton _) ?_
    simp
  · exact forall_mem_append.2
      ⟨fun d hd => hps.nodes d (mem_filter.1 hd).1, forall_mem_singleton.2 hc⟩

lemma clean_narrowed (hps : Candidate.Distinct ps) (path : String) (demand : Demand) :
    Candidate.Clean (flag ps) (narrowed ctx models ps path demand) := by
  unfold narrowed
  dsimp only
  split
  · exact hps.clean
  · refine ⟨distinct_replace hps ⟨path, _, _⟩ ((nodup_candidatesAt hps path).filter _), ?_⟩
    exact forall_mem_append.2
      ⟨fun c hc => hps.clean.flags c (mem_filter.1 hc).1, forall_mem_singleton.2 rfl⟩

/-! ## Formulas -/

/-- How a match narrows properties. -/
inductive Narrowing where
  | refuse
  | keep
  /-- An object without conditions mentions no path. -/
  | nothing
  | resolve (path : String) (demand : Demand)
  | join (j : Junction) (t u : Narrowing)

namespace Narrowing

def joined (j : Junction) (ts : List Narrowing) : Narrowing := ts.foldr (join j) nothing

/-- What is left of a node at a path, where leaves of the path judge it and all else is silent. -/
def verdict (leaf : Demand → Bool) (silent : Option Bool) (path : String) : Narrowing → Option Bool
  | refuse | nothing => none
  | keep => silent
  | resolve p demand => if p = path then some (leaf demand) else silent
  | join j t u => j.join (t.verdict leaf silent path) (u.verdict leaf silent path)

/-- The paths of the leaves, with what they demand. -/
def demands : Narrowing → List (String × Demand)
  | resolve path demand => [(path, demand)]
  | join _ t u => t.demands ++ u.demands
  | _ => []

def refuses : Narrowing → Bool
  | refuse => true
  | join _ t u => t.refuses || u.refuses
  | _ => false

variable {leaf leaf' : Demand → Bool} {silent silent' : Option Bool} {path : String} {j : Junction}
  {ts : List Narrowing}

lemma verdict_joined (j : Junction) (ts : List Narrowing) : (joined j ts).verdict leaf silent path =
      (ts.map (verdict leaf silent path)).foldr j.join none := by
  induction ts with
  | nil => rfl
  | cons t rest ih => rw [map_cons, foldr_cons, ← ih]; rfl

lemma mem_demands_joined {d : String × Demand} :
    d ∈ (joined j ts).demands ↔ ∃ t ∈ ts, d ∈ t.demands := by
  induction ts with
  | nil => simp [joined, demands]
  | cons t rest ih =>
    have hcons : (joined j (t :: rest)).demands = t.demands ++ (joined j rest).demands := rfl
    rw [hcons, mem_append, ih, exists_mem_cons_iff]

lemma refuses_joined : (joined j ts).refuses = false ↔ ∀ t ∈ ts, t.refuses = false := by
  induction ts with
  | nil => simp [joined, refuses]
  | cons t rest ih =>
    have hcons : (joined j (t :: rest)).refuses = (t.refuses || (joined j rest).refuses) := rfl
    rw [hcons, Bool.or_eq_false_iff, ih, forall_mem_cons]

/-- **Two formulas' values are related as those of their parts are**, by any relation that joins
keep. -/
lemma verdict_rel {R : Option Bool → Option Bool → Prop} (hnone : R none none)
    (hjoin : ∀ (j : Junction) {a a' b b' : Option Bool}, R a a' → R b b' →
      R (j.join a b) (j.join a' b'))
    (hleaf : ∀ demand, R (some (leaf demand)) (some (leaf' demand))) (hsilent : R silent silent')
    (t : Narrowing) : R (t.verdict leaf silent path) (t.verdict leaf' silent' path) := by
  induction t with
  | refuse | nothing => exact hnone
  | keep => exact hsilent
  | resolve p demand =>
    rw [verdict, verdict]
    split
    · exact hleaf demand
    · exact hsilent
  | join j t u iht ihu => exact hjoin j iht ihu

/-- The value of a formula is among those of its parts, if joins do not leave these. -/
lemma verdict_mem {P : Option Bool → Prop} (hnone : P none)
    (hjoin : ∀ (j : Junction) {a b : Option Bool}, P a → P b → P (j.join a b))
    (hleaf : ∀ demand, P (some (leaf demand))) (hsilent : P silent) (t : Narrowing) :
    P (t.verdict leaf silent path) :=
  @verdict_rel leaf leaf silent silent path (fun a _ => P a) hnone
    (fun j _ _ _ _ ha hb => hjoin j ha hb) hleaf hsilent t

/-- A status is at most another: ruled out, then without a say, then left. -/
def StatusLe (a b : Option Bool) : Prop := a = some false ∨ a = b ∨ b = some true

instance (a b : Option Bool) : Decidable (StatusLe a b) := inferInstanceAs (Decidable (_ ∨ _ ∨ _))

lemma StatusLe.eq_true {a b : Option Bool} (h : StatusLe a b) (ha : a = some true) :
    b = some true := by
  revert a b
  decide

/-- **A formula whose parts leave more leaves more.** -/
lemma verdict_mono (hleaf : ∀ demand, leaf demand = true → leaf' demand = true)
    (hsilent : StatusLe silent silent') (t : Narrowing) :
    StatusLe (t.verdict leaf silent path) (t.verdict leaf' silent' path) := by
  refine verdict_rel (.inr (.inl rfl)) (fun j a a' b b' => ?_) (fun demand => ?_) hsilent t
  · cases j <;> revert a a' b b' <;> decide
  · have hdemand := hleaf demand
    revert hdemand
    generalize leaf demand = a, leaf' demand = b
    revert a b
    decide

lemma isSome_join (j : Junction) (a b : Option Bool) :
    (j.join a b).isSome = (a.isSome || b.isSome) := by
  cases a <;> cases b <;> rfl

/-- A path is mentioned by a formula whatever its leaves say. -/
lemma isSome_verdict_mono (hsilent : silent.isSome = true → silent'.isSome = true)
    (t : Narrowing) (h : (t.verdict leaf silent path).isSome = true) :
    (t.verdict leaf' silent' path).isSome = true := by
  refine verdict_rel (R := fun a b => a.isSome = true → b.isSome = true) id
    (fun j a a' b b' ha hb => ?_) (fun _ _ => rfl) hsilent t h
  simp only [isSome_join, Bool.or_eq_true]
  exact Or.imp ha hb

lemma isSome_verdict_of_demand {t : Narrowing} (h : (path, demand) ∈ t.demands) :
    (t.verdict leaf silent path).isSome = true := by
  induction t with
  | refuse | nothing | keep => cases h
  | resolve p d =>
    cases mem_singleton.1 h
    rw [verdict, if_pos rfl]
    rfl
  | join j t u iht ihu =>
    rw [verdict, isSome_join, Bool.or_eq_true]
    exact (mem_append.1 h).imp iht ihu

end Narrowing

/-! ## Runs -/

/-- A run narrows properties as a formula says. -/
structure Realizes (ctx : Context) (models : List ModelId) (ps : List Candidate) (t : Narrowing)
    (x : Except CompileError (List Candidate)) : Prop where
  runs : (∃ out, x = .ok out) ↔ t.refuses = false ∧ ∀ d ∈ t.demands, Resolves ctx models ps d.1 d.2
  clean : ∀ {out}, x = .ok out → Candidate.Clean (flag ps) out
  status : ∀ {out}, x = .ok out → ∀ path id, status out path id =
    t.verdict (leafVerdict ctx models ps path id) (status ps path id) path
  spares : Spares (fun _ => True) x

lemma realizes_refuse (he : e.fault.isMerge = false) :
    Realizes ctx models ps .refuse (.error e) where
  spares := .error he
  runs := by simp [Narrowing.refuses]
  clean h := by cases h
  status h := by cases h

lemma realizes_keep (hps : Candidate.Distinct ps) : Realizes ctx models ps .keep (.ok ps) where
  spares := .ok trivial
  runs := by simp [Narrowing.refuses, Narrowing.demands]
  clean h := by
    cases h
    exact hps.clean
  status h _ _ := by
    cases h
    rfl

lemma resolveProperty_spares (site : Site) (demand : Demand) :
    Spares (fun _ => True) (resolveProperty ctx site models ps demand).result := by
  have hallows : ∀ id, Spares (fun _ => True) (demandAllows ctx site ps demand id) := by
    intro id
    rw [demandAllows_eq]
    split
    · exact .error rfl
    · exact .ok trivial
  have hfilter : ∀ ids acc : List NodeId,
      Spares (fun _ => True) (ids.filterAuxM (demandAllows ctx site ps demand) acc) := by
    intro ids
    induction ids with
    | nil => exact fun _ => .ok trivial
    | cons id rest ih => exact fun acc => (hallows id).bind fun _ _ _ => ih _
  refine Spares.bindResult (P := fun _ => True) ((hfilter _ []).bind fun _ _ _ => .ok trivial)
    fun found _ _ => .guardResult rfl (.iteResult (.pureResult trivial) ?_)
  exact .noteResult (.pureResult trivial)

lemma realizes_resolve (hps : Candidate.Distinct ps) (site : Site) (demand : Demand) :
    Realizes ctx models ps (.resolve site.propertyPath demand)
      (resolveProperty ctx site models ps demand).result where
  runs := by
    simp [Narrowing.refuses, Narrowing.demands, resolveProperty_ok_iff]
  clean h := by
    obtain ⟨-, rfl⟩ := resolveProperty_ok_iff.1 h
    exact clean_narrowed hps _ _
  status h path id := by
    obtain ⟨-, rfl⟩ := resolveProperty_ok_iff.1 h
    rw [status_narrowed, Narrowing.verdict]
    split
    · next hpath => rw [hpath]
    · rfl
  spares := resolveProperty_spares site demand

lemma exists_mapM_ok_iff {β : Type} {f : α → Except CompileError β} :
    (∃ ys, xs.mapM f = .ok ys) ↔ ∀ x ∈ xs, ∃ y, f x = .ok y := by
  simp only [mapM_ok_iff]
  induction xs with
  | nil => simp
  | cons x rest ih =>
    rw [forall_mem_cons, ← ih]
    constructor
    · rintro ⟨_, hys⟩
      cases hys with
      | cons hx hrest => exact ⟨⟨_, hx⟩, _, hrest⟩
    · rintro ⟨⟨y, hx⟩, ys, hrest⟩
      exact ⟨y :: ys, .cons hx hrest⟩

/-- **Runs whose results are merged** narrow as their formulas joined. -/
lemma realizes_joined (j : Junction) {f : α → Except CompileError (List Candidate)}
    {g : α → Narrowing} (h : ∀ x ∈ xs, Realizes ctx models ps (g x) (f x)) :
    Realizes ctx models ps (.joined j (xs.map g)) (xs.mapM f >>= merge j.combine) := by
  have hmerge : ∀ {groups}, xs.mapM f = .ok groups → ∃ out, merge j.combine groups = .ok out ∧
        Candidate.Clean (flag ps) out ∧ ∀ path id, status out path id =
          (Narrowing.joined j (xs.map g)).verdict (leafVerdict ctx models ps path id)
            (status ps path id) path := by
    intro groups hgroups
    rw [mapM_ok_iff] at hgroups
    obtain ⟨out, hout, houtclean, hstatus⟩ :=
      merge_clean j (forall_mem_right hgroups fun x hx group => (h x hx).clean)
    refine ⟨out, hout, houtclean, fun path id => ?_⟩
    rw [hstatus, Narrowing.verdict_joined, map_map]
    refine congrArg _ (map_eq_of_forall₂ (forall₂_mem_mono hgroups fun x hx group _ hgroup => ?_)).symm
    exact ((h x hx).status hgroup path id).symm
  have hspares : Spares (fun _ => True) (xs.mapM f >>= merge j.combine) := by
    refine (Spares.mapM fun x hx => (h x hx).spares).bind fun groups hgroups _ => ?_
    obtain ⟨out, hout, -⟩ := hmerge hgroups
    rw [hout]
    exact .ok trivial
  refine ⟨?_, fun {out} hout => ?_, fun {out} hout => ?_, hspares⟩
  · have hruns : (∃ out, xs.mapM f >>= merge j.combine = .ok out) ↔
        ∃ groups, xs.mapM f = .ok groups := by
      simp only [except_bind_ok_iff]
      constructor
      · rintro ⟨_, groups, hgroups, -⟩
        exact ⟨groups, hgroups⟩
      · rintro ⟨groups, hgroups⟩
        obtain ⟨out, hout, -⟩ := hmerge hgroups
        exact ⟨out, groups, hgroups, hout⟩
    rw [hruns, exists_mapM_ok_iff, Narrowing.refuses_joined, forall_mem_map]
    constructor
    · refine fun hall => ⟨fun x hx => ((h x hx).runs.1 (hall x hx)).1, fun d hd => ?_⟩
      obtain ⟨t, ht, hd⟩ := Narrowing.mem_demands_joined.1 hd
      obtain ⟨x, hx, rfl⟩ := mem_map.1 ht
      exact ((h x hx).runs.1 (hall x hx)).2 d hd
    · rintro ⟨hrefuses, hdemands⟩ x hx
      exact (h x hx).runs.2 ⟨hrefuses x hx, fun d hd =>
        hdemands d (Narrowing.mem_demands_joined.2 ⟨_, mem_map_of_mem hx, hd⟩)⟩
  all_goals
    obtain ⟨groups, hgroups, hmerged⟩ := except_bind_ok_iff.1 hout
    obtain ⟨out', hout', hclean, hstatus⟩ := hmerge hgroups
    rw [hmerged] at hout'
    cases hout'
  · exact hclean
  · exact hstatus

/-! ## Conditions as formulas -/

/-- What an element of a value list demands. -/
def elementDemand : Operand → Demand
  | .simple v => .compare .eq v
  | _ => .keep

/-- The formula of an operator with a literal or a value list. -/
def leafNarrowing (path : String) (op : MatchOp) (v : Operand) : Narrowing := match op, v with
  | .oneOf, .array [] | .noneOf, .array [] => .keep
  | .oneOf, .array elements =>
    .joined .disj (elements.map fun v => .resolve path (elementDemand v))
  | .noneOf, .array elements =>
    .resolve path (match literals? elements with
      | some vs => .exclude vs
      | none => .keep)
  | op, .simple v =>
    .resolve path (match op.compareOp?, op with
      | some c, _ => .compare c v
      | none, .pattern => .compare .eq v
      | none, _ => .keep)
  | _, _ => .refuse

mutual

/-- The formula of one condition. -/
def narrowing (site : Site) : Operand → Narrowing
  | .variable _ => .resolve site.propertyPath .keep
  | .expression cs =>
    match site.matchOp? with
    | some .elemMatch | none => .joined .conj (narrowingsBelow site cs)
    | some _ => .refuse
  | .array elements =>
    match site.matchOp? with
    | some op =>
      match op with
      | .and => .joined .conj (narrowingsAmong false site elements)
      | .all => .joined .conj (narrowingsAmong true site elements)
      | .or => .joined .disj (narrowingsAmong false site elements)
      | .elemMatch => .keep
      | op => leafNarrowing site.propertyPath op (.array elements)
    | none => .refuse
  | .simple v =>
    match site.matchOp? with
    | some op =>
      match op with
      | .and | .or | .all | .oneOf | .noneOf => .refuse
      | .elemMatch => .keep
      | op => leafNarrowing site.propertyPath op (.simple v)
    | none => .resolve site.propertyPath (.compare .eq v)
  | _ => .refuse

/-- The formulas of several conditions. -/
def narrowingsBelow (site : Site) : Children → List Narrowing
  | [] => []
  | (key, v) :: rest => narrowing (site.child key) v :: narrowingsBelow site rest

/-- The formulas of the elements of a list. -/
def narrowingsAmong (literals : Bool) (site : Site) : List Operand → List Narrowing
  | [] => []
  | .expression cs :: rest =>
    .joined .conj (narrowingsBelow site cs) :: narrowingsAmong literals site rest
  | .simple v :: rest =>
    (if literals then .resolve site.propertyPath (.compare .eq v) else .keep) ::
      narrowingsAmong literals site rest
  | _ :: rest => .keep :: narrowingsAmong literals site rest

end

/-- The formula of an element of a list. -/
def elementNarrowing (literals : Bool) (site : Site) : Operand → Narrowing
  | .expression cs => .joined .conj (narrowingsBelow site cs)
  | .simple v => if literals then .resolve site.propertyPath (.compare .eq v) else .keep
  | _ => .keep

/-- The formula of the value of a component. -/
def componentNarrowing (site : Site) : Operand → Narrowing
  | .expression cs => .joined .conj (narrowingsBelow site cs)
  | .array elements => .joined .disj (narrowingsAmong false site elements)
  | _ => .keep

lemma narrowingsBelow_eq_map (site : Site) (cs : Children) :
    narrowingsBelow site cs = cs.map fun c => narrowing (site.child c.1) c.2 := by
  induction cs with
  | nil => rfl
  | cons c rest ih => rw [narrowingsBelow, ih]; rfl

lemma narrowingsAmong_eq_map (literals : Bool) (site : Site) (vs : List Operand) :
    narrowingsAmong literals site vs = vs.map (elementNarrowing literals site) := by
  induction vs with
  | nil => rfl
  | cons v rest ih =>
    rw [map_cons, ← ih]
    cases v <;> rfl

lemma resolveEach_result (site : Site) (vs : List Operand) :
    (resolveEach ctx site models ps vs).result =
      vs.mapM fun v => (resolveProperty ctx site models ps (elementDemand v)).result := by
  induction vs with
  | nil => rfl
  | cons v rest ih =>
    unfold resolveEach
    simp only [result_bind, ih, mapM_cons]
    cases v <;> rfl

section

variable (hps : Candidate.Distinct ps)

include hps

lemma leafProperties_realizes (site : Site) (op : MatchOp) (v : Operand) :
    Realizes ctx models ps (leafNarrowing site.propertyPath op v)
      (leafProperties ctx site models ps op v).result := by
  have hresolve : ∀ demand, Realizes ctx models ps (.resolve site.propertyPath demand)
      (resolveProperty ctx site models ps demand).result := realizes_resolve hps site
  cases v with
  | simple x => cases op <;> exact hresolve _
  | array elements =>
    cases op with
    | oneOf =>
      cases elements with
      | nil => exact realizes_keep hps
      | cons first rest =>
        rw [leafProperties, result_bind, resolveEach_result]
        · exact realizes_joined .disj fun v _ => hresolve (elementDemand v)
        · exact fun h => by cases h
    | noneOf =>
      cases elements with
      | nil => exact realizes_keep hps
      | cons first rest => exact hresolve _
    | _ => exact realizes_refuse rfl
  | _ => cases op <;> exact realizes_refuse rfl

omit hps in
mutual

/-- **A condition narrows properties as its formula says.** -/
lemma childProperties_realizes (hps : Candidate.Distinct ps) :
    ∀ (v : Operand) (label : String) (site : Site),
    Realizes ctx models ps (narrowing site v) (childProperties ctx models label site ps v).result
  | .variable _, label, site => realizes_resolve hps site .keep
  | .simple v, label, site => by
    rw [narrowing, childProperties]
    cases site.matchOp? with
    | none => exact realizes_resolve hps site _
    | some op =>
      cases op with
      | and | or | all | oneOf | noneOf => exact realizes_refuse rfl
      | elemMatch => exact realizes_keep hps
      | _ => exact leafProperties_realizes hps site _ _
  | .expression cs, label, site => by
    have hbelow := expressionProperties_realizes hps cs
    rw [narrowing, childProperties]
    cases site.matchOp? with
    | none => exact hbelow label site
    | some op =>
      cases op with
      | elemMatch => exact hbelow elementLabel site
      | _ => exact realizes_refuse rfl
  | .array vs, label, site => by
    have hamong := mergedElements_realizes hps vs
    rw [narrowing, childProperties]
    cases site.matchOp? with
    | none => exact realizes_refuse rfl
    | some op =>
      cases op with
      | and => exact hamong .conj false site
      | all => exact hamong .conj true site
      | or => exact hamong .disj false site
      | elemMatch => exact realizes_keep hps
      | _ => exact leafProperties_realizes hps site _ _
  | .property _, label, site | .raw _, label, site => realizes_refuse rfl

lemma expressionProperties_realizes (hps : Candidate.Distinct ps) (cs : Children) (label : String)
    (site : Site) : Realizes ctx models ps (.joined .conj (narrowingsBelow site cs))
      (expressionProperties ctx models label site ps cs).result := by
  rw [expressionProperties, result_bind, childrenProperties_result, narrowingsBelow_eq_map]
  exact realizes_joined .conj (childrenProperties_realizes hps cs label site)

lemma childrenProperties_realizes (hps : Candidate.Distinct ps) :
    ∀ (cs : Children) (label : String) (site : Site), ∀ c ∈ cs,
      Realizes ctx models ps (narrowing (site.child c.1) c.2)
        (childProperties ctx models label (site.child c.1) ps c.2).result
  | (key, v) :: rest, label, site, c, hc => by
    rcases mem_cons.1 hc with rfl | hc
    · exact childProperties_realizes hps v label _
    · exact childrenProperties_realizes hps rest label site c hc

lemma mergedElements_realizes (hps : Candidate.Distinct ps) (vs : List Operand) (j : Junction)
    (literals : Bool) (site : Site) :
    Realizes ctx models ps (.joined j (narrowingsAmong literals site vs)) (do of (merge j.combine
        (← elementsProperties ctx models literals site ps vs))).result := by
  rw [result_bind, elementsProperties_result, narrowingsAmong_eq_map]
  exact realizes_joined j (elementsProperties_realizes hps vs literals site)

lemma elementsProperties_realizes (hps : Candidate.Distinct ps) :
    ∀ (vs : List Operand) (literals : Bool) (site : Site), ∀ v ∈ vs,
      Realizes ctx models ps (elementNarrowing literals site v)
        (elementProperties ctx models literals site ps v).result
  | u :: rest, literals, site, v, hv => by
    rcases mem_cons.1 hv with heq | hv
    · rw [heq]
      exact elementProperties_realizes hps u literals site
    · exact elementsProperties_realizes hps rest literals site v hv

lemma elementProperties_realizes (hps : Candidate.Distinct ps) :
    ∀ (v : Operand) (literals : Bool) (site : Site),
      Realizes ctx models ps (elementNarrowing literals site v)
        (elementProperties ctx models literals site ps v).result
  | .expression cs, literals, site => expressionProperties_realizes hps cs matchLabel site
  | .simple x, literals, site => by
    cases literals with
    | true => exact realizes_resolve hps site _
    | false => exact realizes_keep hps
  | .array _, _, _ | .property _, _, _ | .variable _, _, _ | .raw _, _, _ => realizes_keep hps

end

/-- **The properties left inside a component** are narrowed as its formula says. -/
lemma componentProperties_realizes (site : Site) (v : Operand) :
    Realizes ctx models ps (componentNarrowing site v)
      (componentProperties ctx site models v ps).result := by
  cases v with
  | expression cs => exact expressionProperties_realizes hps cs matchLabel site
  | array vs => exact mergedElements_realizes hps vs .disj false site
  | _ => exact realizes_keep hps

end

end Match

end Conduit
