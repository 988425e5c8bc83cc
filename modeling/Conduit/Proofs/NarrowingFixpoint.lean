import Conduit.Proofs.NarrowingTerms

/-!
# Two rounds of narrowing

The order of conditions does not matter to what they leave: each condition looks at the properties
from before the match, and joining is commutative.  Narrowing is done twice, so that the conditions
on the discriminators of sets narrow the nodes that depend on them.  The first round narrows
discriminators, since nothing else decides about them, and the second what depends on them.  A third
round changes nothing (`third_round`), as long as the candidates of a discriminator's path do not
depend on discriminators themselves (`Catalog.Stratified`).
-/

namespace Conduit

open List

/-! ## Order -/

/-- Parsed values that differ in the order of the children of expressions, at any depth. -/
inductive Operand.Permuted : Operand → Operand → Prop
  | children {cs ds : Children} (h : cs ~ ds) : Permuted (.expression cs) (.expression ds)
  | inside (before after : Children) (key : String) {v w : Operand}
    (h : Permuted v w) : Permuted (.expression (before ++ (key, v) :: after))
      (.expression (before ++ (key, w) :: after))
  | among (before after : List Operand) {v w : Operand} (h : Permuted v w) :
    Permuted (.array (before ++ v :: after)) (.array (before ++ w :: after))
  | trans {u v w : Operand} (h : Permuted u v) (h' : Permuted v w) : Permuted u w

lemma Operand.Permuted.not_atom {v w : Operand} (h : Permuted v w) :
    v.isAtom = false ∧ w.isAtom = false := by
  induction h with
  | children | inside | among => exact ⟨rfl, rfl⟩
  | trans _ _ ih ih' => exact ⟨ih.1, ih'.2⟩

namespace Match

namespace Narrowing

/-- The formulas narrow the same. -/
structure Same (t u : Narrowing) : Prop where
  verdict : ∀ leaf silent path, t.verdict leaf silent path = u.verdict leaf silent path
  demands : ∀ d, d ∈ t.demands ↔ d ∈ u.demands
  refuses : t.refuses = false ↔ u.refuses = false

lemma Same.refl (t : Narrowing) : Same t t := ⟨fun _ _ _ => rfl, fun _ => Iff.rfl, Iff.rfl⟩

variable {t u : Narrowing}

lemma Same.trans {v : Narrowing} (h : Same t u) (h' : Same u v) : Same t v :=
  ⟨fun l s p => (h.verdict l s p).trans (h'.verdict l s p),
    fun d => (h.demands d).trans (h'.demands d), h.refuses.trans h'.refuses⟩

variable {j : Junction}

lemma same_joined_perm {ts us : List Narrowing} (h : ts ~ us) :
    Same (joined j ts) (joined j us) where
  verdict leaf silent path := by
    rw [verdict_joined, verdict_joined]
    exact (h.map _).foldr_eq none
  demands d := by simp only [mem_demands_joined, h.mem_iff]
  refuses := by simp only [refuses_joined, h.mem_iff]

lemma same_joined_replace (h : Same t u) (before after : List Narrowing) :
    Same (joined j (before ++ t :: after)) (joined j (before ++ u :: after)) where
  verdict leaf silent path := by
    simp only [verdict_joined, map_append, map_cons, h.verdict]
  demands d := by
    simp only [mem_demands_joined, mem_append, mem_cons, or_and_right, exists_or, exists_eq_left,
      h.demands]
  refuses := by
    simp only [refuses_joined, forall_mem_append, forall_mem_cons, h.refuses]

end Narrowing

open Narrowing (Same same_joined_perm same_joined_replace)

variable {v w : Operand} {before after : List Operand}

lemma elementDemand_of_not_atom (h : v.isAtom = false) : elementDemand v = .keep := by
  cases v <;> first | rfl | cases h

lemma literals?_of_not_atom (h : v.isAtom = false) : literals? (before ++ v :: after) = none := by
  induction before with
  | nil =>
    cases v with
    | expression _ | array _ => rfl
    | _ => cases h
  | cons u rest ih =>
    unfold literals? at ih ⊢
    rw [cons_append, mapM_cons, ih]
    cases u <;> rfl

/-- The formula of a value list does not look into its objects. -/
lemma leafNarrowing_replace {path : String} {op : MatchOp} (hv : v.isAtom = false)
    (hw : w.isAtom = false) : leafNarrowing path op (.array (before ++ v :: after)) =
      leafNarrowing path op (.array (before ++ w :: after)) := by
  have hlist : ∀ u : Operand, u.isAtom = false →
      leafNarrowing path .oneOf (.array (before ++ u :: after)) = .joined .disj
        ((before.map fun v => .resolve path (elementDemand v)) ++
          .resolve path .keep :: after.map fun v => .resolve path (elementDemand v)) := by
    intro u hu
    rw [← elementDemand_of_not_atom hu]
    cases before <;> simp [leafNarrowing]
  have hnone : ∀ u : Operand, u.isAtom = false →
      leafNarrowing path .noneOf (.array (before ++ u :: after)) = .resolve path .keep := by
    intro u hu
    have hliterals : literals? (before ++ u :: after) = none := literals?_of_not_atom hu
    cases before <;> simp_all [leafNarrowing]
  cases op with
  | oneOf => rw [hlist v hv, hlist w hw]
  | noneOf => rw [hnone v hv, hnone w hw]
  | _ => cases before <;> rfl

lemma same_expression {site : Site} {cs ds : Children}
    (h : Same (.joined .conj (narrowingsBelow site cs)) (.joined .conj (narrowingsBelow site ds))) :
    Same (narrowing site (.expression cs)) (narrowing site (.expression ds)) := by
  rw [narrowing, narrowing]
  cases site.matchOp? with
  | none => exact h
  | some op =>
    cases op with
    | elemMatch => exact h
    | _ => exact .refl _

/-- **Conditions in another order have the same formula**, up to the order of its parts. -/
lemma permuted_same (h : Operand.Permuted v w) :
    (∀ site, Same (narrowing site v) (narrowing site w)) ∧
      ∀ literals site, Same (elementNarrowing literals site v) (elementNarrowing literals site w) := by
  induction h with
  | @children cs ds hperm =>
    have hbelow : ∀ site, Same (.joined .conj (narrowingsBelow site cs))
        (.joined .conj (narrowingsBelow site ds)) := fun site => by
      rw [narrowingsBelow_eq_map, narrowingsBelow_eq_map]
      exact same_joined_perm (hperm.map _)
    exact ⟨fun site => same_expression (hbelow site), fun _ => hbelow⟩
  | @inside before after key v w _ ih =>
    have hbelow : ∀ site, Same (.joined .conj (narrowingsBelow site (before ++ (key, v) :: after)))
        (.joined .conj (narrowingsBelow site (before ++ (key, w) :: after))) := fun site => by
      simp only [narrowingsBelow_eq_map, map_append, map_cons]
      exact same_joined_replace (ih.1 _) _ _
    exact ⟨fun site => same_expression (hbelow site), fun _ => hbelow⟩
  | @among before after v w hvw ih =>
    refine ⟨fun site => ?_, fun _ _ => .refl _⟩
    have hamong : ∀ j literals, Same
        (.joined j (narrowingsAmong literals site (before ++ v :: after)))
        (.joined j (narrowingsAmong literals site (before ++ w :: after))) := fun j literals => by
      simp only [narrowingsAmong_eq_map, map_append, map_cons]
      exact same_joined_replace (ih.2 _ _) _ _
    rw [narrowing, narrowing]
    cases site.matchOp? with
    | none => exact .refl _
    | some op =>
      cases op with
      | and | or | all => exact hamong _ _
      | elemMatch => exact .refl _
      | _ =>
        dsimp only
        rw [leafNarrowing_replace hvw.not_atom.1 hvw.not_atom.2]
        exact .refl _
  | trans _ _ ih ih' =>
    exact ⟨fun site => (ih.1 site).trans (ih'.1 site),
      fun literals site => (ih.2 literals site).trans (ih'.2 literals site)⟩

/-- Both fail, or both succeed with the same nodes and flags for each path. -/
def SameNarrowing (x y : Except CompileError (List Candidate)) : Prop :=
  Option.Rel Candidate.SameSets x.toOption y.toOption

variable {ctx : Context} {models : List ModelId} {ps : List Candidate} {t u : Narrowing}

lemma sameNarrowing_of_same {x y : Except CompileError (List Candidate)}
    (hx : Realizes ctx models ps t x) (hy : Realizes ctx models ps u y) (h : Same t u) :
    SameNarrowing x y := by
  have hruns : (∃ out, x = .ok out) ↔ ∃ out, y = .ok out := by
    rw [hx.runs, hy.runs, h.refuses]
    simp only [h.demands]
  cases x with
  | error e =>
    cases y with
    | error e' => exact .none
    | ok out => exact absurd (hruns.2 ⟨out, rfl⟩) (by simp)
  | ok out =>
    cases y with
    | error e' => exact absurd (hruns.1 ⟨out, rfl⟩) (by simp)
    | ok out' =>
      refine .some (.of_status (hx.clean rfl) (hy.clean rfl) fun path id => ?_)
      rw [hx.status rfl, hy.status rfl, h.verdict]

/-! ## Rounds -/

end Match

/-- No candidate of a path that decides about others depends on a discriminator itself. -/
def Catalog.Stratified (c : Catalog) (ps : List Candidate) : Prop :=
  ∀ p ∈ ps, ∀ id ∈ p.nodes, ∀ q ∈ ps, c.governor? id = some q.path →
    ∀ n ∈ q.nodes, c.governor? n = none

instance (c : Catalog) (ps : List Candidate) : Decidable (c.Stratified ps) :=
  inferInstanceAs (Decidable (∀ p ∈ ps, ∀ id ∈ p.nodes, ∀ q ∈ ps, c.governor? id = some q.path →
    ∀ n ∈ q.nodes, c.governor? n = none))

variable {ps : List Candidate} {path : String} {id : NodeId}

lemma Candidate.status_eq_true_iff :
    status ps path id = some true ↔ ∃ c, find? ps path = some c ∧ id ∈ c.nodes := by
  simp [status]

lemma Catalog.Stratified.governor?_eq_none {c : Catalog} (h : c.Stratified ps) {governor : String}
    {n : NodeId} (hid : Candidate.status ps path id = some true)
    (hgovernor : c.governor? id = some governor) (hn : Candidate.status ps governor n = some true) :
    c.governor? n = none := by
  obtain ⟨p, hp, hid⟩ := Candidate.status_eq_true_iff.1 hid
  obtain ⟨q, hq, hn⟩ := Candidate.status_eq_true_iff.1 hn
  obtain ⟨hqmem, hqpath⟩ := Candidate.mem_of_find? hq
  exact h p (Candidate.mem_of_find? hp).1 id hid q hqmem (hqpath ▸ hgovernor) n hn

namespace Match

open Candidate (status)

variable {path : String} {id : NodeId}

lemma contains_candidatesAt {b : Bool} (h : status ps path id = some b) :
    (candidatesAt ctx models ps path).contains id = b := by
  obtain ⟨c, hc, rfl⟩ := Option.map_eq_some_iff.1 h
  rw [candidatesAt, hc]

lemma leafVerdict_of_status (h : status ps path id = some true) (demand : Demand) :
    leafVerdict ctx models ps path id demand = demand.admits ctx.catalog ps id := by
  rw [leafVerdict, contains_candidatesAt h, Bool.true_and]

/-- What depends on no discriminator is judged without the other properties. -/
lemma admits_of_ungoverned {c : Catalog} (h : c.governor? id = none)
    (qs : List Candidate) (demand : Demand) : demand.admits c ps id = demand.admits c qs id := by
  have hallows : ∀ ps, c.discriminatorAllows ps id = true := fun ps => by
    simp [Catalog.discriminatorAllows_iff, h]
  exact admits_congr (by rw [hallows, hallows]) demand

section

variable {out : List Candidate} (hround : Realizes ctx models ps t (.ok out)) {path : String}
  {id : NodeId}

include hround

lemma contains_of_left (h : status out path id = some true) :
    (candidatesAt ctx models ps path).contains id = true := by
  by_contra hnot
  rw [hround.status rfl] at h
  have hstatus : status ps path id ≠ some true := fun hstatus =>
    hnot (contains_candidatesAt hstatus)
  refine Narrowing.verdict_mem (P := fun a => a ≠ some true) (by simp) (fun j a b => ?_)
    (fun demand => ?_) hstatus t h
  · cases j <;> revert a b <;> decide
  · rw [leafVerdict, Bool.eq_false_iff.2 hnot, Bool.false_and]
    simp

lemma left_of_left {b : Bool} (hb : status ps path id = some b)
    (h : status out path id = some true) : status ps path id = some true := by
  have hcontains := contains_of_left hround h
  rw [contains_candidatesAt hb] at hcontains
  rw [hb, hcontains]

end

lemma mem_candidatesAt_iff (h : path ∈ paths ps) :
    id ∈ candidatesAt ctx models ps path ↔ status ps path id = some true := by
  obtain ⟨b, hb⟩ := Option.isSome_iff_exists.1 ((Candidate.isSome_status id).2 h)
  rw [← contains_iff_mem, contains_candidatesAt hb, hb, Option.some_inj]

section

variable {once twice : List Candidate} (hfirst : Realizes ctx models ps t (.ok once))
  (hsecond : Realizes ctx models once t (.ok twice)) {path : String} {id : NodeId} {demand : Demand}

include hfirst hsecond

lemma isSome_status_twice :
    (status twice path id).isSome = true ↔ (status once path id).isSome = true := by
  have honce := hfirst.status rfl path id
  have htwice := hsecond.status rfl path id
  constructor
  · intro h
    by_contra hnone
    rw [htwice] at h
    have hsilent : (status once path id).isSome = true → (status ps path id).isSome = true :=
      fun hsome => absurd hsome hnone
    exact hnone (honce ▸ Narrowing.isSome_verdict_mono hsilent t h)
  · intro h
    rw [htwice]
    exact Narrowing.isSome_verdict_mono (fun _ => h) t (honce ▸ h)

lemma left_before (h : status twice path id = some true) : status once path id = some true := by
  obtain ⟨b, hb⟩ := Option.isSome_iff_exists.1
    ((isSome_status_twice hfirst hsecond).1 (by rw [h]; rfl))
  exact left_of_left hsecond hb h

/-- **What depends on no discriminator is settled by the first round.** -/
lemma ungoverned_stays (hfree : ctx.catalog.governor? id = none)
    (h : status once path id = some true) : status twice path id = some true := by
  have honce := hfirst.status rfl path id
  rw [hsecond.status rfl, h]
  rw [h] at honce
  refine Narrowing.StatusLe.eq_true (Narrowing.verdict_mono (fun demand hdemand => ?_) ?_ t)
    honce.symm
  · rw [leafVerdict_of_status h, admits_of_ungoverned hfree ps]
    exact (Bool.and_eq_true_iff.1 hdemand).2
  · exact .inr (.inr rfl)

/-- **The second round leaves what its leaves leave of the first.** -/
lemma admitted_stays (hdemand : (path, demand) ∈ t.demands) (h : status once path id = some true)
    (hadmits : demand.admits ctx.catalog once id = true) : status twice path id = some true := by
  cases hgovernor : ctx.catalog.governor? id with
  | none => exact ungoverned_stays hfirst hsecond hgovernor h
  | some governor =>
    rw [admits_of_governed hgovernor] at hadmits
    rw [hsecond.status rfl, h]
    obtain ⟨b, hb⟩ := Option.isSome_iff_exists.1 (Narrowing.isSome_verdict_of_demand hdemand)
    have hnot : t.verdict (leafVerdict ctx models once path id) (some true) path ≠ some false := by
      refine Narrowing.verdict_mem (P := fun a => a ≠ some false) (by simp) (fun j a b => ?_)
        (fun demand => ?_) (by simp) t
      · cases j <;> revert a b <;> decide
      · rw [leafVerdict_of_status h, admits_of_governed hgovernor, hadmits]
        simp
    rw [hb] at hnot ⊢
    cases b with
    | true => rfl
    | false => exact absurd rfl hnot

variable (hstratified : ctx.catalog.Stratified once)

include hstratified

/-- The second round does not change what the discriminators allow. -/
lemma discriminatorAllows_twice (h : status once path id = some true) :
    ctx.catalog.discriminatorAllows once id = ctx.catalog.discriminatorAllows twice id := by
  have hpaths : ∀ p, p ∈ paths once ↔ p ∈ paths twice := fun p => by
    rw [← Candidate.isSome_status id, ← Candidate.isSome_status id,
      isSome_status_twice hfirst hsecond]
  have hstatus : ∀ governor, ctx.catalog.governor? id = some governor → ∀ n,
      status once governor n = some true ↔ status twice governor n = some true := by
    refine fun governor hgovernor n => ⟨fun hn => ?_, fun hn => ?_⟩
    · exact ungoverned_stays hfirst hsecond (hstratified.governor?_eq_none h hgovernor hn) hn
    · exact left_before hfirst hsecond hn
  rw [Bool.eq_iff_iff, Catalog.discriminatorAllows_iff, Catalog.discriminatorAllows_iff]
  refine forall_congr' fun governor => forall_congr' fun name => forall_congr' fun hgovernor =>
    forall_congr' fun _ => ?_
  simp only [hpaths, hstatus governor hgovernor]

lemma status_thrice {thrice : List Candidate} (hthird : Realizes ctx models twice t (.ok thrice)) :
    status twice path id = status thrice path id := by
  have hsome : (status thrice path id).isSome = true ↔ (status twice path id).isSome = true :=
    isSome_status_twice hsecond hthird
  cases htwice : status twice path id with
  | none =>
    rw [htwice] at hsome
    cases hthrice : status thrice path id with
    | none => rfl
    | some b => cases hsome.1 (by rw [hthrice]; rfl)
  | some b =>
    obtain ⟨b', hthrice⟩ := Option.isSome_iff_exists.1 (hsome.2 (by rw [htwice]; rfl))
    cases b with
    | false =>
      cases b' with
      | false => exact hthrice.symm
      | true => cases htwice.symm.trans (left_of_left hthird htwice hthrice)
    | true =>
      have honce := left_before hfirst hsecond htwice
      have hleaf : leafVerdict ctx models once path id = leafVerdict ctx models twice path id := by
        funext demand
        rw [leafVerdict_of_status honce, leafVerdict_of_status htwice,
          admits_congr (discriminatorAllows_twice hfirst hsecond hstratified honce)]
      rw [← htwice, hsecond.status rfl, hthird.status rfl, hleaf, htwice, honce]

lemma resolves_twice (hdemand : (path, demand) ∈ t.demands)
    (h : Resolves ctx models once path demand) : Resolves ctx models twice path demand := by
  have honce : path ∈ paths once := by
    rw [← Candidate.isSome_status 0, hfirst.status rfl]
    exact Narrowing.isSome_verdict_of_demand hdemand
  have htwice : path ∈ paths twice := by
    rw [← Candidate.isSome_status 0, hsecond.status rfl]
    exact Narrowing.isSome_verdict_of_demand hdemand
  refine ⟨fun id hid => ?_, fun hstrict => ?_⟩
  · rw [mem_candidatesAt_iff htwice] at hid
    exact h.named id ((mem_candidatesAt_iff honce).2 (left_before hfirst hsecond hid))
  · obtain ⟨id, hid, hadmits⟩ := h.left hstrict
    rw [mem_candidatesAt_iff honce] at hid
    refine ⟨id, (mem_candidatesAt_iff htwice).2
      (admitted_stays hfirst hsecond hdemand hid hadmits), ?_⟩
    rw [← hadmits]
    exact (admits_congr (discriminatorAllows_twice hfirst hsecond hstratified hid) demand).symm

/-- **A third round changes nothing.** -/
lemma third_round (hdistinct : Candidate.Distinct twice)
    {x : Except CompileError (List Candidate)} (hthird : Realizes ctx models twice t x) :
    ∃ thrice, x = .ok thrice ∧ Candidate.SameSets twice thrice := by
  obtain ⟨hrefuses, hdemands⟩ := hsecond.runs.1 ⟨twice, rfl⟩
  obtain ⟨thrice, rfl⟩ := hthird.runs.2 ⟨hrefuses, fun d hd =>
    resolves_twice hfirst hsecond hstratified hd (hdemands d hd)⟩
  exact ⟨thrice, rfl, .of_status hdistinct.clean (hthird.clean rfl) fun _ _ =>
    status_thrice hfirst hsecond hstratified hthird⟩

end

/-! ## The order and the number of rounds -/

/-- **Narrowing does not depend on the order of conditions, and two rounds settle it.**  Candidates
have distinct paths with distinct nodes.  Permuting the children of expressions at any depth keeps
what an expression leaves, or that it fails.  Where two rounds over the value of a component succeed
and the first leaves stratified candidates, a third round succeeds and keeps the nodes and the flag
of each path. -/
theorem narrowing_settles (ctx : Context) (models : List ModelId) {ps : List Candidate}
    (hps : Candidate.Distinct ps) :
    (∀ (label : String) (site : Site) (cs ds : List (String × Operand)),
      Operand.Permuted (.expression cs) (.expression ds) →
        SameNarrowing (expressionProperties ctx models label site ps cs).result
          (expressionProperties ctx models label site ps ds).result) ∧
    (∀ (site : Site) (v : Operand) (once twice : List Candidate),
      (componentProperties ctx site models v ps).result = .ok once →
      (componentProperties ctx site models v once).result = .ok twice →
      ctx.catalog.Stratified once →
        ∃ thrice, (componentProperties ctx site models v twice).result = .ok thrice ∧
          Candidate.SameSets twice thrice) := by
  refine ⟨fun label site cs ds h => ?_, fun site v once twice honce htwice hstratified => ?_⟩
  · exact sameNarrowing_of_same (expressionProperties_realizes hps cs label site)
      (expressionProperties_realizes hps ds label site) ((permuted_same h).2 false site)
  · have hround : ∀ {qs}, Candidate.Distinct qs → Realizes ctx models qs
        (componentNarrowing site v) (componentProperties ctx site models v qs).result :=
      fun hqs => componentProperties_realizes hqs site v
    have hdonce := ((hround hps).clean honce).toDistinct
    have hdtwice := ((hround hdonce).clean htwice).toDistinct
    exact third_round (honce ▸ hround hps) (htwice ▸ hround hdonce) hstratified hdtwice
      (hround hdtwice)

/-- What is left after some rounds over a match. -/
def rounds (ctx : Context) (v : Operand) : Nat → Except CompileError (List Candidate)
  | 0 => .ok []
  | n + 1 => do
    (componentProperties ctx (Site.root StageKind.match.key) ctx.models v (← rounds ctx v n)).result

lemma rounds_succ {ctx : Context} {v : Operand} {n : Nat} {ps : List Candidate}
    (h : rounds ctx v n = .ok ps) : rounds ctx v (n + 1) =
      (componentProperties ctx (Site.root StageKind.match.key) ctx.models v ps).result := by
  rw [rounds, h]
  rfl

/-- A schema of shelves, which hold documents `a` with a number and `b` with a text. -/
def shelfSchema : Json :=
  .obj [("objects", .arr [.obj [("name", .str "c_shelf"), ("properties", .arr [
    .obj [("name", .str "c_s"), ("type", .str "Set"), ("documents", .arr [
      .obj [("name", .str "a"), ("properties", .arr [
        .obj [("name", .str "c_v"), ("type", .str "Number")]])],
      .obj [("name", .str "b"), ("properties", .arr [
        .obj [("name", .str "c_v"), ("type", .str "String")]])]])]])]])]

def shelfContext : Context where
  catalog := (Catalog.load shelfSchema).toOption.getD {}
  options := { object := "c_shelf", strict := true }
  indexes := fun _ => []
  kind := .match
  models := [0]

/-- A match of a value in the documents `a`. -/
def shelfMatch : Children :=
  [("c_s.c_v", .simple (.str "5")), ("c_s.name", .simple (.str "a"))]

/-- The first round leaves both values, the second that of the documents `a`, and the third the
same. -/
theorem shelf_match_settles : Candidate.Distinct [] ∧ SameNarrowing
      (expressionProperties shelfContext [0] matchLabel (Site.root "$match") [] shelfMatch).result
      (expressionProperties shelfContext [0] matchLabel (Site.root "$match") []
        shelfMatch.reverse).result ∧
    ∃ once twice thrice, rounds shelfContext (.expression shelfMatch) 1 = .ok once ∧
      rounds shelfContext (.expression shelfMatch) 2 = .ok twice ∧
      rounds shelfContext (.expression shelfMatch) 3 = .ok thrice ∧
      shelfContext.catalog.Stratified once ∧ Candidate.SameSets twice thrice ∧
      status once "c_s.c_v" 10 = some true ∧ status twice "c_s.c_v" 10 = some false := by
  have hempty : Candidate.Distinct [] := ⟨nodup_nil, fun _ h => by cases h⟩
  obtain ⟨once, honce, hstratified, hleft⟩ : ∃ once,
      rounds shelfContext (.expression shelfMatch) 1 = .ok once ∧
      shelfContext.catalog.Stratified once ∧ status once "c_s.c_v" 10 = some true :=
    exists_eq_ok_and (by decide +kernel)
  obtain ⟨twice, htwice, hgone⟩ : ∃ twice,
      rounds shelfContext (.expression shelfMatch) 2 = .ok twice ∧
      status twice "c_s.c_v" 10 = some false :=
    exists_eq_ok_and (by decide +kernel)
  have hsettles := narrowing_settles shelfContext [0] hempty
  obtain ⟨thrice, hthrice, hsame⟩ := hsettles.2 (Site.root "$match") (.expression shelfMatch) once
    twice honce ((rounds_succ honce).symm.trans htwice) hstratified
  refine ⟨hempty, ?_, once, twice, thrice, honce, htwice, ?_, hstratified, hsame, hleft, hgone⟩
  · exact hsettles.1 _ _ _ _ (.children (reverse_perm shelfMatch).symm)
  · exact (rounds_succ htwice).trans hthrice

/-- A schema of dogs, whose documents are told apart by their kind, and birds, whose documents are
told apart by a label and may have a kind. -/
def kennelSchema : Json :=
  .obj [("objects", .arr [.obj [("name", .str "c_pet"), ("properties", .arr []), ("types", .arr [
    .obj [("name", .str "c_dog"), ("properties", .arr [
      .obj [("name", .str "c_s"), ("type", .str "Set"), ("discriminatorKey", .str "c_kind"),
        ("documents", .arr [ .obj [("name", .str "d"), ("properties", .arr [
            .obj [("name", .str "c_name"), ("type", .str "Number")]])],
          .obj [("name", .str "z"), ("properties", .arr [
            .obj [("name", .str "c_name"), ("type", .str "String")]])]])]])],
    .obj [("name", .str "c_bird"), ("properties", .arr [
      .obj [("name", .str "c_s"), ("type", .str "Set"), ("discriminatorKey", .str "c_label"),
        ("documents", .arr [ .obj [("name", .str "d"), ("properties", .arr [
            .obj [("name", .str "c_kind"), ("type", .str "String")]])],
          .obj [("name", .str "z"), ("properties", .arr [])]])]])]])]])]

def kennelContext : Context where
  catalog := (Catalog.load kennelSchema).toOption.getD {}
  options := { object := "c_pet" }
  indexes := fun _ => []
  kind := .match
  models := [0, 1, 2]

/-- A match whose label rules out the kind of a bird, which is all that allows the name of a dog. -/
def kennelMatch : Operand :=
  .expression [("c_s.c_name", .simple (.str "5")), ("c_s.c_kind", .simple (.str "z")),
    ("c_s.c_label", .simple (.str "z"))]

/-- **Without stratified candidates a third round may narrow further.** -/
theorem third_round_narrows : ∃ once twice thrice, rounds kennelContext kennelMatch 1 = .ok once ∧
    rounds kennelContext kennelMatch 2 = .ok twice ∧
    rounds kennelContext kennelMatch 3 = .ok thrice ∧ ¬Candidate.SameSets twice thrice := by
  obtain ⟨once, honce⟩ : ∃ once, rounds kennelContext kennelMatch 1 = .ok once :=
    exists_eq_ok (by decide +kernel)
  obtain ⟨twice, htwice, hbefore⟩ : ∃ twice, rounds kennelContext kennelMatch 2 = .ok twice ∧
      status twice "c_s.c_name" 13 = some true :=
    exists_eq_ok_and (by decide +kernel)
  obtain ⟨thrice, hthrice, hafter⟩ : ∃ thrice, rounds kennelContext kennelMatch 3 = .ok thrice ∧
      status thrice "c_s.c_name" 13 = some false :=
    exists_eq_ok_and (by decide +kernel)
  refine ⟨once, twice, thrice, honce, htwice, hthrice, fun hsame => ?_⟩
  have hstatus := hsame.status_eq "c_s.c_name" 13
  rw [hbefore, hafter] at hstatus
  cases hstatus

end Match

end Conduit
