import Conduit.Pipeline
import Conduit.Proofs.IndexSearch
import Conduit.Proofs.Journal

/-!
# Lifting checks

Some of what a pipeline is compiled against only decides what is refused: whether the pipeline is
strict, its limits, the restricted operators, what the caller may read, and the indexes that a query
may reach.  These are the `Checks` of a context.  A run under looser checks gives what the run under
the given ones gives, if that succeeds.

Lifting goes through binds and guards (`Lifts.bind`, `Lifts.guard`), so that it is proved along the
body of each function.  This module has the rules and the checks that functions share.
-/

namespace Conduit

open Journaled List

/-! ## Two runs at once -/

section

variable {α β γ δ ν μ : Type} {R : α → β → Prop} {S : γ → δ → Prop} {x y : Compile α}
  {f : γ → Compile α}

/-- `y` succeeds wherever `x` does, with a related value. -/
def Lifts (R : α → β → Prop) (x : Except CompileError α) (y : Except CompileError β) : Prop :=
  ∀ a, x = .ok a → ∃ b, y = .ok b ∧ R a b

namespace Lifts

lemma refl (x : Except CompileError α) : Lifts Eq x x := fun a h => ⟨a, h, rfl⟩

lemma ok {a : α} {b : β} (h : R a b) : Lifts R (.ok a) (.ok b) := by
  rintro _ ⟨⟩
  exact ⟨b, rfl, h⟩

lemma error (e : CompileError) (y : Except CompileError β) : Lifts R (.error e) y := by
  intro _ h
  cases h

variable {x : Except CompileError α} {y z : Except CompileError β} {f : γ → Except CompileError α}
  {c c' : Prop} {e : CompileError}

lemma bindBy {x : Except CompileError γ} {y : Except CompileError δ}
    {g : δ → Except CompileError β} (hxy : Lifts S x y) (hfg : ∀ a b, S a b → Lifts R (f a) (g b)) :
    Lifts R (x >>= f) (y >>= g) := by
  intro c h
  rw [except_bind_ok_iff] at h
  obtain ⟨a, hx, hf⟩ := h
  obtain ⟨b, hy, hab⟩ := hxy a hx
  obtain ⟨d, hg, hcd⟩ := hfg a b hab c hf
  exact ⟨d, except_bind_ok_iff.2 ⟨b, hy, hg⟩, hcd⟩

lemma bind {x y : Except CompileError γ} {g : γ → Except CompileError β} (hxy : Lifts Eq x y)
    (hfg : ∀ a, Lifts R (f a) (g a)) : Lifts R (x >>= f) (y >>= g) :=
  hxy.bindBy fun a _ h => h ▸ hfg a

lemma map {x y : Except CompileError γ} (h : Lifts Eq x y) (f : γ → α) :
    Lifts Eq (x.map f) (y.map f) := by
  intro c hc
  rw [except_map_ok_iff] at hc
  obtain ⟨a, hx, rfl⟩ := hc
  obtain ⟨_, hy, rfl⟩ := h a hx
  exact ⟨_, except_map_ok_iff.2 ⟨a, hy, rfl⟩, rfl⟩

lemma mapM {g : γ → Except CompileError α} (h : ∀ i, Lifts Eq (f i) (g i)) (is : List γ) :
    Lifts Eq (is.mapM f) (is.mapM g) := by
  induction is with
  | nil => exact .refl _
  | cons i rest ih =>
    rw [mapM_cons, mapM_cons]
    exact .bind (h i) fun _ => .bind ih fun _ => .refl _

lemma guard [Decidable c] [Decidable c'] (hc : c' → c) (h : Lifts R x y) :
    Lifts R (if c then .error e else x) (if c' then z else y) := by
  by_cases hrefused : c
  · rw [if_pos hrefused]
    exact error e _
  · rw [if_neg hrefused, if_neg (mt hc hrefused)]
    exact h

lemma allow [Decidable c] [Decidable c'] (hc : c → c') (h : Lifts R x y) :
    Lifts R (if c then x else .error e) (if c' then y else z) := by
  by_cases hallowed : c
  · rw [if_pos hallowed, if_pos (hc hallowed)]
    exact h
  · rw [if_neg hallowed]
    exact error e _

lemma drop [Decidable c] (h : Lifts R x y) : Lifts R (if c then .error e else x) y := by
  split
  · exact error e y
  · exact h

lemma ite [Decidable c] {x' : Except CompileError α} {y' : Except CompileError β}
    (h : Lifts R x y) (h' : Lifts R x' y') :
    Lifts R (if c then x else x') (if c then y else y') := by
  split
  · exact h
  · exact h'

end Lifts

namespace Journaled

/-- `y` succeeds wherever `x` does, with a related value and the same notes. -/
def Lifts (R : α → β → Prop) (x : Journaled ν α) (y : Journaled ν β) : Prop :=
  ∀ a notes, x = ⟨.ok a, notes⟩ → ∃ b, y = ⟨.ok b, notes⟩ ∧ R a b

namespace Lifts

lemma refl (x : Journaled ν α) : Lifts Eq x x := fun a _ h => ⟨a, h, rfl⟩

lemma ok {a : α} {b : β} (h : R a b) : Lifts R (⟨.ok a, []⟩ : Journaled ν α) ⟨.ok b, []⟩ := by
  rintro _ _ ⟨⟩
  exact ⟨b, rfl, h⟩

lemma error (e : CompileError) (notes : List ν) (y : Journaled ν β) :
    Lifts R (⟨.error e, notes⟩ : Journaled ν α) y := by
  intro _ _ h
  cases h

lemma of {x : Except CompileError α} {y : Except CompileError β} (h : Conduit.Lifts R x y) :
    Lifts R (of x : Journaled ν α) (of y) := by
  rintro a _ ⟨⟩
  obtain ⟨b, rfl, hab⟩ := h a rfl
  exact ⟨b, rfl, hab⟩

variable {x : Journaled ν α} {y z : Journaled ν β} {f : γ → Journaled ν α} {c c' : Prop}
  {e : CompileError} {notes : List ν}

lemma bindBy {x : Journaled ν γ} {y : Journaled ν δ} {g : δ → Journaled ν β} (hxy : Lifts S x y)
    (hfg : ∀ a b, S a b → Lifts R (f a) (g b)) : Lifts R (x >>= f) (y >>= g) := by
  intro c notes h
  rw [bind_ok_iff] at h
  obtain ⟨a, front, back, hx, hf, rfl⟩ := h
  obtain ⟨b, hy, hab⟩ := hxy a front hx
  obtain ⟨d, hg, hcd⟩ := hfg a b hab c back hf
  exact ⟨d, bind_ok_iff.2 ⟨b, front, back, hy, hg, rfl⟩, hcd⟩

lemma bind {x y : Journaled ν γ} {g : γ → Journaled ν β} (hxy : Lifts Eq x y)
    (hfg : ∀ a, Lifts R (f a) (g a)) : Lifts R (x >>= f) (y >>= g) :=
  hxy.bindBy fun a _ h => h ▸ hfg a

lemma mapNotes {y : Journaled ν α} (h : Lifts Eq x y) (f : List ν → List μ) :
    Lifts Eq (x.mapNotes f) (y.mapNotes f) := by
  intro a notes hx
  rw [mapNotes_ok_iff] at hx
  obtain ⟨m, hx, rfl⟩ := hx
  obtain ⟨_, hy, rfl⟩ := h a m hx
  exact ⟨a, mapNotes_ok_iff.2 ⟨m, hy, rfl⟩, rfl⟩

lemma guard [Decidable c] [Decidable c'] (hc : c' → c) (h : Lifts R x y) :
    Lifts R (if c then ⟨.error e, notes⟩ else x) (if c' then z else y) := by
  by_cases hrefused : c
  · rw [if_pos hrefused]
    exact error e _ _
  · rw [if_neg hrefused, if_neg (mt hc hrefused)]
    exact h

lemma allow [Decidable c] [Decidable c'] (hc : c → c') (h : Lifts R x y) :
    Lifts R (if c then x else ⟨.error e, notes⟩) (if c' then y else z) := by
  by_cases hallowed : c
  · rw [if_pos hallowed, if_pos (hc hallowed)]
    exact h
  · rw [if_neg hallowed]
    exact error e _ _

lemma ite [Decidable c] {x' : Journaled ν α} {y' : Journaled ν β} (h : Lifts R x y)
    (h' : Lifts R x' y') : Lifts R (if c then x else x') (if c then y else y') := by
  split
  · exact h
  · exact h'

end Lifts

end Journaled

/-- `y` succeeds wherever `x` does, with the same value and the same need of access. -/
def Keeps (x y : Compile α) : Prop := ∀ a notes, x = ⟨.ok a, notes⟩ →
    ∃ notes', y = ⟨.ok a, notes'⟩ ∧ requiredAccess notes' = requiredAccess notes

lemma Journaled.Lifts.keeps (h : Journaled.Lifts Eq x y) : Keeps x y := by
  intro a notes hx
  obtain ⟨_, hy, rfl⟩ := h a notes hx
  exact ⟨notes, hy, rfl⟩

lemma Keeps.refl (x : Compile α) : Keeps x x := fun _ notes h => ⟨notes, h, rfl⟩

lemma Keeps.ite {c : Prop} [Decidable c] {x' y' : Compile α} (h : Keeps x y) (h' : Keeps x' y') :
    Keeps (if c then x else x') (if c then y else y') := by
  split
  · exact h
  · exact h'

lemma Keeps.of_silent (hx : requiredAccess x.journal = .none)
    (hy : requiredAccess y.journal = .none) (h : ∀ a, x.result = .ok a → y.result = .ok a) :
    Keeps x y := by
  rintro a _ rfl
  exact ⟨y.journal, eq_ok_of_result (h a rfl), hy.trans hx.symm⟩

lemma Keeps.bind {x y : Compile γ} {g : γ → Compile α} (hxy : Keeps x y)
    (hfg : ∀ a, Keeps (f a) (g a)) : Keeps (x >>= f) (y >>= g) := by
  intro b notes h
  rw [bind_ok_iff] at h
  obtain ⟨a, front, back, hx, hf, rfl⟩ := h
  obtain ⟨front', hy, hfront⟩ := hxy a front hx
  obtain ⟨back', hg, hback⟩ := hfg a b back hf
  refine ⟨front' ++ back', bind_ok_iff.2 ⟨a, front', back', hy, hg, rfl⟩, ?_⟩
  rw [requiredAccess_append, requiredAccess_append, hfront, hback]

lemma Journaled.Lifts.bindKeeps {x : Compile γ} {y : Compile δ} {g : δ → Compile α}
    (hxy : Journaled.Lifts S x y) (hfg : ∀ a b, S a b → Keeps (f a) (g b)) :
    Keeps (x >>= f) (y >>= g) := by
  intro c notes h
  rw [bind_ok_iff] at h
  obtain ⟨a, front, back, hx, hf, rfl⟩ := h
  obtain ⟨b, hy, hab⟩ := hxy a front hx
  obtain ⟨back', hg, hback⟩ := hfg a b hab c back hf
  refine ⟨front ++ back', bind_ok_iff.2 ⟨b, front, back', hy, hg, rfl⟩, ?_⟩
  rw [requiredAccess_append, requiredAccess_append, hback]

end

/-! ## Looser checks -/

/-- What a compilation may refuse. -/
structure Checks where
  strict : Bool
  relaxLimits : Bool
  unindexed : Bool
  allowSystemAccess : Bool
  allowedRestrictedOps : List String
  policy : Policy
  indexes : String → List IndexDefinition

/-- Whether a caller under `q` may read all that one under `p` may. -/
def Policy.Within : Policy → Policy → Prop
  | _, .allowAll => True
  | .principal low, .principal high => low ≤ high
  | .allowAll, .principal _ => False

/-- Checks that refuse no more than others. -/
structure Checks.LooserThan (k j : Checks) : Prop where
  strict : k.strict = true → j.strict = true
  relaxLimits : j.relaxLimits = true → k.relaxLimits = true
  unindexed : j.unindexed = true → k.unindexed = true
  allowSystemAccess : j.allowSystemAccess = true → k.allowSystemAccess = true
  allowedRestrictedOps : j.allowedRestrictedOps ⊆ k.allowedRestrictedOps
  policy : j.policy.Within k.policy
  indexes : ∀ collection, j.indexes collection ⊆ k.indexes collection

lemma Checks.LooserThan.refl (k : Checks) : k.LooserThan k := by
  refine ⟨id, id, id, id, fun _ h => h, ?_, fun _ _ h => h⟩
  cases k.policy with
  | allowAll => trivial
  | principal level => exact Nat.le_refl _

lemma Policy.Within.grants {p q : Policy} (h : p.Within q) {level : AccessLevel}
    (hp : p.grants level = true) : q.grants level = true := by
  cases q with
  | allowAll => rfl
  | principal high =>
    cases p with
    | allowAll => exact False.elim h
    | principal low =>
      simp only [Policy.grants, decide_eq_true_eq] at hp ⊢
      exact AccessLevel.le_trans hp h

/-- What still needs a native index: nothing where all properties count as indexed. -/
def Checks.pending {α : Type} (k : Checks) (checks : List α) : List α :=
  if k.unindexed then [] else checks

namespace Checks

variable {α β : Type} (k : Checks)

@[simp] lemma pending_nil : k.pending ([] : List α) = [] := by
  unfold pending
  split <;> rfl

@[simp] lemma pending_append (l l' : List α) :
    k.pending (l ++ l') = k.pending l ++ k.pending l' := by
  unfold pending
  split <;> rfl

@[simp] lemma map_pending (f : α → β) (l : List α) : (k.pending l).map f = k.pending (l.map f) := by
  unfold pending
  split <;> rfl

end Checks

/-- The options with other checks. -/
def Options.under (o : Options) (k : Checks) : Options := { o with
    strict := k.strict
    relaxLimits := k.relaxLimits
    unindexed := k.unindexed
    allowSystemAccess := k.allowSystemAccess
    allowedRestrictedOps := k.allowedRestrictedOps }

/-- The checks the options ask for, with a policy and the indexes there are. -/
def Options.checks (o : Options) (policy : Policy)
    (indexes : String → List IndexDefinition) : Checks where
  strict := o.strict
  relaxLimits := o.relaxLimits
  unindexed := o.unindexed
  allowSystemAccess := o.allowSystemAccess
  allowedRestrictedOps := o.allowedRestrictedOps
  policy
  indexes

namespace Context

/-- The checks of a context. -/
def checks (ctx : Context) : Checks := ctx.options.checks ctx.policy ctx.indexes

/-- The context with other checks. -/
def under (ctx : Context) (k : Checks) : Context :=
  { ctx with options := ctx.options.under k, policy := k.policy, indexes := k.indexes }

lemma catalog_under (ctx : Context) (k : Checks) : (ctx.under k).catalog = ctx.catalog := rfl

lemma kind_under (ctx : Context) (k : Checks) : (ctx.under k).kind = ctx.kind := rfl

lemma placeholder?_under (ctx : Context) (k : Checks) (v : Json) :
    (ctx.under k).placeholder? v = ctx.placeholder? v := rfl

lemma candidateNodes_under (ctx : Context) (k : Checks) (path : String) :
    (ctx.under k).candidateNodes path = ctx.candidateNodes path := rfl

end Context

section

variable {ν α : Type} (ctx : Context) (k : Checks)

/-- `f` succeeds under `k` wherever it does in `ctx`, with the same value. -/
abbrev Lifted (f : Context → Except CompileError α) : Prop := Lifts Eq (f ctx) (f (ctx.under k))

/-- `f` succeeds under `k` wherever it does in `ctx`, with the same value and the same notes. -/
abbrev LiftedRun (f : Context → Journaled ν α) : Prop :=
  Journaled.Lifts Eq (f ctx) (f (ctx.under k))

end

/-! ## Limits and rules -/

/-- Limits that are lifted or as they were. -/
def Limits.LooserThan (l l₀ : Limits) : Prop := l = .lifted ∨ l = l₀

namespace Limits

variable {l l₀ : Limits}

lemma LooserThan.exceeds (h : l.LooserThan l₀) (bound : Limits → Option Nat)
    (hbound : bound .lifted = none) {n : Nat} (hn : exceeds (bound l) n = true) :
    exceeds (bound l₀) n = true := by
  rcases h with rfl | rfl
  · rw [hbound] at hn
    cases hn
  · exact hn

lemma LooserThan.of {relaxed relaxed₀ : Bool} (h : relaxed₀ = true → relaxed = true) :
    (Limits.of relaxed).LooserThan (.of relaxed₀) := by
  cases relaxed with
  | true => exact .inl rfl
  | false =>
    cases relaxed₀ with
    | true => cases h rfl
    | false => exact .inr rfl

end Limits

lemma checkExpression_lifts {l l₀ : Limits} (hl : l.LooserThan l₀) (site : Site) (v : Json) :
    Lifts Eq (checkExpression l₀ site v) (checkExpression l site v) := by
  refine .guard (hl.exceeds Limits.depth rfl) ?_
  cases v with
  | obj fs => exact .guard id (.guard (hl.exceeds Limits.keys rfl) (.refl _))
  | _ => exact .refl _

namespace Rule

variable {l l₀ : Limits} {op : String} {v : Json}

variable (hl : l.LooserThan l₀)

include hl

lemma valueListFault_eq_none (h : valueListFault op l₀ v = none) :
    valueListFault op l v = none := by
  cases v with
  | arr items =>
    simp only [valueListFault, ite_eq_right_iff, reduceCtorEq, imp_false] at h ⊢
    exact mt (hl.exceeds Limits.inElements rfl) h
  | _ => exact h

lemma conditionsFault_eq_none (h : conditionsFault op l₀ v = none) :
    conditionsFault op l v = none := by
  cases v with
  | arr items =>
    simp only [conditionsFault] at h ⊢
    split at h
    · cases h
    · split at h
      · cases h
      · next hlong =>
        rw [if_neg ‹_›, if_neg (mt (hl.exceeds Limits.conditions rfl) hlong)]
        exact h
  | _ => exact h

lemma fault?_eq_none {r : Rule} {site : Site} {isVariable : Bool}
    (h : r.fault? site op v isVariable l₀ = none) : r.fault? site op v isVariable l = none := by
  cases r with
  | valueList =>
    cases isVariable with
    | true => rfl
    | false => exact valueListFault_eq_none hl h
  | conditions =>
    cases isVariable with
    | true => rfl
    | false => exact conditionsFault_eq_none hl h
  | _ => exact h

lemma checkAll_lifts (rules : List Rule) (site : Site) (op : String)
    (v : Json) (isVariable : Bool) :
    Lifts Eq (checkAll rules site op v isVariable l₀) (checkAll rules site op v isVariable l) := by
  unfold checkAll
  cases h : rules.findSome? fun r => r.fault? site op v isVariable l₀ with
  | some f => exact .error _ _
  | none =>
    have hnone : (rules.findSome? fun r => r.fault? site op v isVariable l) = none := by
      rw [findSome?_eq_none_iff] at h ⊢
      exact fun r hr => fault?_eq_none hl (h r hr)
    rw [hnone]
    exact .refl _

end Rule

lemma Pattern.validate_lifts {cache : Cache} {l l₀ : Limits} (hl : l.LooserThan l₀) (v : Json)
    (path : String) : Lifts Eq (cache.validate v l₀ path) (cache.validate v l path) := by
  unfold Pattern.Cache.validate
  cases Pattern.ofJson? v with
  | some p => exact .refl _
  | none =>
    refine .allow (fun h => ?_) (.refl _)
    simp only [Bool.and_eq_true, Bool.not_eq_true'] at h ⊢
    refine ⟨h.1, Bool.eq_false_iff.2 fun hlong => ?_⟩
    rw [hl.exceeds Limits.patternLength rfl hlong] at h
    cases h.2

/-! ## Authorization -/

section

variable {ctx : Context} {k : Checks} (hk : k.LooserThan ctx.checks)

include hk

lemma Context.limits_under : (ctx.under k).limits.LooserThan ctx.limits :=
  Limits.LooserThan.of hk.relaxLimits

lemma Context.strict_and_under {c : Bool} (h : ((ctx.under k).strict && c) = true) :
    (ctx.strict && c) = true := by
  simp only [Bool.and_eq_true] at h ⊢
  exact ⟨hk.strict h.1, h.2⟩

lemma Context.systemAccess_under (h : (ctx.under k).options.allowSystemAccess = false) :
    ctx.options.allowSystemAccess = false :=
  Bool.eq_false_iff.2 fun hsystem => Bool.noConfusion (h.symm.trans (hk.allowSystemAccess hsystem))

/-- A node that needs a native index may need none under looser checks. -/
lemma Context.pending_under {α : Type} (c : Bool) (l : List α) :
    (if c && !(ctx.under k).options.unindexed then l else []) =
      k.pending (if c && !ctx.options.unindexed then l else []) := by
  unfold Checks.pending
  change (if c && !k.unindexed then l else []) = _
  cases hlifted : k.unindexed with
  | true => simp
  | false =>
    have hindexed : ctx.options.unindexed = false := Bool.eq_false_iff.2 fun h =>
      Bool.noConfusion (hlifted.symm.trans (hk.unindexed h))
    simp [hindexed]

lemma Context.authorizeEntries_lifts (n : Node) (counts : Bool) :
    LiftedRun ctx k (·.authorizeEntries n counts) := by
  refine .ite (.refl _) ?_
  cases n.acl with
  | none => exact .refl _
  | some acl =>
    cases acl with
    | untargeted => exact .refl _
    | targeted level => exact .allow hk.policy.grants (.refl _)

lemma Context.authorize_lifts (id : NodeId) (counts : Bool) :
    LiftedRun ctx k (·.authorize id counts) := by
  refine .guard (fun h => h) (.bind (authorizeEntries_lifts hk _ _) fun _ =>
    .guard (fun h => ?_) (.refl _))
  simp only [Bool.and_eq_true, Bool.not_eq_true'] at h ⊢
  exact ⟨systemAccess_under hk h.1, h.2⟩

lemma Context.checkLineage_lifts (counts : Bool) (refuses : NodeId → Bool) (fault : String → Fault)
    (path : String) : ∀ ids, LiftedRun ctx k (·.checkLineage counts refuses fault path ids)
  | [] => .refl _
  | id :: rest =>
    .bind (authorize_lifts hk id counts) fun _ =>
      .guard (fun h => h) (checkLineage_lifts counts refuses fault path rest)

end

/-! ## Native indexes -/

/-- Where nothing is left uncovered, nothing is under looser checks. -/
lemma Context.find?_covered_under {ctx : Context} {k : Checks} (hk : k.LooserThan ctx.checks)
    {keys paths : List String} {checks : List (String × NodeId)} {path : String × NodeId → String}
    (h : (checks.find? fun c => !(ctx.indexTree.covered keys paths).contains (path c)) = none) :
    (checks.find? fun c =>
      !((ctx.under k).indexTree.covered keys paths).contains (path c)) = none := by
  simp only [find?_eq_none, Bool.not_eq_true', Bool.not_eq_false, contains_iff_mem] at h ⊢
  exact fun c hc => IndexTree.covered_mono (hk.indexes _) keys paths (h c hc)

/-- What a match and a sort ask of native indexes alike: some keys, which may depend on the paths
to be reached, reach every node. -/
def Context.demandIndexed (ctx : Context) (note : List String → List String → Event)
    (fault : String → Fault) (keys : List String → List String)
    (checks : List (String × NodeId)) : Compile Unit := do
  if !ctx.usesIndex || checks.isEmpty then return
  let paths := checks.map fun c => (ctx.catalog.node c.2).path
  let covered := ctx.indexTree.covered (keys paths) paths
  .note (note covered paths)
  match checks.find? fun c => !covered.contains (ctx.catalog.node c.2).path with
  | some (path, id) => throw ((fault (ctx.catalog.node id).qualifiedPath).at path)
  | none => pure ()

section

variable {ctx : Context} {note : List String → List String → Event} {fault : String → Fault}
  {keys : List String → List String} {checks : List (String × NodeId)}

lemma Context.demandIndexed_journal
    (hnote : ∀ covered paths, requiredAccess [note covered paths] = .none) :
    requiredAccess (ctx.demandIndexed note fault keys checks).journal = .none := by
  unfold demandIndexed
  split
  · rfl
  · dsimp only
    split <;> exact hnote ..

lemma Context.demandIndexed_ok_iff : (ctx.demandIndexed note fault keys checks).result = .ok () ↔
      ctx.usesIndex = false ∨ checks = [] ∨
        let paths := checks.map fun c => (ctx.catalog.node c.2).path
        (checks.find? fun c =>
          !(ctx.indexTree.covered (keys paths) paths).contains (ctx.catalog.node c.2).path) =
            none := by
  unfold demandIndexed
  split
  · next hpass =>
    simp only [Bool.or_eq_true, Bool.not_eq_true', List.isEmpty_iff] at hpass
    exact iff_of_true rfl (hpass.imp id .inl)
  · next hcheck =>
    simp only [Bool.or_eq_true, Bool.not_eq_true', List.isEmpty_iff, not_or] at hcheck
    dsimp only
    split
    · next path id hfind =>
      rw [hfind]
      refine iff_of_false (by intro h; cases h) ?_
      simp [hcheck]
    · next hnone => exact iff_of_true rfl (.inr (.inr hnone))

/-- What needs no native index passes, and a native index that is there stays. -/
lemma Context.demandIndexed_keeps {k : Checks} (hk : k.LooserThan ctx.checks)
    (note : List String → List String → Event) (fault : String → Fault)
    (keys : List String → List String) (checks : List (String × NodeId))
    (hnote : ∀ covered paths, requiredAccess [note covered paths] = .none) :
    Keeps (ctx.demandIndexed note fault keys checks)
      ((ctx.under k).demandIndexed note fault keys (k.pending checks)) := by
  refine .of_silent (demandIndexed_journal hnote) (demandIndexed_journal hnote) fun _ h => ?_
  rw [demandIndexed_ok_iff] at h ⊢
  refine h.imp id fun h => ?_
  unfold Checks.pending
  split
  · exact .inl rfl
  · exact h.imp id (find?_covered_under hk)

end

end Conduit
