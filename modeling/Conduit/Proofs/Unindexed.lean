import Conduit.Proofs.IndexAgreement

/-!
# Matches without an index

Where no index is in question, building enters nothing into the index query, and the native query
stands alone, without base conditions and without the check of native indexes (`build_unindexed`).
-/

namespace Conduit.Match

open List Journaled Builder

/-! ## Nothing is entered without an index -/

/-- What building a part does enters nothing into the index query. -/
def Silent {α : Type} (x : Build α) : Prop := entered x.journal = []

lemma silent_bind {α β : Type} {x : Build α} {f : α → Build β} (hx : Silent x)
    (hf : ∀ a, x.result = .ok a → Silent (f a)) : Silent (x >>= f) := by
  obtain ⟨_ | a, journal⟩ := x
  · exact hx
  · rw [Silent, ok_bind]
    rw [entered_append, hx, hf a rfl]
    rfl

lemma silent_inStep {b : Builder} (hindex : b.ctx.usesIndex = false) :
    InStep b b Eq fun x _ => Silent x where
  catalog := rfl
  usesIndex := rfl
  currentLocale := rfl
  ok _ := rfl
  error _ := rfl
  bind := silent_bind
  incomplete := rfl
  cast _ _ _ _ := rfl
  site ht := ht ▸ rfl
  parent ht := ht ▸ rfl
  buildKey ht := ht ▸ rfl
  property _ := entered_events _
  enter _ husesIndex := absurd husesIndex (by rw [hindex]; exact Bool.false_ne_true)

lemma buildNatural_silent {b : Builder} (hindex : b.ctx.usesIndex = false) (root : Trail)
    (v : Operand) : Silent (b.buildNatural root v) :=
  (silent_inStep hindex).buildNatural (P := fun t u _ => t = u) ⟨id, fun ht _ => ht ▸ rfl⟩ v rfl

/-! ## The native query alone -/

lemma runSteps_silent {journal : List Step} (h : entered journal = []) (i : Indexing) :
    ∃ complete, (runSteps journal i).result = .ok { i with complete } := by
  induction journal generalizing i with
  | nil => exact ⟨i.complete, rfl⟩
  | cons s rest ih =>
    cases s with
    | event e =>
      obtain ⟨complete, hrest⟩ := ih h i
      exact ⟨complete, by rw [runSteps, result_bind, hrest]; rfl⟩
    | incomplete => exact ih h { i with complete := false }
    | enter steps pairs path => cases h

/-- **Without an index the native query stands alone.** -/
lemma build_unindexed {ctx : Context} (hindex : ctx.usesIndex = false) (root : Trail)
    (v : Operand) (findings : Findings) : (build ctx root v findings).result =
      Json.obj <$> (buildNatural ⟨ctx, findings.references⟩ root v).result := by
  have hbase : ctx.baseFind = [] := by rw [Context.baseFind, hindex]; rfl
  have hchecks : ∀ query, (checkNativeIndexes ctx findings.checks query).result = .ok () := by
    intro query
    rw [checkNativeIndexes, hindex]
    rfl
  obtain ⟨complete, hrun⟩ := runSteps_silent (buildNatural_silent (b := ⟨ctx, _⟩) hindex root v)
    { entries := .new [] }
  rw [build, hbase, result_bind, hrun]
  cases hnatural : buildNatural ⟨ctx, findings.references⟩ root v with
  | mk result journal =>
    cases result with
    | error e => rfl
    | ok natural =>
      -- nothing is entered, so that there is no index query
      change (checkNativeIndexes ctx findings.checks (.obj natural) >>= fun _ =>
        (pure (.obj natural) : Compile Json)).result = _
      rw [result_bind, hchecks]
      rfl

end Conduit.Match
