import Conduit.Proofs.NarrowingTerms

/-!
# Where conditions stand

A condition means the same at the top of a match and inside a logical operator.  Its place shows in
messages, and decides whether a rule lets it stand; where it may stand at two places, it is read
and narrows properties the same at both (`concur_readsInStep`, `narrowingsBelow_samePlace`).
-/

namespace Conduit

/-! ## Runs that concur -/

/-- Two runs give the same value where both succeed. -/
def Concur {α : Type} (x y : Except CompileError α) : Prop := ∀ ⦃a b⦄, x = .ok a → y = .ok b → a = b

namespace Concur

variable {α β : Type} {x y : Except CompileError α} {f g : α → Except CompileError β}

lemma refl (x : Except CompileError α) : Concur x x := fun a b ha hb => by
  rw [ha] at hb
  exact Except.ok.inj hb

lemma error (e : CompileError) (y : Except CompileError α) : Concur (.error e) y :=
  fun _ _ h => by cases h

lemma unit (x y : Except CompileError Unit) : Concur x y := fun _ _ _ _ => rfl

lemma bind (h : Concur x y) (hfg : ∀ a, Concur (f a) (g a)) : Concur (x >>= f) (y >>= g) := by
  intro a b ha hb
  obtain ⟨c, hx, hc⟩ := except_bind_ok_iff.1 ha
  obtain ⟨d, hy, hd⟩ := except_bind_ok_iff.1 hb
  cases h hx hy
  exact hfg c hc hd

end Concur

namespace Match

/-! ## Reading -/

lemma validate_concur (cache : Pattern.Cache) (v : Json) (limits : Limits) (path path' : String) :
    Concur (cache.validate v limits path) (cache.validate v limits path') := by
  unfold Pattern.Cache.validate
  split
  · exact .refl _
  · dsimp only
    split
    all_goals
      split
      · split
        · exact .refl _
        · exact .error _ _
      · exact .error _ _

lemma concur_readsInStep (ctx : Context) : ReadsInStep ctx ctx (fun _ _ => True) Concur where
  placeholder? := rfl
  ok _ := .refl _
  error _ := .error _ _
  bind := .bind
  child _ _ := trivial
  checkExpression _ _ _ _ hfs hgs :=
    Json.obj.inj ((checkExpression_ok_iff.1 hfs).1.symm.trans (checkExpression_ok_iff.1 hgs).1)
  validate v _ := validate_concur _ v _ _ _
  checkAll _ _ _ _ _ := .unit _ _
  allows := id
  allElements := id

/-! ## Properties -/

mutual

/-- **A condition narrows properties the same at places beside each other.** -/
lemma narrowing_samePlace : ∀ (v : Operand) {s s' : Site}, SamePlace s s' →
    narrowing s v = narrowing s' v
  | .expression cs, s, s', h => by
    rw [narrowing, narrowing, h.matchOp?, narrowingsBelow_samePlace cs h.names]
  | .array vs, s, s', h => by
    rw [narrowing, narrowing, h.matchOp?, h.propertyPath]
    simp only [narrowingsAmong_samePlace _ vs h]
  | .simple _, s, s', h | .property _, s, s', h | .variable _, s, s', h | .raw _, s, s', h => by
    simp only [narrowing, h.matchOp?, h.propertyPath]

lemma narrowingsBelow_samePlace : ∀ (cs : Children) {s s' : Site},
    names s = names s' → narrowingsBelow s cs = narrowingsBelow s' cs
  | [], s, s', h => rfl
  | (key, v) :: rest, s, s', h => by
    rw [narrowingsBelow, narrowingsBelow, narrowing_samePlace v (samePlace_child h key),
      narrowingsBelow_samePlace rest h]

lemma narrowingsAmong_samePlace (literals : Bool) : ∀ (vs : List Operand) {s s' : Site},
    SamePlace s s' → narrowingsAmong literals s vs = narrowingsAmong literals s' vs
  | [], s, s', h => rfl
  | .expression cs :: rest, s, s', h => by
    rw [narrowingsAmong, narrowingsAmong, narrowingsBelow_samePlace cs h.names,
      narrowingsAmong_samePlace literals rest h]
  | .simple _ :: rest, s, s', h => by
    rw [narrowingsAmong, narrowingsAmong, h.propertyPath, narrowingsAmong_samePlace literals rest h]
  | .array _ :: rest, s, s', h | .property _ :: rest, s, s', h | .variable _ :: rest, s, s', h
  | .raw _ :: rest, s, s', h => by
    unfold narrowingsAmong
    rw [narrowingsAmong_samePlace literals rest h]

end

end Match

end Conduit
