import Conduit.Proofs.DoubleText
import Conduit.Proofs.Journal
import Conduit.Stage

/-!
# The numbers of limits and skips

A number in a document has a value, a rational number, and so has a numeral in a text by its digits.
A limit or a skip compiles exactly if what is read is an integer in the range, which has no upper
end where limits are relaxed.  What is emitted is that integer, up to the greatest one of 64 bits.

So a number is kept below 2⁶³, as it is by all that the standard limits let pass.  A greater one is
altered, and so may be a text with a point or an exponent, which is read with several roundings
(`great_limit_altered`).
-/

namespace Conduit

open Journaled

/-- The rational number that a double stands for. -/
def Binary64.value (x : Binary64) : ℚ :=
  (if x.negative then -1 else 1) * x.coefficient * 2 ^ x.exponent

namespace Binary64

variable {x : Binary64}

lemma value_eq_ratio (x : Binary64) :
    x.value = (if x.negative then -1 else 1) * (x.ratio.1 / x.ratio.2) := by
  rw [ratio_eq, zpow_sub₀ (by norm_num), value]
  ring

lemma value_eq_truncate (h : x.isIntegral = true) : x.value = x.truncate := by
  obtain ⟨q, hq⟩ : x.ratio.2 ∣ x.ratio.1 := Nat.dvd_of_mod_eq_zero (beq_iff_eq.1 h)
  have hpos := ratio_snd_pos x
  have hvalue : (x.ratio.1 : ℚ) / x.ratio.2 = q := by
    rw [hq]
    push_cast
    field_simp
  have htruncate : (x.ratio.1 : ℤ) / x.ratio.2 = q := by
    rw [hq]
    push_cast
    exact Int.mul_ediv_cancel_left _ (by omega)
  have hsigned : x.truncate = if x.negative then -(q : ℤ) else q := by
    rw [← htruncate]
    rfl
  rw [value_eq_ratio, hvalue, hsigned]
  split <;> simp

lemma isIntegral_of_value {k : ℤ} (h : x.value = k) : x.isIntegral = true := by
  have hpos : (x.ratio.2 : ℚ) ≠ 0 := Nat.cast_ne_zero.2 (ratio_snd_pos x).ne'
  have habs : (x.ratio.1 : ℚ) / x.ratio.2 = k ∨ (x.ratio.1 : ℚ) / x.ratio.2 = -k := by
    rw [value_eq_ratio] at h
    split at h
    · exact .inr (by linarith)
    · exact .inl (by linarith)
  have hdvd : (x.ratio.2 : ℤ) ∣ x.ratio.1 := by
    rcases habs with h | h
    · exact ⟨k, by rw [div_eq_iff hpos] at h; rw [mul_comm]; exact_mod_cast h⟩
    · exact ⟨-k, by rw [div_eq_iff hpos] at h; rw [mul_comm]; exact_mod_cast h⟩
  exact beq_iff_eq.2 (Nat.mod_eq_zero_of_dvd (Int.natCast_dvd_natCast.1 hdvd))

end Binary64

namespace Json

/-- The value of a number. -/
def value? : Json → Option ℚ
  | .int n => some n
  | .double x => some x.value
  | _ => none

/-- The integer that is read off a number is its value, or the nearest one of 64 bits. -/
lemma integer?_eq_some_iff {v : Json} {n : ℤ} :
    v.integer? = some n ↔ ∃ k : ℤ, v.value? = some (k : ℚ) ∧ clampInt64 k = n := by
  cases v with
  | int m => simp [integer?, value?]
  | double x =>
    simp only [integer?, value?, Option.some.injEq]
    constructor
    · intro h
      split at h
      · next hx => exact ⟨x.truncate, Binary64.value_eq_truncate hx, Option.some.inj h⟩
      · cases h
    · rintro ⟨k, hk, rfl⟩
      have hx := Binary64.isIntegral_of_value hk
      rw [if_pos hx, Int.cast_injective ((Binary64.value_eq_truncate hx).symm.trans hk)]
  | _ => simp [integer?, value?]

lemma value?_merged (v : Json) : v.merged.value? = v.value? := by
  cases v <;> rfl

/-! ## Numerals -/

/-- The number that a numeral stands for. -/
def Numeral.value (m : Numeral) : ℚ :=
  (if m.negative then -1 else 1) * digitsValue (m.whole ++ m.fraction.getD []) *
    10 ^ (m.exponent.getD 0 - (m.fraction.getD []).length)

/-- The numeral that a text is, gaps around it left aside. -/
def numeral? (s : String) : Option Numeral := do
  let (m, rest) ← readNumeral? (skipGaps s.toList)
  if (skipGaps rest).isEmpty then some m else none

lemma gather_eq (ds : List Char) : ∀ pre, digitsValue (pre ++ ds) < 2 ^ 64 →
    gather (digitsValue pre) ds = (digitsValue (pre ++ ds), []) := by
  induction ds with
  | nil => simp [gather]
  | cons d ds ih =>
    intro pre h
    have hnext : digitsValue (pre ++ [d]) = digitsValue pre * 10 + (d.toNat - '0'.toNat) := by
      simp [digitsValue]
    rw [List.append_cons] at h ⊢
    have hle : digitsValue (pre ++ [d]) ≤ digitsValue (pre ++ [d] ++ ds) := by
      rw [Binary64.digitsValue_append (pre ++ [d])]
      exact Nat.le_add_right_of_le (Nat.le_mul_of_pos_right _ (by positivity))
    rw [gather, ← hnext]
    exact (if_pos (hle.trans_lt h)).trans (ih _ h)

/-- **An integer of 64 bits is read as it is written.** -/
lemma Numeral.read?_plain {m : Numeral} (hfraction : m.fraction = none)
    (hexponent : m.exponent = none) (hlow : -2 ^ 63 ≤ m.value) (hhigh : m.value < 2 ^ 64) :
    m.read?.bind value? = some m.value := by
  have hvalue : m.value = (if m.negative then -1 else 1) * (digitsValue m.whole : ℚ) := by
    simp [Numeral.value, hfraction, hexponent]
  rw [hvalue] at hlow hhigh ⊢
  have hread : digitsValue m.whole < 2 ^ 64 →
      m.read? = integerLiteral? m.negative (digitsValue m.whole) := by
    intro hfits
    rw [Numeral.read?, show gather 0 m.whole = _ from gather_eq m.whole [] hfits]
    simp [hfraction, hexponent]
  cases hsign : m.negative with
  | false =>
    simp only [hsign, Bool.false_eq_true, if_false, one_mul] at hhigh
    rw [hread (by exact_mod_cast hhigh), hsign]
    simp [integerLiteral?, value?]
  | true =>
    simp only [hsign, if_true, neg_one_mul, neg_le_neg_iff] at hlow
    have hbound : digitsValue m.whole ≤ 2 ^ 63 := by exact_mod_cast hlow
    rw [hread (hbound.trans_lt (by norm_num)), hsign]
    rcases Nat.eq_zero_or_pos (digitsValue m.whole) with hzero | hpos
    · simp [integerLiteral?, value?, hzero, Binary64.ofRatio, Binary64.value, Binary64.zero]
    · have hint : digitsValue m.whole ≤ 9223372036854775808 := hbound
      simp [integerLiteral?, value?, hpos, hint]

lemma readItems?_arr {fuel depth : ℕ} {acc : List Json} {cs rest : List Char} {v : Json}
    (h : readItems? fuel depth acc cs = some (v, rest)) : v.value? = none := by
  induction fuel generalizing acc cs with
  | zero => simp [readItems?] at h
  | succ fuel ih =>
    rw [readItems?] at h
    split at h
    · cases h
    · split at h
      · exact ih h
      · cases h
        rfl
      · cases h

lemma readFields?_obj {fuel depth : ℕ} {acc : Fields} {cs rest : List Char} {v : Json}
    (h : readFields? fuel depth acc cs = some (v, rest)) : v.value? = none := by
  induction fuel generalizing acc cs with
  | zero => simp [readFields?] at h
  | succ fuel ih =>
    rw [readFields?] at h
    repeat' split at h
    all_goals first | exact ih h | (cases h; done) | (cases h; rfl)

/-- What is read as a number is a numeral: anything else begins with a character of its own. -/
lemma readValue?_iff {fuel depth : ℕ} {cs rest : List Char} {v : Json} (hv : v.value? ≠ none) :
    readValue? (fuel + 1) depth cs = some (v, rest) ↔
      readNumber? (skipGaps cs) = some (v, rest) := by
  rw [readValue?]
  split
  case h_7 => rfl
  all_goals
    next hcs =>
    rw [hcs]
    refine iff_of_false (fun h => hv ?_) nofun
    first
    | obtain ⟨_, -, heq⟩ := Option.map_eq_some_iff.1 h
      cases heq
      rfl
    | repeat' split at h
      all_goals first | exact readItems?_arr h | exact readFields?_obj h | (cases h; rfl) | cases h

lemma readNumber?_iff {cs rest : List Char} {v : Json} : readNumber? cs = some (v, rest) ↔
    ∃ m, readNumeral? cs = some (m, rest) ∧ m.read? = some v := by
  simp only [readNumber?, Option.bind_eq_bind, Option.bind_eq_some_iff]
  grind

/-- The number that a text holds is that of its numeral. -/
lemma read?_value (s : String) :
    (Json.read? s).bind value? = (numeral? s).bind fun m => m.read?.bind value? := by
  have hwritten : ∀ v, v.value? ≠ none → (written? s = some v ↔
      ∃ rest, readNumber? (skipGaps s.toList) = some (v, rest) ∧ skipGaps rest = []) := by
    intro v hv
    have hiff rest := @readValue?_iff (2 * s.toList.length + 1) maxNesting s.toList rest v hv
    simp only [← hiff]
    unfold written?
    grind
  ext q
  simp only [Json.read?, numeral?, Option.bind_eq_bind, Option.bind_eq_some_iff,
    Option.map_eq_some_iff]
  constructor
  · rintro ⟨_, ⟨v, hv, rfl⟩, hq⟩
    rw [value?_merged] at hq
    obtain ⟨rest, hnumber, hrest⟩ := (hwritten v (by simp [hq])).1 hv
    obtain ⟨m, hm, hread⟩ := readNumber?_iff.1 hnumber
    exact ⟨m, ⟨_, hm, by simp [hrest]⟩, v, hread, hq⟩
  · rintro ⟨m, ⟨⟨_, rest⟩, hm, hrest⟩, v, hread, hq⟩
    simp only [List.isEmpty_iff, Option.ite_none_right_eq_some, Option.some.injEq] at hrest
    obtain ⟨hrest, rfl⟩ := hrest
    refine ⟨_, ⟨v, (hwritten v (by simp [hq])).2 ⟨rest, ?_, hrest⟩, rfl⟩, by rwa [value?_merged]⟩
    exact readNumber?_iff.2 ⟨_, hm, hread⟩

end Json

namespace Bound

variable {ctx : Context} {value : Json} {output : StageOutput} {n k : ℤ} {kind : StageKind}

/-- The value of a number, or of the numeral that a text is. -/
def value? : Json → Option ℚ
  | .str s => (Json.numeral? s).map Json.Numeral.value
  | v => v.value?

/-- The value of a number, or of what a text is read as. -/
def reading? : Json → Option ℚ
  | .str s => (Json.read? s).bind Json.value?
  | v => v.value?

/-- A number, or the text of an integer of 64 bits without a point and an exponent. -/
def IsPlain (value : Json) : Prop :=
  ∀ s m, value = .str s → Json.numeral? s = some m →
    m.fraction = none ∧ m.exponent = none ∧ -2 ^ 63 ≤ m.value ∧ m.value < 2 ^ 64

lemma value?_of_reading? (h : (reading? value).isSome = true) : (value? value).isSome = true := by
  cases value with
  | str s =>
    rw [reading?, Json.read?_value] at h
    cases hm : Json.numeral? s with
    | none => rw [hm] at h; cases h
    | some m => rw [value?, hm]; rfl
  | _ => exact h

lemma reading?_of_isPlain (h : IsPlain value) : reading? value = value? value := by
  cases value with
  | str s =>
    rw [reading?, Json.read?_value, value?]
    cases hm : Json.numeral? s with
    | none => rfl
    | some m =>
      obtain ⟨hfraction, hexponent, hlow, hhigh⟩ := h s m rfl hm
      exact m.read?_plain hfraction hexponent hlow hhigh
  | _ => rfl

/-- The least number of a stage. -/
def least (kind : StageKind) : ℤ := if kind = .limit then 1 else 0

lemma numberOf?_eq_some_iff :
    numberOf? value = some n ↔ ∃ k : ℤ, reading? value = some (k : ℚ) ∧ clampInt64 k = n := by
  cases value with
  | str s =>
    cases hread : Json.read? s with
    | none => simp [numberOf?, reading?, hread]
    | some v => simpa [numberOf?, reading?, hread] using Json.integer?_eq_some_iff
  | _ =>
    simp only [numberOf?, reading?]
    exact Json.integer?_eq_some_iff

lemma isWithin_iff : isWithin (range ctx).2.1 (range ctx).2.2 n = true ↔
    least ctx.kind ≤ n ∧ (ctx.options.relaxLimits = false → n ≤ 500000) := by
  unfold isWithin range least Context.limits Options.limits Limits.of
  cases ctx.options.relaxLimits <;> by_cases hkind : ctx.kind = .limit <;>
    simp [hkind, Limits.lifted, Limits.standard, Limits.maxLimit, Limits.maxSkip]

/-- Cutting off at 64 bits does not bring a number into the range. -/
lemma within_clamp_iff {relaxed : Bool} :
    (least kind ≤ clampInt64 k ∧ (relaxed = false → clampInt64 k ≤ 500000)) ↔
      least kind ≤ k ∧ (relaxed = false → k ≤ 500000) := by
  have hleast : least kind = 0 ∨ least kind = 1 := by
    unfold least
    split <;> simp
  unfold clampInt64
  cases relaxed <;> simp only [true_implies, reduceCtorEq, false_implies, and_true] <;> omega

lemma clampInt64_of_least (h : least kind ≤ k) : clampInt64 k = min k (2 ^ 63 - 1) := by
  have hleast : 0 ≤ least kind := by
    unfold least
    split <;> decide
  unfold clampInt64
  omega

lemma number_within_iff :
    (numberOf? value).filter (isWithin (range ctx).2.1 (range ctx).2.2) = some n ↔
      ∃ k : ℤ, reading? value = some (k : ℚ) ∧ least ctx.kind ≤ k ∧
        (ctx.options.relaxLimits = false → k ≤ 500000) ∧ n = min k (2 ^ 63 - 1) := by
  rw [Option.filter_eq_some_iff, numberOf?_eq_some_iff, isWithin_iff]
  constructor
  · rintro ⟨⟨k, hk, rfl⟩, hwithin⟩
    obtain ⟨hlow, hhigh⟩ := within_clamp_iff.1 hwithin
    exact ⟨k, hk, hlow, hhigh, clampInt64_of_least hlow⟩
  · rintro ⟨k, hk, hlow, hhigh, rfl⟩
    rw [← clampInt64_of_least hlow]
    exact ⟨⟨k, hk, rfl⟩, within_clamp_iff.2 ⟨hlow, hhigh⟩⟩

lemma compileStage_ok_iff (hkind : ctx.kind = .limit ∨ ctx.kind = .skip)
    (hplain : ctx.placeholder? value = none) : (compileStage ctx value).result = .ok output ↔
      ∃ n, (numberOf? value).filter (isWithin (range ctx).2.1 (range ctx).2.2) = some n ∧
        output = ctx.passThrough (.obj [(ctx.kind.key, .int n)]) := by
  have hstage : (compileStage ctx value).result = (compile ctx value).result := by
    unfold compileStage
    rcases hkind with hkind | hkind <;> rw [hkind] <;> rfl
  rw [hstage]
  simp only [compile, hplain]
  cases (numberOf? value).filter (isWithin (range ctx).2.1 (range ctx).2.2) with
  | none => exact iff_of_false nofun fun ⟨_, h, _⟩ => nomatch h
  | some n =>
    refine ⟨fun h => ⟨n, rfl, (Except.ok.inj h).symm⟩, ?_⟩
    rintro ⟨_, ⟨⟩, rfl⟩
    rfl

/-- **A limit or a skip is the integer that its number is**, up to the greatest one of 64 bits.
What is read is the value of the number or of a plain text; of another text, it is rounded. -/
theorem bound_is_number (hkind : ctx.kind = .limit ∨ ctx.kind = .skip)
    (hplain : ctx.placeholder? value = none) :
    ((compileStage ctx value).result = .ok output ↔ ∃ k : ℤ, reading? value = some (k : ℚ) ∧
      least ctx.kind ≤ k ∧ (ctx.options.relaxLimits = false → k ≤ 500000) ∧
      output = ctx.passThrough (.obj [(ctx.kind.key, .int (min k (2 ^ 63 - 1)))])) ∧
    ((reading? value).isSome = true → (value? value).isSome = true) ∧
    (IsPlain value → reading? value = value? value) := by
  refine ⟨?_, value?_of_reading?, reading?_of_isPlain⟩
  rw [compileStage_ok_iff hkind hplain]
  constructor
  · rintro ⟨n, hn, rfl⟩
    obtain ⟨k, hk, hlow, hhigh, rfl⟩ := number_within_iff.1 hn
    exact ⟨k, hk, hlow, hhigh, rfl⟩
  · rintro ⟨k, hk, hlow, hhigh, rfl⟩
    exact ⟨_, number_within_iff.2 ⟨k, hk, hlow, hhigh, rfl⟩, rfl⟩

def limitStage (relaxed : Bool) : Context where
  catalog := {}
  options := { object := "c_pet", relaxLimits := relaxed }
  indexes := fun _ => []
  kind := .limit

/-- A text that holds a number is as good as the number. -/
theorem limit_of_text : ∃ output, (compileStage (limitStage true) (.str "25")).result = .ok output ∧
    output = (limitStage true).passThrough (.obj [("$limit", .int 25)]) :=
  ⟨_, (bound_is_number (.inl rfl) rfl).1.2 ⟨25, rfl, by decide, by decide, rfl⟩, rfl⟩

/-- **A limit of 2⁶³ is altered** to the greatest integer of 64 bits, and under the standard limits
a text with a value below 1 is taken for 1. -/
theorem great_limit_altered :
    (compileStage (limitStage true) (.int (2 ^ 63))).result =
      .ok ((limitStage true).passThrough (.obj [("$limit", .int (2 ^ 63 - 1))])) ∧
    (compileStage (limitStage false) (.str "0.9999999999999999")).result =
      .ok ((limitStage false).passThrough (.obj [("$limit", .int 1)])) ∧
    value? (.str "0.9999999999999999") = some (1 - 1 / 10 ^ 16) := by
  have hread : numberOf? (.str "0.9999999999999999") = some 1 := by decide +kernel
  have hnumeral : Json.numeral? "0.9999999999999999" =
      some ⟨false, ['0'], some (List.replicate 16 '9'), none⟩ := by rfl
  have hdigits : digitsValue ('0' :: List.replicate 16 '9') = 10 ^ 16 - 1 := by rfl
  refine ⟨rfl, (compileStage_ok_iff (.inl rfl) rfl).2 ⟨1, by rw [hread]; rfl, rfl⟩, ?_⟩
  rw [value?, hnumeral]
  norm_num [Json.Numeral.value, hdigits]

end Bound

end Conduit
