import Conduit.Binary64.Decimal
import Mathlib.Algebra.Order.Field.Power
import Mathlib.Data.Rat.Cast.Order
import Mathlib.Tactic.FieldSimp
import Mathlib.Tactic.Linarith
import Mathlib.Tactic.Positivity
import Mathlib.Tactic.Ring

/-!
# Doubles are told apart by their text

The numbers that read as a double `x` are those between the midpoints to its neighbours.  These
ranges do not overlap, and the digits of the text of `x` are a number in the range of `x`
(`rounds_unique`, `shortest_rounds`, `text_injective`).

Seventeen digits always suffice: the grid of that many digits is finer than the range.
-/

namespace Conduit.Binary64

open List

/-! ## Ranges -/

/-- The least number that reads as `x`, in quarters of its unit in the last place.  Below a power of
two, doubles are twice as close. -/
def lowQuarters (x : Binary64) : Nat :=
  if x.coefficient = 2 ^ 52 ∧ -1074 < x.exponent then 4 * x.coefficient - 1
  else 4 * x.coefficient - 2

/-- A number in the range of `x`: its ends belong to the even one of two neighbours. -/
structure Rounds (x : Binary64) (q : ℚ) : Prop where
  low : x.lowQuarters * 2 ^ (x.exponent - 2) ≤ q
  high : q ≤ (4 * x.coefficient + 2) * 2 ^ (x.exponent - 2)
  inner : x.coefficient % 2 = 1 → x.lowQuarters * 2 ^ (x.exponent - 2) < q ∧
    q < (4 * x.coefficient + 2) * 2 ^ (x.exponent - 2)

variable {x y : Binary64} {ds : List Char} {q : ℚ} {num den : ℕ} {unit : ℤ} {w : List Char}

/-- Two doubles of one exponent have ranges that do not overlap. -/
lemma not_rounds_of_coefficient_lt (hx : x.Rounds q) (hy : y.Rounds q)
    (he : x.exponent = y.exponent) (hlt : x.coefficient < y.coefficient) : False := by
  obtain ⟨-, hmin, -, hnormal⟩ := x.normal
  have hlow : y.lowQuarters = 4 * y.coefficient - 2 := by
    rw [lowQuarters, if_neg]
    omega
  have hpos : (0 : ℚ) < 2 ^ (x.exponent - 2) := by positivity
  have hylow := hy.low
  have hxhigh := hx.high
  rw [← he, hlow] at hylow
  have hcast : ((4 * y.coefficient - 2 : ℕ) : ℚ) = 4 * y.coefficient - 2 := by
    rw [Nat.cast_sub (by omega)]
    push_cast
    ring
  rw [hcast] at hylow
  have hle : (4 * (y.coefficient : ℚ) - 2) ≤ 4 * x.coefficient + 2 :=
    le_of_mul_le_mul_right (hylow.trans hxhigh) hpos
  have hsucc : y.coefficient = x.coefficient + 1 := by
    have : (y.coefficient : ℚ) ≤ x.coefficient + 1 := by linarith
    have : y.coefficient ≤ x.coefficient + 1 := by exact_mod_cast this
    omega
  -- The common end of the two ranges belongs to the even one only.
  have hend : (4 * (y.coefficient : ℚ) - 2) = 4 * x.coefficient + 2 := by
    rw [hsucc]
    push_cast
    ring
  rcases Nat.mod_two_eq_zero_or_one x.coefficient with hparity | hparity
  · have hodd := (hy.inner (by omega)).1
    rw [← he, hlow, hcast, hend] at hodd
    exact absurd hxhigh (not_le.2 hodd)
  · have hodd := (hx.inner hparity).2
    rw [← hend] at hodd
    exact absurd hylow (not_le.2 hodd)

/-- Doubles of different exponents have ranges that do not overlap. -/
lemma not_rounds_of_exponent_lt (hx : x.Rounds q) (hy : y.Rounds q)
    (he : x.exponent < y.exponent) : False := by
  obtain ⟨hxmax, hxmin, -, -⟩ := x.normal
  obtain ⟨hymax, -, -, hynormal⟩ := y.normal
  have hylarge : 2 ^ 52 ≤ y.coefficient := by omega
  have hpos : (0 : ℚ) < 2 ^ (x.exponent - 2) := by positivity
  have hlow : 4 * 2 ^ 52 - 1 ≤ y.lowQuarters := by
    unfold lowQuarters
    split <;> omega
  have hstep : (2 : ℚ) * 2 ^ (x.exponent - 2) ≤ 2 ^ (y.exponent - 2) := by
    rw [← zpow_one_add₀ (by norm_num)]
    exact zpow_le_zpow_right₀ (by norm_num) (by omega)
  have hylow : ((4 * 2 ^ 52 - 1 : ℕ) : ℚ) * (2 * 2 ^ (x.exponent - 2)) ≤ q :=
    (mul_le_mul (by exact_mod_cast hlow) hstep (by positivity) (by positivity)).trans hy.low
  have hchain : ((4 * 2 ^ 52 - 1 : ℕ) : ℚ) * 2 ≤ 4 * x.coefficient + 2 := by
    refine le_of_mul_le_mul_right ?_ hpos
    calc ((4 * 2 ^ 52 - 1 : ℕ) : ℚ) * 2 * 2 ^ (x.exponent - 2)
      _ = ((4 * 2 ^ 52 - 1 : ℕ) : ℚ) * (2 * 2 ^ (x.exponent - 2)) := by ring
      _ ≤ (4 * x.coefficient + 2) * 2 ^ (x.exponent - 2) := hylow.trans hx.high
  have hlast : x.coefficient = 2 ^ 53 - 1 := by
    have : (4 * 2 ^ 52 - 1) * 2 ≤ 4 * x.coefficient + 2 := by exact_mod_cast hchain
    omega
  -- The coefficient is odd, so that the end belongs to the larger double only.
  have hhigh := (hx.inner (by omega)).2
  have hend : (4 * (x.coefficient : ℚ) + 2) * 2 ^ (x.exponent - 2) =
      ((4 * 2 ^ 52 - 1 : ℕ) : ℚ) * (2 * 2 ^ (x.exponent - 2)) := by
    rw [hlast]
    push_cast
    ring
  rw [hend] at hhigh
  exact absurd hylow (not_le.2 hhigh)

/-- **A number reads as one double only**, up to its sign. -/
lemma rounds_unique (hx : x.Rounds q) (hy : y.Rounds q) :
    x.coefficient = y.coefficient ∧ x.exponent = y.exponent := by
  rcases lt_trichotomy x.exponent y.exponent with he | he | he
  · exact (not_rounds_of_exponent_lt hx hy he).elim
  · rcases lt_trichotomy x.coefficient y.coefficient with hm | hm | hm
    · exact (not_rounds_of_coefficient_lt hx hy he hm).elim
    · exact ⟨hm, he⟩
    · exact (not_rounds_of_coefficient_lt hy hx he.symm hm).elim
  · exact (not_rounds_of_exponent_lt hy hx he).elim

/-! ## Digits in the range -/

lemma zpow_eq_div (b : ℕ) (z : ℤ) : (b : ℚ) ^ z = (b ^ z.toNat : ℕ) / (b ^ (-z).toNat : ℕ) := by
  obtain ⟨n, rfl | rfl⟩ := z.eq_nat_or_neg
  · simp
  · simp [zpow_neg, div_eq_mul_inv]

/-- One side of a comparison on a decimal grid, as `onGrid?` scales it: the quarters of a unit. -/
def gridLeft (e unit : ℤ) : ℕ := 2 ^ (e - 2).toNat * 10 ^ (-unit).toNat

/-- The other side: the steps of the grid. -/
def gridRight (e unit : ℤ) : ℕ := 2 ^ (2 - e).toNat * 10 ^ unit.toNat

lemma grid_scale (e unit : ℤ) : ∃ r : ℚ, 0 < r ∧ (gridLeft e unit : ℚ) = 2 ^ (e - 2) * r ∧
    (gridRight e unit : ℚ) = 10 ^ unit * r := by
  refine ⟨((2 ^ (2 - e).toNat * 10 ^ (-unit).toNat : ℕ) : ℚ), by positivity, ?_, ?_⟩
  · have h := zpow_eq_div 2 (e - 2)
    rw [show -(e - 2) = 2 - e by ring] at h
    rw [gridLeft]
    push_cast at h ⊢
    rw [h]
    field_simp
  · have h := zpow_eq_div 10 unit
    rw [gridRight]
    push_cast at h ⊢
    rw [h]
    field_simp

lemma grid_le (e unit : ℤ) (k c : ℕ) :
    (k * gridLeft e unit ≤ c * gridRight e unit ↔ (k : ℚ) * 2 ^ (e - 2) ≤ c * 10 ^ unit) ∧
    (c * gridRight e unit ≤ k * gridLeft e unit ↔ (c : ℚ) * 10 ^ unit ≤ k * 2 ^ (e - 2)) := by
  obtain ⟨r, hr, hleft, hright⟩ := grid_scale e unit
  simp only [← Nat.cast_le (α := ℚ), Nat.cast_mul, hleft, hright, ← mul_assoc]
  exact ⟨mul_le_mul_iff_left₀ hr, mul_le_mul_iff_left₀ hr⟩

/-- Whether a point of a decimal grid reads as `x`. -/
def inside (x : Binary64) (unit : ℤ) (c : ℕ) : Bool := if x.coefficient % 2 = 0 then
    x.lowQuarters * gridLeft x.exponent unit ≤ c * gridRight x.exponent unit &&
      c * gridRight x.exponent unit ≤ (4 * x.coefficient + 2) * gridLeft x.exponent unit
  else
    x.lowQuarters * gridLeft x.exponent unit < c * gridRight x.exponent unit &&
      c * gridRight x.exponent unit < (4 * x.coefficient + 2) * gridLeft x.exponent unit

lemma inside_iff {c : ℕ} : x.inside unit c = true ↔ x.Rounds (c * 10 ^ unit) := by
  obtain ⟨hlow, hlow'⟩ := grid_le x.exponent unit x.lowQuarters c
  obtain ⟨hhigh', hhigh⟩ := grid_le x.exponent unit (4 * x.coefficient + 2) c
  push_cast at hhigh hhigh'
  unfold inside
  split
  · rw [Bool.and_eq_true, decide_eq_true_iff, decide_eq_true_iff, hlow, hhigh]
    exact ⟨fun h => ⟨h.1, h.2, by omega⟩, fun h => ⟨h.low, h.high⟩⟩
  · rw [Bool.and_eq_true, decide_eq_true_iff, decide_eq_true_iff, ← not_le, ← not_le, hlow', hhigh',
      not_le, not_le]
    exact ⟨fun h => ⟨h.1.le, h.2.le, fun _ => h⟩, fun h => h.inner (by omega)⟩

/-- The neighbour below on the grid. -/
def floorOnGrid (x : Binary64) (unit : ℤ) : ℕ :=
  4 * x.coefficient * gridLeft x.exponent unit / gridRight x.exponent unit

/-- The choice between two neighbours on the grid, of which each may read as `x` or not: the nearer
one, and the even one of two that are equally near. -/
def nearer (c below above : ℕ) : Bool → Bool → Option ℕ
  | true, false => some c
  | false, true => some (c + 1)
  | false, false => none
  | true, true =>
    if below < above then some c
    else if above < below then some (c + 1)
    else if c % 2 = 0 then some c
    else some (c + 1)

lemma nearer_cases (p : ℕ → Bool) (c below above : ℕ) :
    (nearer c below above (p c) (p (c + 1)) = none ∧ p c = false ∧ p (c + 1) = false) ∨
    ∃ d, nearer c below above (p c) (p (c + 1)) = some d ∧ p d = true := by
  cases hlow : p c <;> cases hhigh : p (c + 1)
  · exact .inl ⟨rfl, rfl, rfl⟩
  · exact .inr ⟨c + 1, rfl, hhigh⟩
  · exact .inr ⟨c, rfl, hlow⟩
  · unfold nearer
    split_ifs
    · exact .inr ⟨c, rfl, hlow⟩
    · exact .inr ⟨c + 1, rfl, hhigh⟩
    · exact .inr ⟨c, rfl, hlow⟩
    · exact .inr ⟨c + 1, rfl, hhigh⟩

lemma onGrid?_eq (x : Binary64) (unit : ℤ) : x.onGrid? unit = nearer (x.floorOnGrid unit)
      (4 * x.coefficient * gridLeft x.exponent unit -
        x.floorOnGrid unit * gridRight x.exponent unit)
      ((x.floorOnGrid unit + 1) * gridRight x.exponent unit -
        4 * x.coefficient * gridLeft x.exponent unit)
      (x.inside unit (x.floorOnGrid unit)) (x.inside unit (x.floorOnGrid unit + 1)) := rfl

lemma onGrid?_cases (x : Binary64) (unit : ℤ) :
    (x.onGrid? unit = none ∧ x.inside unit (x.floorOnGrid unit) = false ∧
      x.inside unit (x.floorOnGrid unit + 1) = false) ∨
    ∃ c, x.onGrid? unit = some c ∧ x.inside unit c = true := by
  rw [onGrid?_eq]
  exact nearer_cases (x.inside unit) ..

lemma floorOnGrid_bounds (x : Binary64) (unit : ℤ) :
    (x.floorOnGrid unit : ℚ) * 10 ^ unit ≤ 4 * x.coefficient * 2 ^ (x.exponent - 2) ∧
      4 * x.coefficient * 2 ^ (x.exponent - 2) < (x.floorOnGrid unit + 1) * (10 : ℚ) ^ unit := by
  have hright : 0 < gridRight x.exponent unit := by
    unfold gridRight
    positivity
  have hfloor := Nat.div_add_mod (4 * x.coefficient * gridLeft x.exponent unit)
    (gridRight x.exponent unit)
  have hmod := Nat.mod_lt (4 * x.coefficient * gridLeft x.exponent unit) hright
  have hbelow := (grid_le x.exponent unit (4 * x.coefficient) (x.floorOnGrid unit)).2.1 <| by
    rw [floorOnGrid, mul_comm]
    omega
  have habove := (grid_le x.exponent unit (4 * x.coefficient) (x.floorOnGrid unit + 1)).2.not.1 <| by
    rw [floorOnGrid, add_mul, one_mul, mul_comm]
    omega
  push_cast at hbelow habove
  exact ⟨hbelow, not_le.1 habove⟩

lemma le_low_of_not_rounds (h : ¬ x.Rounds q) (hq : q ≤ 4 * x.coefficient * 2 ^ (x.exponent - 2)) :
    q ≤ x.lowQuarters * 2 ^ (x.exponent - 2) := by
  by_contra hlow
  have hpos : (0 : ℚ) < 2 ^ (x.exponent - 2) := by positivity
  have hhigh : q < (4 * x.coefficient + 2) * 2 ^ (x.exponent - 2) := by linarith
  exact h ⟨(not_le.1 hlow).le, hhigh.le, fun _ => ⟨not_le.1 hlow, hhigh⟩⟩

lemma high_le_of_not_rounds (h : ¬ x.Rounds q) (hq : 4 * x.coefficient * 2 ^ (x.exponent - 2) < q) :
    (4 * x.coefficient + 2) * 2 ^ (x.exponent - 2) ≤ q := by
  by_contra hhigh
  have hlow : (x.lowQuarters : ℚ) * 2 ^ (x.exponent - 2) < q := by
    have hle : x.lowQuarters ≤ 4 * x.coefficient := by
      unfold lowQuarters
      split <;> omega
    have hle : (x.lowQuarters : ℚ) ≤ 4 * x.coefficient := by exact_mod_cast hle
    exact (mul_le_mul_of_nonneg_right hle (by positivity)).trans_lt hq
  exact h ⟨hlow.le, (not_le.1 hhigh).le, fun _ => ⟨hlow, not_le.1 hhigh⟩⟩

/-- The range of `x` is wider than a unit of the seventeenth digit. -/
lemma coefficient_lt_width (x : Binary64) :
    4 * x.coefficient + 10 ^ 16 * x.lowQuarters < 10 ^ 16 * (4 * x.coefficient + 2) := by
  have hmax := x.normal.1
  unfold lowQuarters
  split <;> omega

/-- A grid that is fine enough has a point that reads as `x`. -/
lemma onGrid?_ne_none
    (hstep : (10 : ℚ) ^ unit * 10 ^ 16 ≤ 4 * x.coefficient * 2 ^ (x.exponent - 2)) :
    x.onGrid? unit ≠ none := by
  rcases onGrid?_cases x unit with ⟨-, hlow, hhigh⟩ | ⟨c, hc, -⟩
  · exfalso
    obtain ⟨hbelow, habove⟩ := floorOnGrid_bounds x unit
    have hlow := inside_iff.not.1 (by rw [hlow]; exact Bool.false_ne_true)
    have hhigh := inside_iff.not.1 (by rw [hhigh]; exact Bool.false_ne_true)
    push_cast at hhigh
    have hlow := le_low_of_not_rounds hlow hbelow
    have hhigh := high_le_of_not_rounds hhigh habove
    have hpos : (0 : ℚ) < 2 ^ (x.exponent - 2) := by positivity
    have hwidth : (4 * x.coefficient + 10 ^ 16 * x.lowQuarters : ℚ) <
        10 ^ 16 * (4 * x.coefficient + 2) := by
      exact_mod_cast coefficient_lt_width x
    have hscaled := mul_lt_mul_of_pos_right hwidth hpos
    linarith
  · rw [hc]
    exact Option.some_ne_none c

/-! ## The leading digit -/

lemma zpow_le_ratio (b : ℕ) (hb : 0 < b) (k : ℤ) (hden : 0 < den) :
    den * b ^ k.toNat ≤ num * b ^ (-k).toNat ↔ (b : ℚ) ^ k ≤ num / den := by
  have hb' : (0 : ℚ) < (b ^ (-k).toNat : ℕ) := by positivity
  have hden' : (0 : ℚ) < den := by positivity
  rw [zpow_eq_div, div_le_div_iff₀ hb' hden', ← Nat.cast_le (α := ℚ), Nat.cast_mul,
    Nat.cast_mul, mul_comm (den : ℚ)]

lemma floorLog_bounds (hnum : 0 < num) (hden : 0 < den) : (2 : ℚ) ^ floorLog num den ≤ num / den ∧
      (num.log2 : ℤ) - den.log2 - 1 ≤ floorLog num den ∧
      floorLog num den ≤ (num.log2 : ℤ) - den.log2 := by
  simp only [floorLog]
  split
  · next h => exact ⟨by exact_mod_cast (zpow_le_ratio 2 (by norm_num) _ hden).1 h, by omega, by omega⟩
  · refine ⟨?_, by omega, by omega⟩
    have hdenlt : (den : ℚ) < 2 ^ (den.log2 + 1) := by exact_mod_cast Nat.lt_log2_self
    have hnumle : (2 : ℚ) ^ num.log2 ≤ num := by exact_mod_cast Nat.log2_self_le hnum.ne'
    have hden' : (0 : ℚ) < den := by positivity
    rw [le_div_iff₀ hden', show (num.log2 : ℤ) - den.log2 - 1 = num.log2 - ((den.log2 + 1 : ℕ) : ℤ)
      by push_cast; ring, zpow_sub₀ (by norm_num), zpow_natCast, zpow_natCast]
    calc (2 : ℚ) ^ num.log2 / 2 ^ (den.log2 + 1) * den
      _ ≤ 2 ^ num.log2 / 2 ^ (den.log2 + 1) * 2 ^ (den.log2 + 1) := by gcongr
      _ = 2 ^ num.log2 := by field_simp
      _ ≤ num := hnumle

/-- An estimate of the decimal logarithm from the binary one, good enough for the exponents of
doubles: `2 ^ 93 ≤ 10 ^ 28` and `10 ^ 59 ≤ 2 ^ 196`. -/
lemma ten_zpow_le {k log : ℤ} (hk : (k + 1) * 100000 ≤ log * 30103) (hlow : -1100 ≤ log)
    (hhigh : log ≤ 1100) : (10 : ℚ) ^ k ≤ 2 ^ log := by
  have hlog : (0 : ℚ) ≤ 2 ^ log := by positivity
  rcases le_or_gt 0 k with hsign | hsign
  · refine (pow_le_pow_iff_left₀ (by positivity) hlog (show 59 ≠ 0 by norm_num)).1 ?_
    calc ((10 : ℚ) ^ k) ^ 59
      _ = (10 ^ 59) ^ k := by rw [← zpow_natCast, zpow_comm, zpow_natCast]
      _ ≤ (2 ^ 196) ^ k := zpow_le_zpow_left₀ hsign (by norm_num) (by norm_num)
      _ = 2 ^ (196 * k) := by rw [zpow_mul]; norm_num
      _ ≤ 2 ^ (log * 59) := zpow_le_zpow_right₀ (by norm_num) (by omega)
      _ = (2 ^ log) ^ 59 := by rw [zpow_mul]; norm_num
  · refine (pow_le_pow_iff_left₀ (by positivity) hlog (show 28 ≠ 0 by norm_num)).1 ?_
    have hbase : ((2 : ℚ) ^ 93) ^ (-k) ≤ (10 ^ 28) ^ (-k) :=
      zpow_le_zpow_left₀ (by omega) (by norm_num) (by norm_num)
    calc ((10 : ℚ) ^ k) ^ 28
      _ = ((10 ^ 28) ^ (-k))⁻¹ := by
        rw [zpow_neg, inv_inv, ← zpow_natCast, zpow_comm, zpow_natCast]
      _ ≤ ((2 ^ 93) ^ (-k))⁻¹ := inv_anti₀ (by positivity) hbase
      _ = 2 ^ (93 * k) := by rw [zpow_neg, inv_inv, zpow_mul]; norm_num
      _ ≤ 2 ^ (log * 28) := zpow_le_zpow_right₀ (by norm_num) (by omega)
      _ = (2 ^ log) ^ 28 := by rw [zpow_mul]; norm_num

lemma floorLog10_le (hnum : 0 < num) (hden : 0 < den) (hlow : -1100 ≤ floorLog num den)
    (hhigh : floorLog num den ≤ 1100) : (10 : ℚ) ^ floorLog10 num den ≤ num / den := by
  have hreach : ∀ k : ℤ, den * 10 ^ k.toNat ≤ num * 10 ^ (-k).toNat → (10 : ℚ) ^ k ≤ num / den :=
    fun k h => by exact_mod_cast (zpow_le_ratio 10 (by norm_num) k hden).1 h
  simp only [floorLog10, decide_eq_true_eq]
  split
  · next h => exact hreach _ h
  · split
    · next h => exact hreach _ h
    · refine (ten_zpow_le ?_ hlow hhigh).trans (floorLog_bounds hnum hden).1
      rw [Int.fdiv_eq_ediv_of_nonneg _ (by norm_num)]
      omega

lemma ratio_eq (x : Binary64) :
    (x.ratio.1 : ℚ) / x.ratio.2 = 4 * x.coefficient * 2 ^ (x.exponent - 2) := by
  have h := zpow_eq_div 2 x.exponent
  rw [zpow_sub₀ (by norm_num)]
  simp only [ratio, Nat.pow_eq]
  push_cast at h ⊢
  rw [h]
  field_simp

lemma ratio_fst_pos (hx : x.coefficient ≠ 0) : 0 < x.ratio.1 :=
  Nat.mul_pos (Nat.pos_of_ne_zero hx) (Nat.pow_pos (by norm_num))

lemma ratio_snd_pos (x : Binary64) : 0 < x.ratio.2 := Nat.pow_pos (by norm_num)

lemma floorLog_ratio_bounds (hx : x.coefficient ≠ 0) :
    -1100 ≤ floorLog x.ratio.1 x.ratio.2 ∧ floorLog x.ratio.1 x.ratio.2 ≤ 1100 := by
  obtain ⟨hmax, hmin, hemax, -⟩ := x.normal
  have hnum := ratio_fst_pos hx
  obtain ⟨-, hlow, hhigh⟩ := floorLog_bounds hnum x.ratio_snd_pos
  have hden' : x.ratio.2.log2 = (-x.exponent).toNat := Nat.log2_two_pow
  have hnum' : x.ratio.1.log2 < 53 + x.exponent.toNat := by
    rw [Nat.log2_lt hnum.ne', pow_add]
    exact Nat.mul_lt_mul_of_pos_right hmax (Nat.pow_pos (by norm_num))
  omega

/-- **Seventeen digits suffice.** -/
lemma exists_onGrid? (hx : x.coefficient ≠ 0) : ∃ r, (range 17).findSome? (fun n : Nat =>
      (x.onGrid? (floorLog10 x.ratio.1 x.ratio.2 - n)).map fun c =>
        (c, floorLog10 x.ratio.1 x.ratio.2 - n)) = some r := by
  obtain ⟨hlow, hhigh⟩ := floorLog_ratio_bounds hx
  have hlead := floorLog10_le (ratio_fst_pos hx) x.ratio_snd_pos hlow hhigh
  rw [ratio_eq] at hlead
  have hgrid : x.onGrid? (floorLog10 x.ratio.1 x.ratio.2 - (16 : ℕ)) ≠ none := by
    refine onGrid?_ne_none ?_
    rw [zpow_sub₀ (by norm_num), zpow_natCast, div_mul_cancel₀ _ (by norm_num)]
    exact hlead
  refine Option.ne_none_iff_exists'.1 fun h => hgrid ?_
  exact Option.map_eq_none_iff.1 (findSome?_eq_none_iff.1 h 16 (by decide))

/-! ## The number that digits stand for -/

lemma digitsValue_eq (ds : List Char) : digitsValue ds = Nat.ofDigitChars 10 ds 0 := by
  rw [Nat.ofDigitChars_eq_foldl, digitsValue]
  simp only [Nat.mul_comm]

lemma digitsValue_append (ds es : List Char) :
    digitsValue (ds ++ es) = digitsValue ds * 10 ^ es.length + digitsValue es := by
  simp only [digitsValue_eq]
  rw [Nat.ofDigitChars_append, Nat.ofDigitChars_eq_ofDigitChars_zero, Nat.mul_comm]

lemma digitsValue_zeros (n : ℕ) : digitsValue (replicate n '0') = 0 := by
  rw [digitsValue_eq, Nat.ofDigitChars_replicate_zero, Nat.mul_zero]

lemma digitsValue_decimalDigits (n : ℕ) : digitsValue (decimalDigits n) = n := by
  rw [digitsValue_eq, decimalDigits, Nat.ofDigitChars_ten_toDigits]

/-- The number of digits with the exponent of the first of them. -/
def decimalValue (ds : List Char) (exponent : ℤ) : ℚ :=
  digitsValue ds * 10 ^ (exponent + 1 - ds.length)

lemma stripZeros_append (ds : List Char) : ∃ n, ds = stripZeros ds ++ replicate n '0' := by
  refine ⟨(ds.reverse.takeWhile (· == '0')).length, ?_⟩
  have hzeros : ds.reverse.takeWhile (· == '0') =
      replicate (ds.reverse.takeWhile (· == '0')).length '0' := by
    refine eq_replicate_of_mem fun c hc => ?_
    simpa using all_eq_true.1 (all_takeWhile (l := ds.reverse)) c hc
  have hsplit := congrArg reverse (takeWhile_append_dropWhile (p := (· == '0')) (l := ds.reverse))
  rw [reverse_append, reverse_reverse] at hsplit
  rw [← reverse_replicate, ← hzeros]
  exact hsplit.symm

lemma decimalValue_stripZeros (ds : List Char) (exponent : ℤ) :
    decimalValue (stripZeros ds) exponent = decimalValue ds exponent := by
  obtain ⟨n, hn⟩ := stripZeros_append ds
  have hvalue : digitsValue ds = digitsValue (stripZeros ds) * 10 ^ n := by
    conv_lhs => rw [hn]
    rw [digitsValue_append, digitsValue_zeros, length_replicate, Nat.add_zero]
  have hlength : ds.length = (stripZeros ds).length + n := by
    conv_lhs => rw [hn]
    rw [length_append, length_replicate]
  have hpow : (10 : ℚ) ^ (exponent + 1 - (stripZeros ds).length) =
      10 ^ n * 10 ^ (exponent + 1 - (ds.length : ℤ)) := by
    rw [← zpow_natCast, ← zpow_add₀ (by norm_num), hlength]
    congr 1
    push_cast
    ring
  rw [decimalValue, decimalValue, hvalue, hpow]
  push_cast
  ring

/-- **The digits of a double are a number that reads as it.** -/
lemma shortest_rounds (x : Binary64) : x.Rounds (decimalValue x.shortest.1 x.shortest.2) := by
  by_cases hx : x.coefficient = 0
  · have hzero : x.shortest = (['0'], 0) := by simp [shortest, isZero, hx]
    rw [hzero]
    constructor <;> norm_num [lowQuarters, hx, decimalValue, digitsValue]
    positivity
  · obtain ⟨⟨c, unit⟩, hfound⟩ := exists_onGrid? hx
    have hshortest : x.shortest =
        (stripZeros (decimalDigits c), unit + (decimalDigits c).length - 1) := by
      simp only [shortest, isZero, beq_iff_eq, hx, if_false, hfound]
    obtain ⟨n, -, hn⟩ := exists_of_findSome?_eq_some hfound
    obtain ⟨c', hc, heq⟩ := Option.map_eq_some_iff.1 hn
    cases heq
    have hrounds : x.inside (floorLog10 x.ratio.1 x.ratio.2 - n) c = true := by
      rcases onGrid?_cases x (floorLog10 x.ratio.1 x.ratio.2 - n) with ⟨hnone, -⟩ | ⟨d, hd, hin⟩
      · rw [hc] at hnone
        cases hnone
      · rw [hc] at hd
        cases hd
        exact hin
    rw [hshortest, decimalValue_stripZeros, decimalValue, digitsValue_decimalDigits]
    simpa using inside_iff.1 hrounds

/-! ## Texts -/

/-- The power of ten at the end of a text. -/
def writtenPower : List Char → ℤ
  | 'e' :: '-' :: ds => -digitsValue ds
  | 'e' :: '+' :: ds => digitsValue ds
  | _ => 0

/-- The number that a text without a sign stands for. -/
def writtenValue (cs : List Char) : ℚ := let whole := cs.takeWhile Char.isDigit
  match cs.dropWhile Char.isDigit with
  | '.' :: tail =>
    let fraction := tail.takeWhile Char.isDigit
    digitsValue (whole ++ fraction) *
      10 ^ (writtenPower (tail.dropWhile Char.isDigit) - fraction.length)
  | rest => digitsValue whole * 10 ^ writtenPower rest

lemma takeWhile_digits {rest : List Char} (hds : ∀ c ∈ ds, c.isDigit = true)
    (hrest : rest.takeWhile Char.isDigit = []) :
    (ds ++ rest).takeWhile Char.isDigit = ds ∧ (ds ++ rest).dropWhile Char.isDigit = rest := by
  rw [takeWhile_append_of_pos hds, dropWhile_append_of_pos hds, hrest, append_nil]
  refine ⟨rfl, ?_⟩
  have hsplit := takeWhile_append_dropWhile (p := Char.isDigit) (l := rest)
  rwa [hrest, nil_append] at hsplit

lemma writtenValue_point {f : List Char} (rest : List Char) (hw : ∀ c ∈ w, c.isDigit = true)
    (hf : ∀ c ∈ f, c.isDigit = true) (hrest : rest.takeWhile Char.isDigit = []) :
    writtenValue (w ++ '.' :: (f ++ rest)) =
      digitsValue (w ++ f) * 10 ^ (writtenPower rest - f.length) := by
  obtain ⟨htake, hdrop⟩ :=
    takeWhile_digits hw (show ('.' :: (f ++ rest)).takeWhile Char.isDigit = [] from rfl)
  obtain ⟨htake', hdrop'⟩ := takeWhile_digits hf hrest
  simp only [writtenValue, htake, hdrop, htake', hdrop']

lemma isDigit_of_mem_zeros {n : ℕ} : ∀ c ∈ replicate n '0', c.isDigit = true := by
  intro c hc
  rw [eq_of_mem_replicate hc]
  rfl

lemma writtenValue_positional (hds : ∀ c ∈ ds, c.isDigit = true) (exponent : ℤ) :
    writtenValue (positionalText ds exponent) = decimalValue ds exponent := by
  unfold positionalText
  split
  · next hneg =>
    have hvalue := writtenValue_point [] (w := ['0']) (isDigit_of_mem_zeros (n := 1))
      (forall_mem_append.2 ⟨isDigit_of_mem_zeros (n := (-exponent - 1).toNat), hds⟩) rfl
    rw [append_nil] at hvalue
    refine hvalue.trans ?_
    rw [digitsValue_append, digitsValue_append, digitsValue_zeros, decimalValue]
    congr 1
    · simp [digitsValue]
    · congr 1
      simp only [writtenPower, length_append, length_replicate]
      omega
  · next hpos =>
    simp only
    generalize hpad : ds ++ replicate (exponent.toNat + 1 - ds.length) '0' = padded
    have hdigits : ∀ c ∈ padded, c.isDigit = true := by
      rw [← hpad]
      exact forall_mem_append.2 ⟨hds, isDigit_of_mem_zeros⟩
    have hlength : padded.length = ds.length + (exponent.toNat + 1 - ds.length) := by
      rw [← hpad, length_append, length_replicate]
    have hpadded : (digitsValue padded : ℚ) =
        digitsValue ds * 10 ^ ((exponent.toNat + 1 - ds.length : ℕ) : ℤ) := by
      rw [← hpad, digitsValue_append, digitsValue_zeros, length_replicate, zpow_natCast]
      push_cast
      ring
    have htake : ∀ c ∈ padded.take (exponent.toNat + 1), c.isDigit = true :=
      fun c hc => hdigits c (mem_of_mem_take hc)
    split
    · next hempty =>
      -- All digits stand before the point, and one zero after it.
      have hdrop : padded.length ≤ exponent.toNat + 1 := drop_eq_nil_iff.1 (isEmpty_iff.1 hempty)
      have hvalue := writtenValue_point [] htake (isDigit_of_mem_zeros (n := 1)) rfl
      refine hvalue.trans ?_
      rw [take_of_length_le hdrop, digitsValue_append, digitsValue_zeros, decimalValue]
      push_cast
      rw [hpadded, show ((exponent.toNat + 1 - ds.length : ℕ) : ℤ) = exponent + 1 - ds.length by omega]
      norm_num [writtenPower]
      ring
    · next hempty =>
      have hvalue := writtenValue_point [] htake
        (fun c hc => hdigits c (mem_of_mem_drop (i := exponent.toNat + 1) hc)) rfl
      rw [append_nil] at hvalue
      refine hvalue.trans ?_
      rw [take_append_drop, hpadded, decimalValue, mul_assoc, ← zpow_add₀ (by norm_num)]
      congr 2
      simp only [writtenPower, length_drop]
      omega

lemma writtenPower_scientific (exponent : ℤ) :
    writtenPower ('e' :: (if exponent < 0 then '-' else '+') :: decimalDigits exponent.natAbs) =
      exponent := by
  split
  · rw [writtenPower, digitsValue_decimalDigits]
    omega
  · rw [writtenPower, digitsValue_decimalDigits]
    omega

lemma writtenValue_whole (rest : List Char) (hw : ∀ c ∈ w, c.isDigit = true) :
    writtenValue (w ++ 'e' :: rest) = digitsValue w * 10 ^ writtenPower ('e' :: rest) := by
  obtain ⟨htake, hdrop⟩ :=
    takeWhile_digits hw (show ('e' :: rest).takeWhile Char.isDigit = [] from rfl)
  simp only [writtenValue, htake, hdrop]
  rfl

lemma writtenValue_scientific (hds : ∀ c ∈ ds, c.isDigit = true) (exponent : ℤ) :
    writtenValue (scientificText ds exponent) = decimalValue ds exponent := by
  have hpower := writtenPower_scientific exponent
  match ds with
  | [] => simp [scientificText, writtenValue, decimalValue, digitsValue]
  | [d] =>
    refine (writtenValue_whole _ hds).trans ?_
    rw [hpower, decimalValue]
    simp
  | d :: e :: rest =>
    have hvalue := writtenValue_point _ (w := [d]) (f := e :: rest) (by simp [hds d])
      (fun c hc => hds c (mem_cons_of_mem _ hc))
      (show ('e' :: (if exponent < 0 then '-' else '+') ::
        decimalDigits exponent.natAbs).takeWhile Char.isDigit = [] from rfl)
    rw [hpower] at hvalue
    refine hvalue.trans ?_
    congr 2
    simp only [length_cons]
    push_cast
    ring

lemma isDigit_of_mem_shortest (x : Binary64) : ∀ c ∈ x.shortest.1, c.isDigit = true := by
  intro c hc
  unfold shortest at hc
  split at hc
  · rw [mem_singleton.1 hc]
    rfl
  · simp only at hc
    split at hc
    · rw [mem_singleton.1 hc]
      rfl
    · next d _ _ =>
      obtain ⟨n, hn⟩ := stripZeros_append (decimalDigits d)
      refine Nat.isDigit_of_mem_toDigits (b := 10) (n := d) (by norm_num) (by norm_num) ?_
      rw [← decimalDigits, hn]
      exact mem_append_left _ hc

/-- The text of a double without its sign. -/
def unsignedText (x : Binary64) : List Char :=
  if positional x.shortest.2 then positionalText x.shortest.1 x.shortest.2
  else scientificText x.shortest.1 x.shortest.2

lemma writtenValue_unsignedText (x : Binary64) :
    writtenValue x.unsignedText = decimalValue x.shortest.1 x.shortest.2 := by
  unfold unsignedText
  split
  · exact writtenValue_positional x.isDigit_of_mem_shortest _
  · exact writtenValue_scientific x.isDigit_of_mem_shortest _

/-- The text starts with digits, which a point or an exponent follows. -/
lemma unsignedText_split (x : Binary64) : ∃ ds c rest, x.unsignedText = ds ++ c :: rest ∧
    (∀ d ∈ ds, d.isDigit = true) ∧ (c = '.' ∨ c = 'e') ∧
    ∀ d ∈ rest, d.isDigit = true ∨ d ∈ ['-', '+', 'e'] := by
  have hdigits := x.isDigit_of_mem_shortest
  unfold unsignedText
  generalize x.shortest.1 = ds at hdigits
  generalize x.shortest.2 = exponent
  have hzeros : ∀ n, ∀ c ∈ ds ++ replicate n '0', c.isDigit = true :=
    fun n => forall_mem_append.2 ⟨hdigits, isDigit_of_mem_zeros⟩
  have hpower : ∀ d ∈ (if exponent < 0 then '-' else '+') :: decimalDigits exponent.natAbs,
      d.isDigit = true ∨ d ∈ ['-', '+', 'e'] := by
    refine forall_mem_cons.2 ⟨?_, fun d hd => .inl ?_⟩
    · split <;> simp
    · exact Nat.isDigit_of_mem_toDigits (by norm_num) (by norm_num) hd
  split
  · unfold positionalText
    split
    · refine ⟨['0'], '.', _, rfl, isDigit_of_mem_zeros (n := 1), .inl rfl, fun d hd => .inl ?_⟩
      exact forall_mem_append.2 ⟨isDigit_of_mem_zeros, hdigits⟩ d hd
    · refine ⟨_, '.', _, rfl, fun d hd => hzeros _ d (mem_of_mem_take hd), .inl rfl, fun d hd => .inl ?_⟩
      split at hd
      · exact isDigit_of_mem_zeros (n := 1) d hd
      · exact hzeros _ d (mem_of_mem_drop hd)
  · match ds with
    | [] => exact ⟨[], 'e', _, rfl, fun _ hd => (nomatch hd), .inr rfl, hpower⟩
    | [d] => exact ⟨[d], 'e', _, rfl, hdigits, .inr rfl, hpower⟩
    | d :: e :: rest =>
      rw [forall_mem_cons] at hdigits
      refine ⟨[d], '.', _, rfl, forall_mem_singleton.2 hdigits.1, .inl rfl, forall_mem_append.2
        ⟨fun c hc => .inl (hdigits.2 c hc), forall_mem_cons.2 ⟨by simp, hpower⟩⟩⟩

lemma head_unsignedText (x : Binary64) : x.unsignedText.head? ≠ some '-' := by
  obtain ⟨ds, c, rest, hsplit, hdigits, hc, -⟩ := x.unsignedText_split
  rw [hsplit]
  cases ds with
  | nil => rcases hc with rfl | rfl <;> simp
  | cons d ds =>
    have hd := hdigits d (mem_cons_self ..)
    simp only [cons_append, head?_cons, ne_eq, Option.some.injEq]
    rintro rfl
    exact absurd hd (by decide)

lemma toList_text (x : Binary64) :
    x.text.toList = if x.negative then '-' :: x.unsignedText else x.unsignedText := by
  simp only [text, unsignedText, String.toList_ofList]

/-- **No two doubles have the same text.** -/
lemma text_injective : Function.Injective text := by
  intro x y h
  have hlist : x.text.toList = y.text.toList := by rw [h]
  rw [toList_text, toList_text] at hlist
  have hsame : x.negative = y.negative ∧ x.unsignedText = y.unsignedText := by
    cases hx : x.negative <;> cases hy : y.negative <;> simp only [hx, hy, if_true, if_false,
      Bool.false_eq_true] at hlist
    · exact ⟨rfl, hlist⟩
    · exact absurd (congrArg head? hlist) x.head_unsignedText
    · exact absurd (congrArg head? hlist).symm y.head_unsignedText
    · exact ⟨rfl, by simpa using hlist⟩
  have hvalue := congrArg writtenValue hsame.2
  rw [writtenValue_unsignedText, writtenValue_unsignedText] at hvalue
  obtain ⟨hm, he⟩ := rounds_unique x.shortest_rounds (hvalue ▸ y.shortest_rounds)
  obtain ⟨⟩ := x
  obtain ⟨⟩ := y
  simp only [mk.injEq]
  exact ⟨hsame.1, hm, he⟩

end Conduit.Binary64
