/-!
# Finite doubles

A finite double is `± coefficient · 2 ^ exponent` in its one normal form: 53 bits of
coefficient, and either the leading bit is set or the exponent is the least one.  Every
operation here is exact arithmetic on natural numbers followed by one rounding step
(`ofRatio`), so two doubles are equal exactly when their fields are.
-/

namespace Conduit

/-- The normal form of a finite double. -/
def Binary64.Normal (coefficient : Nat) (exponent : Int) : Prop :=
  coefficient < 1 <<< 53 ∧ -1074 ≤ exponent ∧ exponent ≤ 971 ∧
    (1 <<< 52 ≤ coefficient ∨ exponent = -1074)

instance (m : Nat) (e : Int) : Decidable (Binary64.Normal m e) :=
  inferInstanceAs (Decidable (_ ∧ _ ∧ _ ∧ _))

/-- A finite double; the zeros keep their sign. -/
structure Binary64 where
  negative : Bool
  coefficient : Nat
  exponent : Int
  normal : Binary64.Normal coefficient exponent
deriving DecidableEq

namespace Binary64

def zero (negative : Bool) : Binary64 := ⟨negative, 0, -1074, by decide⟩

instance : Inhabited Binary64 := ⟨zero false⟩

def isZero (x : Binary64) : Bool := x.coefficient == 0

/-- `⌊log₂ (num / den)⌋` for positive `num` and `den`. -/
def floorLog (num den : Nat) : Int :=
  let k : Int := (num.log2 : Int) - den.log2
  if den * Nat.pow 2 k.toNat ≤ num * Nat.pow 2 (-k).toNat then k else k - 1

/-- `num / den` rounded to the nearest natural number, an exact half to the even one. -/
def roundDiv (num den : Nat) : Nat :=
  let q := num / den
  let r := num % den
  if den < 2 * r || (2 * r == den && q % 2 == 1) then q + 1 else q

def ofParts? (negative : Bool) (coefficient : Nat) (exponent : Int) : Option Binary64 :=
  if h : Normal coefficient exponent then some ⟨negative, coefficient, exponent, h⟩ else none

/-- The double nearest to `num / den`, or none when that is too large to be finite. -/
def ofRatio (negative : Bool) (num den : Nat) : Option Binary64 :=
  if num = 0 then some (zero negative)
  else
    let e := max (-1074) (floorLog num den - 52)
    let m := roundDiv (num * Nat.pow 2 (-e).toNat) (den * Nat.pow 2 e.toNat)
    if m = 1 <<< 53 then ofParts? negative (1 <<< 52) (e + 1) else ofParts? negative m e

/-- The value as a fraction, sign left aside. -/
def ratio (x : Binary64) : Nat × Nat :=
  (x.coefficient * Nat.pow 2 x.exponent.toNat, Nat.pow 2 (-x.exponent).toNat)

/-- The value in units of the least positive double. -/
def scaled (x : Binary64) : Int :=
  let n : Int := (x.coefficient * Nat.pow 2 (x.exponent + 1074).toNat : Nat)
  if x.negative then -n else n

/-- An integer in the units of `scaled`. -/
def scale (n : Int) : Int := n * Nat.pow 2 1074

/-- The double nearest to an integer of at most 64 bits. -/
def ofInt (n : Int) : Binary64 :=
  (ofRatio (n < 0) n.natAbs 1).getD (zero false)

/-- The product, or none when it is too large. -/
def mul? (x y : Binary64) : Option Binary64 :=
  let (a, b) := x.ratio
  let (c, d) := y.ratio
  ofRatio (x.negative != y.negative) (a * c) (b * d)

/-- The quotient, or none when it is too large or the divisor is zero. -/
def div? (x y : Binary64) : Option Binary64 :=
  if y.isZero then none
  else
    let (a, b) := x.ratio
    let (c, d) := y.ratio
    ofRatio (x.negative != y.negative) (a * d) (b * c)

def isIntegral (x : Binary64) : Bool :=
  let (n, d) := x.ratio
  n % d == 0

/-- The integer part, toward zero. -/
def truncate (x : Binary64) : Int :=
  let (n, d) := x.ratio
  let q : Int := n / d
  if x.negative then -q else q

end Binary64

end Conduit
