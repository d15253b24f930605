/-!
# Decimals and the double nearest to them

A decimal is a natural coefficient times a power of ten.  The doubles are counted from zero
upwards: read as a natural number, the bits of a nonnegative double are its place in that count,
so that rounding a fraction means computing a place.

* `Decimal` — `coefficient * 10 ^ exponent`;
* `Double.ofRatio` — **the double nearest to a fraction**, a half going to the even place;
* `Decimal.toFloat` — the double nearest to a decimal.
-/

set_option autoImplicit false

namespace ModelFormula

-- powers of naturals are those of the core library, whatever else a module imports
attribute [instance(2000), default_instance(20000)] instPowNat

/-! ### Rounding a fraction to a double -/

namespace Double

/-- The place of infinity among the nonnegative doubles, which is its bit pattern. -/
def infinityPlace : Nat := 0x7ff * 2 ^ 52

/-- Positive infinity. -/
def infinity : Float := Float.ofBits infinityPlace.toUInt64

/-- A double that is no number. -/
def nan : Float := Float.ofBits (infinityPlace + 2 ^ 51).toUInt64

/-- The natural number nearest to `num / den`, a half going to the even neighbour. -/
def roundHalfEven (num den : Nat) : Nat :=
  let down := num / den
  let twice := 2 * (num % den)
  if twice < den then down else if den < twice then down + 1 else down + down % 2

/-- The place of the double nearest to `num / den`.

The fraction is counted in units of `2 ^ (-1074)`, the least positive double.  A double keeps the
53 leading binary digits of that count, so `drop` digits are rounded away, and each of them moves
the place by one binade, `2 ^ 52` places.  A carry out of the rounding lands on the first place
of the next binade, as it should, and what is too large stops at infinity. -/
def placeOfRatio (num den : Nat) : Nat :=
  let units := num * 2 ^ 1074
  let drop := Nat.log2 (units / den) - 52
  min (roundHalfEven units (den * 2 ^ drop) + drop * 2 ^ 52) infinityPlace

/-- The double nearest to `num / den`. -/
def ofRatio (num den : Nat) : Float :=
  Float.ofBits (placeOfRatio num den).toUInt64

@[simp] theorem roundHalfEven_mul_right {den : Nat} (n : Nat) (h : 0 < den) :
    roundHalfEven (n * den) den = n := by
  simp [roundHalfEven, Nat.mul_mod_left, Nat.mul_div_cancel n h, h]

theorem placeOfRatio_le (num den : Nat) : placeOfRatio num den ≤ infinityPlace :=
  Nat.min_le_right _ _

end Double

/-! ### Decimals -/

/-- The number `coefficient * 10 ^ exponent`. -/
structure Decimal where
  coefficient : Nat
  exponent : Int
  deriving DecidableEq, Repr

namespace Decimal

/-- The numerator of a decimal written as a fraction. -/
def num (d : Decimal) : Nat := d.coefficient * 10 ^ d.exponent.toNat

/-- The denominator of a decimal written as a fraction. -/
def den (d : Decimal) : Nat := 10 ^ (-d.exponent).toNat

/-- Whether the exponent alone shows that a nonzero decimal lies beyond every finite double. -/
def isHuge (d : Decimal) : Bool := decide (400 < d.exponent)

/-- Whether size and exponent show that a decimal lies below half of the least double: the
coefficient is less than `2 ^ (log2 coefficient + 1)`. -/
def isTiny (d : Decimal) : Bool :=
  decide (d.exponent < -(1100 + (Nat.log2 d.coefficient : Int)))

/-- The double nearest to a decimal.  The first three cases keep the power of ten small; the
last one is the rule, and the others agree with it. -/
def toFloat (d : Decimal) : Float :=
  if d.coefficient = 0 then 0.0
  else if d.isHuge then Double.infinity
  else if d.isTiny then 0.0
  else Double.ofRatio d.num d.den

theorem den_pos (d : Decimal) : 0 < d.den := Nat.pow_pos (by decide)

end Decimal

end ModelFormula
