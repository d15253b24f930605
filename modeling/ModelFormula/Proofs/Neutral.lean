import ModelFormula.Proofs.SignedZero

/-!
# Neutral operands

A double added to `-0` is that double, and so is `1` times a double.  For the sum this is read off
the cases of addition; for the product the double has to come out of the rounding as it went in.

* `Double.Rounded` — a mantissa and an exponent as rounding leaves them;
* `Double.rounded_of_unpack_eq` — those of a double are;
* `Double.roundWithAccuracy_scaled` — such a number is rounded to itself **when it is written with
  more digits that are all zero**;
* `Double.minusZero_add`, `Double.one_mul` — **the two neutral operands.**

Of the two zeros only `-0` is neutral: `0 + -0` is `0`.
-/

set_option autoImplicit false

namespace ModelFormula

namespace Double

open Float.Model (Format UnpackedFloat totalExponent)
open Float.Model.UnpackedFloat

/-! ### Mantissas and exponents of doubles -/

/-- The exponent is the one that rounding aims at. -/
def Rounded (m : Nat) (e : Int) : Prop :=
  Format.binary64.targetExponent (totalExponent m e) = e

theorem rounded_subnormal {m : Nat} (hpos : 0 < m) (hlt : m < 2 ^ 52) : Rounded m (-1074) := by
  have hlog : m.log2 < 52 := (Nat.log2_lt (Nat.ne_of_gt hpos)).mpr hlt
  simp only [Rounded, Format.targetExponent, Format.minExponent, Format.mantissaBits,
    totalExponent]
  omega

theorem rounded_normal {m k : Nat} (hlt : m < 2 ^ 52) (hk : 0 < k) :
    Rounded (2 ^ 52 + m) ((k : Int) - 1075) := by
  have hlog : (2 ^ 52 + m).log2 = 52 := (Nat.log2_eq_iff (by omega)).mpr (by omega)
  simp only [Rounded, Format.targetExponent, Format.minExponent, Format.mantissaBits,
    totalExponent, hlog]
  omega

/-- Taking a double apart gives a mantissa and an exponent as rounding leaves them. -/
theorem rounded_of_unpack_eq {b : BitVec Format.binary64.numBits} {s : Sign} {m : Nat} {e : Int}
    {hm : 0 < m} (h : UnpackedFloat.unpack Format.binary64 b = .finite s m e hm) :
    Rounded m e := by
  have hmant : (unpackMantissa b).toNat < 2 ^ 52 := (unpackMantissa b).isLt
  unfold UnpackedFloat.unpack at h
  dsimp only at h
  split at h
  · split at h <;> cases h
  · split at h
    · rename_i he
      split at h
      · cases h
      · cases h
        rw [he]
        exact rounded_subnormal hm hmant
    · rename_i he
      have hexp : 0 < (unpackExponent b).toNat := by
        refine Nat.pos_of_ne_zero ?_
        intro hzero
        exact he (BitVec.eq_of_toNat_eq hzero)
      have himplicit : (1#1 ++ unpackMantissa b).toNat = 2 ^ 52 + (unpackMantissa b).toNat := by
        rw [toNat_append_eq_add]
        rfl
      cases h
      rw [himplicit]
      exact rounded_normal hmant hexp

/-! ### Digits that are all zero -/

theorem log2_two_pow_mul {m : Nat} (hm : 0 < m) (n : Nat) : (2 ^ n * m).log2 = m.log2 + n := by
  induction n with
  | zero => rw [Nat.pow_zero, Nat.one_mul, Nat.add_zero]
  | succ n ih =>
      have hpos : 2 ^ n * m ≠ 0 := Nat.ne_of_gt (Nat.mul_pos (Nat.two_pow_pos n) hm)
      rw [Nat.pow_succ, Nat.mul_comm (2 ^ n) 2, Nat.mul_assoc, Nat.log2_two_mul hpos, ih]
      rfl

/-- Digits that are zero are shifted out without a trace. -/
theorem shiftRight_two_pow_mul (m n : Nat) :
    (ExtendedMantissa.mk (2 ^ n * m) false false) >>> n = ⟨m, false, false⟩ := by
  induction n generalizing m with
  | zero =>
      rw [Nat.pow_zero, Nat.one_mul]
      rfl
  | succ n ih =>
      change ((ExtendedMantissa.mk (2 ^ (n + 1) * m) false false) >>> n).shiftRightOne = _
      rw [Nat.pow_succ, Nat.mul_assoc, ih]
      simp [ExtendedMantissa.shiftRightOne]

/-- The target of the shift is reached when all digits that are zero are gone. -/
theorem shiftToTargetExponent_scaled {m : Nat} {e : Int} (hm : 0 < m) (h : Rounded m e) (n : Nat) :
    shiftToTargetExponent .binary64 (2 ^ n * m) (e - n) .exact = (⟨m, false, false⟩, e) := by
  have htotal : totalExponent (2 ^ n * m) (e - n) = totalExponent m e := by
    rw [totalExponent, totalExponent, log2_two_pow_mul hm]
    omega
  have hamount : (e - (e - n)).toNat = n := by omega
  simp only [shiftToTargetExponent, htotal]
  rw [h, shiftToExponent]
  simp only [hamount]
  rw [ExtendedMantissa.ofMantissaAndAccuracy, shiftRight_two_pow_mul, Int.sub_add_cancel]

/-- A number that is written with `n` digits more, all of them zero, is rounded to itself. -/
theorem roundWithAccuracy_scaled (s : Sign) {m : Nat} {e : Int} (hm : 0 < m) (h : Rounded m e)
    (n : Nat) :
    roundWithAccuracy .binary64 s (2 ^ n * m) (e - n) .exact = .finite s m e hm := by
  have hagain : shiftToTargetExponent .binary64 m e .exact = (⟨m, false, false⟩, e) := by
    have := shiftToTargetExponent_scaled hm h 0
    rwa [Nat.pow_zero, Nat.one_mul, Int.natCast_zero, Int.sub_zero] at this
  have hrounded : (ExtendedMantissa.mk m false false).roundedMantissa = m := rfl
  simp only [roundWithAccuracy, shiftToTargetExponent_scaled hm h n, hrounded, hagain]
  rw [dif_neg (Nat.ne_of_gt hm)]

/-! ### The two neutral operands -/

theorem unpacked_minusZero_add (u : UnpackedFloat) :
    UnpackedFloat.add .binary64 (.zero .negative) u = u := by
  cases u with
  | zero s => cases s <;> rfl
  | _ => rfl

theorem positive_mul (s : Sign) : Sign.positive * s = s := by cases s <;> rfl

theorem unpacked_one_mul (b : BitVec Format.binary64.numBits) :
    UnpackedFloat.mul .binary64 (.finite .positive (2 ^ 52) (-52) (Nat.two_pow_pos 52))
      (.unpack .binary64 b) = .unpack .binary64 b := by
  cases hb : UnpackedFloat.unpack .binary64 b with
  | notANumber => rfl
  | infinity s => rw [UnpackedFloat.mul, positive_mul]
  | zero s => rw [UnpackedFloat.mul, positive_mul]
  | finite s m e hm =>
      have hsum : -52 + e = e - (52 : Nat) := by omega
      rw [UnpackedFloat.mul, positive_mul, hsum]
      exact roundWithAccuracy_scaled s hm (rounded_of_unpack_eq hb) 52

/-- Adding to `-0` changes nothing. -/
@[simp] theorem minusZero_add (x : Float) : -0.0 + x = x := by
  change Float.ofModel (.pack (UnpackedFloat.add .binary64 (.zero .negative) x.toModel.unpack)) = x
  rw [unpacked_minusZero_add, pack_unpack_toModel]

/-- Multiplying `1` changes nothing. -/
@[simp] theorem one_mul (x : Float) : 1.0 * x = x := by
  change Float.ofModel (.pack (UnpackedFloat.mul .binary64
    (.finite .positive (2 ^ 52) (-52) (Nat.two_pow_pos 52)) x.toModel.unpack)) = x
  rw [Float.Model.unpack, unpacked_one_mul]
  exact pack_unpack_toModel x

end Double

end ModelFormula
