import Mathlib
import ModelFormula.Decimal.Shortest

/-!
# Doubles by their bits

The arithmetic of doubles is defined on numbers that are taken apart into sign, mantissa and
exponent, while the text of a number is computed from the place of its bits.  Here the two views
are joined.

* `Double.pack_unpack` — taking valid bits apart and packing them again changes nothing;
* `Double.toBits_ofBits`, `Double.place_ofBits` — the bits of a double are those it was made of;
* `Double.eq_of_place_eq` — **a double is known by its sign and the place of its absolute value**;
* `Double.place_le_of_isNaN` — what is no NaN has its place up to infinity;
* `Double.neg_absolute` — a negative double is the negative of its absolute value;
* `Double.lt_zero_of_isNegative`, `Double.beq_self` — what the comparisons say of a number.
-/

set_option autoImplicit false

namespace ModelFormula

namespace Double

open Float.Model (Format UnpackedFloat)
open Float.Model.UnpackedFloat

/-! ### Sign, exponent and mantissa -/

theorem toBitVec_ofBitVec (s : BitVec 1) : (Sign.ofBitVec s).toBitVec = s := by
  revert s
  decide

theorem toNat_append_eq_add {m n : Nat} (x : BitVec m) (y : BitVec n) :
    (x ++ y).toNat = 2 ^ n * x.toNat + y.toNat := by
  rw [BitVec.toNat_append, Nat.shiftLeft_eq, Nat.mul_comm, Nat.two_pow_add_eq_or_of_lt y.isLt]

theorem toNat_packComponents (s : Sign) (e : BitVec 11) (m : BitVec 52) :
    (packComponents Format.binary64 s e m).toNat =
      2 ^ 63 * s.toBitVec.toNat + 2 ^ 52 * e.toNat + m.toNat := by
  rw [packComponents, toNat_append_eq_add, toNat_append_eq_add]
  omega

theorem toNat_unpackMantissa (b : BitVec Format.binary64.numBits) :
    (unpackMantissa b).toNat = b.toNat % 2 ^ 52 := by
  simp [unpackMantissa]

theorem toNat_unpackExponent (b : BitVec Format.binary64.numBits) :
    (unpackExponent b).toNat = b.toNat / 2 ^ 52 % 2 ^ 11 := by
  simp [unpackExponent, Nat.shiftRight_eq_div_pow]

theorem toNat_unpackSign (b : BitVec Format.binary64.numBits) :
    (unpackSign b).toNat = b.toNat / 2 ^ 63 := by
  have : b.toNat < 2 ^ 64 := b.isLt
  simp [unpackSign, Nat.shiftRight_eq_div_pow]
  omega

/-- The three parts of a double make it up. -/
theorem packComponents_parts (b : BitVec Format.binary64.numBits) :
    packComponents Format.binary64 (.ofBitVec (unpackSign b)) (unpackExponent b)
      (unpackMantissa b) = b := by
  apply BitVec.eq_of_toNat_eq
  have : b.toNat < 2 ^ 64 := b.isLt
  rw [toNat_packComponents, toBitVec_ofBitVec, toNat_unpackSign, toNat_unpackExponent,
    toNat_unpackMantissa]
  omega

theorem unpackSign_eq_one {b : BitVec Format.binary64.numBits} (h : 2 ^ 63 ≤ b.toNat) :
    unpackSign b = 1 := by
  have : b.toNat < 2 ^ 64 := b.isLt
  apply BitVec.eq_of_toNat_eq
  rw [toNat_unpackSign]
  change b.toNat / 2 ^ 63 = 1
  omega

/-- Without exponent and mantissa, nothing but the sign is left. -/
theorem mod_eq_zero_of_parts {b : BitVec Format.binary64.numBits} (he : unpackExponent b = 0#_)
    (hm : unpackMantissa b = 0#_) : b.toNat % 2 ^ 63 = 0 := by
  have hexp := toNat_unpackExponent b
  have hmant := toNat_unpackMantissa b
  rw [he] at hexp
  rw [hm] at hmant
  change 0 = b.toNat / 2 ^ 52 % 2 ^ 11 at hexp
  change 0 = b.toNat % 2 ^ 52 at hmant
  omega

/-! ### Packing -/

/-- A mantissa below the implicit bit is packed without exponent. -/
theorem pack_subnormal (s : Sign) {m : Nat} (hm : 0 < m) (hlt : m < 2 ^ 52) :
    UnpackedFloat.pack Format.binary64 (.finite s m (-1074) hm) =
      packComponents Format.binary64 s 0 (BitVec.ofNat _ m) := by
  have hlog : m.log2 < 52 := (Nat.log2_lt (Nat.ne_of_gt hm)).mpr hlt
  unfold UnpackedFloat.pack
  dsimp only
  rw [if_neg (by decide), if_neg (show ¬m.log2 + 1 = Format.binary64.mantissaBits by
    change ¬m.log2 + 1 = 53
    omega)]
  rfl

/-- A mantissa with the implicit bit is packed with its exponent. -/
theorem pack_normal (s : Sign) {k m : Nat} (hk : k < 2047) (hpos : 0 < 2 ^ 52 + m)
    (hlt : m < 2 ^ 52) :
    UnpackedFloat.pack Format.binary64 (.finite s (2 ^ 52 + m) ((k : Int) - 1075) hpos) =
      packComponents Format.binary64 s (BitVec.ofNat _ k) (BitVec.ofNat _ (2 ^ 52 + m)) := by
  have hlog : (2 ^ 52 + m).log2 = 52 := (Nat.log2_eq_iff (by omega)).mpr (by omega)
  have hexp : ((k : Int) - 1075 + Format.binary64.exponentBias
      + Format.binary64.mantissaBitsWithoutImplicit).toNat = k := by
    simp only [Format.exponentBias]
    omega
  unfold UnpackedFloat.pack
  dsimp only
  rw [hexp, hlog, if_neg (by omega), if_pos (by decide)]

/-- Taking valid bits apart and packing them again changes nothing. -/
theorem pack_unpack {b : BitVec Format.binary64.numBits} (h : Format.binary64.Valid b) :
    UnpackedFloat.pack Format.binary64 (UnpackedFloat.unpack Format.binary64 b) = b := by
  have hb := packComponents_parts b
  have hmant : (unpackMantissa b).toNat < 2 ^ 52 := (unpackMantissa b).isLt
  have hexp : (unpackExponent b).toNat < 2 ^ 11 := (unpackExponent b).isLt
  unfold UnpackedFloat.unpack
  dsimp only
  split
  · -- an exponent of ones: an infinity or the NaN
    rename_i he
    split
    · rename_i hm
      rw [he, hm] at hb
      exact hb
    · rename_i hm
      exact (h.eq_packedNaN he hm).symm
  · rename_i he
    split
    · -- an exponent of zeros: a zero or a subnormal number
      rename_i he0
      split
      · rename_i hm
        rw [he0, hm] at hb
        exact hb
      · rename_i hm
        have hpos : 0 < (unpackMantissa b).toNat := by
          simpa [BitVec.toNat_pos, BitVec.pos_iff_ne_zero] using hm
        have := pack_subnormal (.ofBitVec (unpackSign b)) hpos hmant
        rw [BitVec.ofNat_toNat, BitVec.setWidth_eq] at this
        rw [he0] at hb
        rw [he0]
        exact this.trans hb
    · rename_i he0
      have hk : (unpackExponent b).toNat < 2047 := by
        have : (unpackExponent b).toNat ≠ 2047 := fun h' => he (BitVec.eq_of_toNat_eq h')
        omega
      have hm : (1#1 ++ unpackMantissa b).toNat = 2 ^ 52 + (unpackMantissa b).toNat := by
        rw [toNat_append_eq_add]
        rfl
      have hpack := pack_normal (.ofBitVec (unpackSign b)) hk (by omega) hmant
      simp only [hm]
      refine hpack.trans (Eq.trans ?_ hb)
      congr 1
      · rw [BitVec.ofNat_toNat, BitVec.setWidth_eq]
      · apply BitVec.eq_of_toNat_eq
        rw [BitVec.toNat_ofNat]
        exact (Nat.add_mod_left _ _).trans (Nat.mod_eq_of_lt hmant)

/-! ### Bits -/

/-- Up to infinity, an exponent of ones belongs to a mantissa of zeros. -/
theorem unpackMantissa_eq_zero {b : BitVec Format.binary64.numBits}
    (h : b.toNat % 2 ^ 63 ≤ infinityPlace) (he : unpackExponent b = -1#_) :
    unpackMantissa b = 0#_ := by
  have hexp : (unpackExponent b).toNat = 2047 := congrArg BitVec.toNat he
  have hmant := toNat_unpackMantissa b
  rw [toNat_unpackExponent] at hexp
  apply BitVec.eq_of_toNat_eq
  change _ = 0
  unfold infinityPlace at h
  omega

theorem valid_of_le {b : BitVec Format.binary64.numBits} (h : b.toNat % 2 ^ 63 ≤ infinityPlace) :
    Format.binary64.Valid b :=
  ⟨fun he hm => absurd (unpackMantissa_eq_zero h he) hm⟩

theorem unpack_ne_notANumber {b : BitVec Format.binary64.numBits}
    (h : b.toNat % 2 ^ 63 ≤ infinityPlace) :
    UnpackedFloat.unpack Format.binary64 b ≠ .notANumber := by
  unfold UnpackedFloat.unpack
  dsimp only
  split
  · rename_i he
    rw [if_pos (unpackMantissa_eq_zero h he)]
    simp
  · split
    · split <;> simp
    · simp

theorem ofBits_toBits (x : Float) : Float.ofBits x.toBits = x := by
  obtain ⟨⟨bits, hvalid⟩⟩ := x
  have h := pack_unpack hvalid
  simp only [Float.ofBits, Float.toBits, Float.Model.ofBits, Float.Model.pack, h]

theorem toBits_ofBits {b : UInt64} (h : b.toNat % 2 ^ 63 ≤ infinityPlace) :
    (Float.ofBits b).toBits = b := by
  have hpack := pack_unpack (valid_of_le (b := b.toBitVec) h)
  simp only [Float.ofBits, Float.toBits, Float.Model.ofBits, Float.Model.pack, hpack]

/-- The sign bit is all that a number and its negative differ in. -/
theorem neg_unpack {b c : BitVec Format.binary64.numBits} (hb : b.toNat < 2 ^ 63)
    (hc : c.toNat = 2 ^ 63 + b.toNat) :
    (UnpackedFloat.unpack Format.binary64 b).neg = UnpackedFloat.unpack Format.binary64 c := by
  have hmant : unpackMantissa b = unpackMantissa c := by
    apply BitVec.eq_of_toNat_eq
    rw [toNat_unpackMantissa, toNat_unpackMantissa]
    omega
  have hexp : unpackExponent b = unpackExponent c := by
    apply BitVec.eq_of_toNat_eq
    rw [toNat_unpackExponent, toNat_unpackExponent]
    omega
  have hsign : unpackSign b = 0 ∧ unpackSign c = 1 := by
    constructor <;> apply BitVec.eq_of_toNat_eq <;> rw [toNat_unpackSign]
    · show _ = 0
      omega
    · show _ = 1
      omega
  unfold UnpackedFloat.unpack
  simp only [hmant, hexp, hsign.1, hsign.2]
  split
  · split <;> rfl
  · split
    · split <;> rfl
    · rfl

/-! ### Places -/

/-- The absolute value of a double. -/
def absolute (x : Float) : Float := Float.ofBits (place x).toUInt64

theorem toNat_toBits_ofBits {p : Nat} (h : p ≤ infinityPlace) :
    (Float.ofBits p.toUInt64).toBits.toNat = p := by
  unfold infinityPlace at h
  have hp : p.toUInt64.toNat = p := Nat.mod_eq_of_lt (show p < 2 ^ 64 by omega)
  rw [toBits_ofBits, hp]
  rw [hp]
  unfold infinityPlace
  omega

theorem place_ofBits {p : Nat} (h : p ≤ infinityPlace) : place (Float.ofBits p.toUInt64) = p := by
  rw [place, toNat_toBits_ofBits h]
  unfold infinityPlace at h
  omega

theorem isNegative_ofBits {p : Nat} (h : p ≤ infinityPlace) :
    isNegative (Float.ofBits p.toUInt64) = false := by
  rw [isNegative, toNat_toBits_ofBits h, decide_eq_false_iff_not]
  unfold infinityPlace at h
  omega

/-- A double is known by its sign and the place of its absolute value. -/
theorem eq_of_place_eq {x y : Float} (hplace : place x = place y)
    (hsign : isNegative x = isNegative y) : x = y := by
  have hx := x.toBits.toNat_lt
  have hy := y.toBits.toNat_lt
  simp only [isNegative, decide_eq_decide] at hsign
  unfold place at hplace
  have hbits : x.toBits = y.toBits := UInt64.toNat_inj.mp (by omega)
  rw [← ofBits_toBits x, hbits, ofBits_toBits]

theorem absolute_eq_self {x : Float} (h : place x ≤ infinityPlace) (hx : isNegative x = false) :
    absolute x = x :=
  eq_of_place_eq (place_ofBits h) ((isNegative_ofBits h).trans hx.symm)

/-- A negative double is the negative of its absolute value. -/
theorem neg_absolute {x : Float} (h : place x ≤ infinityPlace) (hx : isNegative x = true) :
    -absolute x = x := by
  have hbits : (absolute x).toBits.toBitVec.toNat < 2 ^ 63 ∧
      x.toBits.toBitVec.toNat = 2 ^ 63 + (absolute x).toBits.toBitVec.toNat := by
    have hm := place_ofBits h
    have hn := isNegative_ofBits h
    simp only [isNegative, decide_eq_true_eq, decide_eq_false_iff_not] at hx hn
    have := x.toBits.toNat_lt
    change (absolute x).toBits.toNat < _ ∧ x.toBits.toNat = _ + (absolute x).toBits.toNat
    unfold place at hm
    change (absolute x).toBits.toNat % _ = _ at hm
    change ¬ _ ≤ (absolute x).toBits.toNat at hn
    omega
  have hneg := neg_unpack hbits.1 hbits.2
  change Float.ofModel (.pack (UnpackedFloat.neg (UnpackedFloat.unpack Format.binary64
    (absolute x).toBits.toBitVec))) = x
  rw [hneg]
  exact ofBits_toBits x

/-- Beyond the place of infinity there are only NaNs. -/
theorem unpack_eq_notANumber {b : BitVec Format.binary64.numBits}
    (h : infinityPlace < b.toNat % 2 ^ 63) :
    UnpackedFloat.unpack Format.binary64 b = .notANumber := by
  have hb : b.toNat < 2 ^ 64 := b.isLt
  unfold infinityPlace at h
  have hexp : unpackExponent b = -1#_ := by
    apply BitVec.eq_of_toNat_eq
    rw [toNat_unpackExponent]
    change _ = 2047
    omega
  have hmant : unpackMantissa b ≠ 0#_ := by
    intro hzero
    have hmod := toNat_unpackMantissa b
    rw [hzero] at hmod
    change 0 = _ at hmod
    omega
  unfold UnpackedFloat.unpack
  dsimp only
  rw [if_pos hexp, if_neg hmant]

theorem place_le_of_isNaN {x : Float} (h : x.isNaN = false) : place x ≤ infinityPlace := by
  by_contra hlt
  have hunpack : x.toModel.unpack = .notANumber := unpack_eq_notANumber (Nat.lt_of_not_le hlt)
  rw [Float.isNaN, Float.Model.isNaN, hunpack] at h
  cases h

/-! ### Comparisons -/

/-- A negative double other than `-0` is less than zero. -/
theorem lt_zero_of_isNegative {x : Float} (hx : isNegative x = true) (h0 : place x ≠ 0) :
    x < 0.0 := by
  have hzero : (0.0 : Float).toModel.unpack = .zero .positive := rfl
  change decide (x.toModel < (0.0 : Float).toModel) = true
  rw [decide_eq_true_eq]
  change x.toModel.unpack.lt (0.0 : Float).toModel.unpack = true
  rw [hzero]
  have hx := of_decide_eq_true hx
  obtain ⟨⟨bits, hvalid⟩⟩ := x
  change 2 ^ 63 ≤ bits.toNat at hx
  change bits.toNat % 2 ^ 63 ≠ 0 at h0
  have hsign : @unpackSign Format.binary64 bits.toBitVec = 1 := unpackSign_eq_one hx
  unfold Float.Model.unpack UnpackedFloat.unpack
  simp only [hsign]
  split
  · rename_i he
    split
    · rfl
    · -- the one NaN there is has no sign
      rename_i hm
      have hnan : bits.toNat = _ := congrArg BitVec.toNat (hvalid.eq_packedNaN he hm)
      have : (packedNaN Format.binary64).toNat = infinityPlace + 2 ^ 51 := by decide
      unfold infinityPlace at this
      omega
  · split
    · split
      · rename_i he hm
        exact absurd (mod_eq_zero_of_parts he hm) h0
      · rfl
    · rfl

theorem compare_self {u : UnpackedFloat} (h : u ≠ .notANumber) : u.compare u = some .eq := by
  cases u with
  | infinity s => cases s <;> rfl
  | notANumber => exact absurd rfl h
  | zero s => rfl
  | finite s m e hm => cases s <;> simp [UnpackedFloat.compare, Ordering.then]

/-- A double that is a number equals itself. -/
theorem beq_self {x : Float} (h : place x ≤ infinityPlace) : (x == x) = true := by
  have hcompare := compare_self (unpack_ne_notANumber (b := x.toBits.toBitVec) h)
  change (x.toModel.unpack.compare x.toModel.unpack == some .eq) = true
  rw [beq_iff_eq]
  exact hcompare

end Double

end ModelFormula
