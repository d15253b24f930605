import ModelFormula.Proofs.Double

/-!
# The shortest decimal reads back

The search for the shortest decimal of a double ends with a decimal that reads back as the double:
either a grid point, which was tried, or the exact value.

* `Decimal.readsAs_exact` — the exact value of a finite double is rounded to the double itself;
* `Decimal.readsAs_shortest` — **the shortest decimal of a finite double reads back as it**;
* `Decimal.toFloat_eq_ofRatio`, `Decimal.toFloat_natural` — a decimal that reads back as a finite
  double other than zero is read by the rule alone, and so is every whole number.
-/

set_option autoImplicit false

namespace ModelFormula

/-! ### Exact values -/

namespace Double

/-- A fraction that is a whole number of units is rounded to the place of those units: `drop` binary
digits that are all zero are dropped from them. -/
theorem placeOfRatio_of_units {num den k drop : Nat} (hden : 0 < den)
    (hunits : num * 2 ^ 1074 = k * 2 ^ drop * den) (hdrop : Nat.log2 (k * 2 ^ drop) - 52 = drop) :
    placeOfRatio num den = min (k + drop * 2 ^ 52) infinityPlace := by
  have hpos : 0 < den * 2 ^ drop := Nat.mul_pos hden (Nat.two_pow_pos drop)
  have hround : k * 2 ^ drop * den = k * (den * 2 ^ drop) := by
    rw [Nat.mul_assoc, Nat.mul_comm (2 ^ drop) den]
  simp only [placeOfRatio]
  rw [hunits, Nat.mul_div_cancel _ hden, hdrop, hround, roundHalfEven_mul_right k hpos]

/-- The units of a double, their leading digits apart from the zeros behind them. -/
theorem units_eq (x : Float) : ∃ k drop, units x = k * 2 ^ drop ∧
    Nat.log2 (k * 2 ^ drop) - 52 = drop ∧ k + drop * 2 ^ 52 = place x := by
  have hwithin : place x % 2 ^ 52 < 2 ^ 52 := Nat.mod_lt _ (by omega)
  have hplace := Nat.div_add_mod (place x) (2 ^ 52)
  unfold units
  dsimp only
  by_cases hb : place x / 2 ^ 52 = 0
  · -- subnormal numbers are whole numbers of units as they stand
    rw [if_pos hb]
    refine ⟨place x % 2 ^ 52, 0, by simp, ?_, by omega⟩
    rw [Nat.pow_zero, Nat.mul_one]
    by_cases h0 : place x % 2 ^ 52 = 0
    · rw [h0]
      decide
    · have := (Nat.log2_lt h0).mpr hwithin
      omega
  · rw [if_neg hb]
    refine ⟨2 ^ 52 + place x % 2 ^ 52, place x / 2 ^ 52 - 1, rfl, ?_, by omega⟩
    generalize place x / 2 ^ 52 - 1 = drop
    have hlog : Nat.log2 ((2 ^ 52 + place x % 2 ^ 52) * 2 ^ drop) = 52 + drop := by
      rw [Nat.log2_eq_iff (Nat.ne_of_gt (Nat.mul_pos (by omega) (Nat.two_pow_pos drop)))]
      constructor
      · rw [Nat.pow_add]
        exact Nat.mul_le_mul_right _ (by omega)
      · rw [show 52 + drop + 1 = 53 + drop by omega, Nat.pow_add]
        exact Nat.mul_lt_mul_of_pos_right (by omega) (Nat.two_pow_pos drop)
    omega

theorem units_eq_zero_iff (x : Float) : units x = 0 ↔ place x = 0 := by
  have hplace := Nat.div_add_mod (place x) (2 ^ 52)
  unfold units
  dsimp only
  split
  · omega
  · have := Nat.mul_pos (show 0 < 2 ^ 52 + place x % 2 ^ 52 by omega)
      (Nat.two_pow_pos (place x / 2 ^ 52 - 1))
    omega

end Double

namespace Decimal

open Double

/-- With `n` places after the point, `u / 2 ^ n` is `u * 5 ^ n` in the last place. -/
theorem num_mul_two_pow (u n : Nat) :
    (⟨u * 5 ^ n, -(n : Int)⟩ : Decimal).num * 2 ^ n =
      u * (⟨u * 5 ^ n, -(n : Int)⟩ : Decimal).den := by
  have hexp : (-(n : Int)).toNat = 0 := by omega
  have hplaces : (-(-(n : Int))).toNat = n := by omega
  simp only [num, den]
  rw [hexp, hplaces, Nat.pow_zero, Nat.mul_one, Nat.mul_assoc, ← Nat.mul_pow]

/-- The exact value of a finite double is rounded to the double itself. -/
theorem readsAs_exact {x : Float} (hfin : isFinite x = true) (h0 : units x ≠ 0) :
    (exact x).readsAs x = true := by
  have hpow (n : Nat) : units x * 5 ^ n ≠ 0 :=
    Nat.mul_ne_zero h0 (Nat.ne_of_gt (Nat.pow_pos (by omega)))
  have hcoef : (exact x).coefficient ≠ 0 := hpow 1074
  have htiny : (exact x).isTiny = false := by
    rw [isTiny, decide_eq_false_iff_not]
    change ¬(-1074 : Int) < _
    omega
  obtain ⟨k, drop, hunits, hdrop, hk⟩ := units_eq x
  have hscale : (exact x).num * 2 ^ 1074 = k * 2 ^ drop * (exact x).den := by
    rw [← hunits]
    exact num_mul_two_pow (units x) 1074
  have hplace : placeOfRatio (exact x).num (exact x).den = place x := by
    rw [placeOfRatio_of_units (den_pos _) hscale hdrop, hk]
    have := of_decide_eq_true hfin
    omega
  have hhuge : (exact x).isHuge = false := rfl
  have hfloat : (exact x).toFloat = ofRatio (exact x).num (exact x).den := by
    rw [toFloat, if_neg hcoef, hhuge, htiny]
    rfl
  rw [readsAs, hfloat, ofRatio, place_ofBits (placeOfRatio_le _ _), hplace, beq_self_eq_true]

/-! ### The search -/

theorem nearer_eq (tie : Tie) (low rest den : Nat) :
    nearer tie low rest den = low ∨ nearer tie low rest den = low + 1 := by
  unfold nearer
  split
  · exact .inl rfl
  · split
    · exact .inr rfl
    · cases tie with
      | up => exact .inr rfl
      | even =>
          change low + low % 2 = low ∨ low + low % 2 = low + 1
          omega

theorem readsAs_of_onGrid? {tie : Tie} {x : Float} {k : Int} {d : Decimal}
    (h : onGrid? tie x k = some d) : d.readsAs x = true := by
  unfold onGrid? at h
  dsimp only at h
  split at h
  · rename_i hlow hhigh
    simp only [Option.some.injEq] at h
    subst h
    -- both neighbours read back, so it does not matter which one is nearer
    rcases nearer_eq tie _ _ _ with hn | hn
    · rw [hn]
      exact hlow
    · rw [hn]
      exact hhigh
  · rename_i hlow _
    simp only [Option.some.injEq] at h
    exact h ▸ hlow
  · rename_i _ hhigh
    simp only [Option.some.injEq] at h
    exact h ▸ hhigh
  · simp at h

theorem readsAs_searchDown (tie : Tie) {x : Float} (hfin : isFinite x = true) (h0 : units x ≠ 0)
    (n : Nat) : (searchDown tie x n).readsAs x = true := by
  induction n with
  | zero => exact readsAs_exact hfin h0
  | succ n ih =>
      rw [searchDown]
      split
      · rename_i hgrid
        exact readsAs_of_onGrid? hgrid
      · exact ih

/-- **The shortest decimal of a finite double reads back as it.** -/
theorem readsAs_shortest (tie : Tie) {x : Float} (hfin : isFinite x = true) :
    (shortest tie x).readsAs x = true := by
  unfold shortest
  by_cases h0 : units x = 0
  · rw [if_pos h0, readsAs, (units_eq_zero_iff x).mp h0]
    decide
  · rw [if_neg h0]
    exact readsAs_searchDown tie hfin h0 _

/-! ### Reading by the rule -/

/-- A decimal that reads back as a finite double other than zero is read by the rule: huge decimals
are infinite and tiny ones are zero. -/
theorem toFloat_eq_ofRatio {d : Decimal} {x : Float} (h : d.readsAs x = true)
    (hfin : isFinite x = true) (h0 : place x ≠ 0) :
    d.num ≠ 0 ∧ d.toFloat = ofRatio d.num d.den := by
  have hplace : place d.toFloat = place x := eq_of_beq h
  have hlt : place x < infinityPlace := of_decide_eq_true hfin
  have hzero : place 0.0 = 0 := by decide
  have hinf : place infinity = infinityPlace := place_ofBits (Nat.le_refl _)
  unfold toFloat at hplace ⊢
  split at hplace
  · omega
  · rename_i hcoef
    split at hplace
    · omega
    · rename_i hhuge
      split at hplace
      · omega
      · rename_i htiny
        rw [if_neg hcoef, if_neg hhuge, if_neg htiny]
        exact ⟨Nat.mul_ne_zero hcoef (Nat.ne_of_gt (Nat.pow_pos (by omega))), rfl⟩

/-- A whole number is read by the rule. -/
theorem toFloat_natural {n : Nat} (hn : n ≠ 0) : (⟨n, 0⟩ : Decimal).toFloat = ofRatio n 1 := by
  have htiny : (⟨n, 0⟩ : Decimal).isTiny = false := by
    rw [isTiny, decide_eq_false_iff_not]
    change ¬(0 : Int) < _
    omega
  have hnum : (⟨n, 0⟩ : Decimal).num = n := Nat.mul_one n
  rw [toFloat, if_neg hn, htiny, hnum]
  rfl

end Decimal

end ModelFormula
