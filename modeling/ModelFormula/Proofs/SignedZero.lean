import ModelFormula.Proofs.Double

/-!
# The two zeros

`0` and `-0` are equal as numbers, and no two other doubles are.  Which operations can tell them
apart is decided on numbers that are taken apart.

* `Double.SameNumber` — the same double, or two zeros;
* `Double.sameNumber_of_beq`, `Double.beq_or_isNaN` — **this is equality of numbers**, but for the
  NaN, which is equal to no number;
* `Double.eq_of_sameNumber` — equal numbers of one sign are one double;
* `Double.sameNumber_add`, `Double.sameNumber_sub`, `Double.sameNumber_mul`,
  `Double.sameNumber_neg`, `Double.sameNumber_sqrt`, `Double.sameNumber_abs` — **the operations that
  respect it.**

Division does not: `1 / 0` and `1 / -0` are the two infinities.
-/

set_option autoImplicit false

namespace ModelFormula

namespace Double

open Float.Model (Format UnpackedFloat)
open Float.Model.UnpackedFloat

/-! ### Numbers taken apart -/

/-- Two unpacked doubles are the same, or both are zeros. -/
def SameUnpacked (u v : UnpackedFloat) : Prop := u = v ∨ ∃ s t, u = .zero s ∧ v = .zero t

theorem sameUnpacked_zero (s t : Sign) : SameUnpacked (.zero s) (.zero t) := .inr ⟨s, t, rfl, rfl⟩

theorem SameUnpacked.trans {u v w : UnpackedFloat} (huv : SameUnpacked u v)
    (hvw : SameUnpacked v w) : SameUnpacked u w := by
  rcases huv with rfl | ⟨s, t, rfl, rfl⟩
  · exact hvw
  · rcases hvw with rfl | ⟨_, r, _, rfl⟩
    · exact sameUnpacked_zero s t
    · exact sameUnpacked_zero s r

/-- An operation respects the relation if it does for zeros on either side. -/
theorem sameUnpacked_of_zeros {op : UnpackedFloat → UnpackedFloat → UnpackedFloat}
    (hleft : ∀ s s' v, SameUnpacked (op (.zero s) v) (op (.zero s') v))
    (hright : ∀ u t t', SameUnpacked (op u (.zero t)) (op u (.zero t')))
    {u u' v v' : UnpackedFloat} (hu : SameUnpacked u u') (hv : SameUnpacked v v') :
    SameUnpacked (op u v) (op u' v') := by
  have hfirst : SameUnpacked (op u v) (op u' v) := by
    rcases hu with rfl | ⟨s, s', rfl, rfl⟩
    · exact .inl rfl
    · exact hleft s s' v
  have hsecond : SameUnpacked (op u' v) (op u' v') := by
    rcases hv with rfl | ⟨t, t', rfl, rfl⟩
    · exact .inl rfl
    · exact hright u' t t'
  exact hfirst.trans hsecond

variable {u u' v v' : UnpackedFloat}

theorem sameUnpacked_add (hu : SameUnpacked u u') (hv : SameUnpacked v v') :
    SameUnpacked (UnpackedFloat.add .binary64 u v) (UnpackedFloat.add .binary64 u' v') := by
  refine sameUnpacked_of_zeros ?_ ?_ hu hv
  · intro s s' v
    cases v with
    | zero t => cases s <;> cases s' <;> cases t <;> exact .inr ⟨_, _, rfl, rfl⟩
    | _ => exact .inl rfl
  · intro u t t'
    cases u with
    | zero s => cases s <;> cases t <;> cases t' <;> exact .inr ⟨_, _, rfl, rfl⟩
    | _ => exact .inl rfl

theorem sameUnpacked_mul (hu : SameUnpacked u u') (hv : SameUnpacked v v') :
    SameUnpacked (UnpackedFloat.mul .binary64 u v) (UnpackedFloat.mul .binary64 u' v') := by
  refine sameUnpacked_of_zeros ?_ ?_ hu hv
  · intro s s' v
    cases v with
    | notANumber => exact .inl rfl
    | infinity t => exact .inl rfl
    | zero t => exact sameUnpacked_zero (s * t) (s' * t)
    | finite t m e hm => exact sameUnpacked_zero (s * t) (s' * t)
  · intro u t t'
    cases u with
    | notANumber => exact .inl rfl
    | infinity s => exact .inl rfl
    | zero s => exact sameUnpacked_zero (s * t) (s * t')
    | finite s m e hm => exact sameUnpacked_zero (s * t) (s * t')

theorem sameUnpacked_neg (h : SameUnpacked u u') : SameUnpacked u.neg u'.neg := by
  rcases h with rfl | ⟨s, s', rfl, rfl⟩
  · exact .inl rfl
  · exact sameUnpacked_zero (-s) (-s')

theorem sign_apply_neg (s : Sign) (n : Int) : (-s).apply n = -s.apply n := by
  cases s with
  | positive => rfl
  | negative => exact (Int.neg_neg n).symm

/-- A difference is a sum with the negative. -/
theorem unpacked_sub_eq_add (u v : UnpackedFloat) :
    UnpackedFloat.sub .binary64 u v = UnpackedFloat.add .binary64 u v.neg := by
  cases u with
  | finite s m e hm =>
      cases v with
      | finite t m' e' hm' =>
          simp only [UnpackedFloat.sub, UnpackedFloat.add, UnpackedFloat.neg, sign_apply_neg,
            Int.sub_eq_add_neg]
      | _ => rfl
  | _ => cases v <;> rfl

theorem sameUnpacked_sub (hu : SameUnpacked u u') (hv : SameUnpacked v v') :
    SameUnpacked (UnpackedFloat.sub .binary64 u v) (UnpackedFloat.sub .binary64 u' v') := by
  rw [unpacked_sub_eq_add, unpacked_sub_eq_add]
  exact sameUnpacked_add hu (sameUnpacked_neg hv)

theorem sameUnpacked_sqrt (h : SameUnpacked u u') :
    SameUnpacked (UnpackedFloat.sqrt .binary64 u) (UnpackedFloat.sqrt .binary64 u') := by
  rcases h with rfl | ⟨s, s', rfl, rfl⟩
  · exact .inl rfl
  · exact sameUnpacked_zero s s'

theorem sameUnpacked_abs (h : SameUnpacked u u') : SameUnpacked u.abs u'.abs := by
  rcases h with rfl | ⟨s, s', rfl, rfl⟩
  · exact .inl rfl
  · exact .inl rfl

/-- What compares as equal is the same, or two zeros. -/
theorem sameUnpacked_of_compare (h : u.compare v = some .eq) : SameUnpacked u v := by
  cases u with
  | notANumber => cases h
  | infinity s =>
      cases v with
      | infinity t => cases s <;> cases t <;> first | exact .inl rfl | cases h
      | _ => cases s <;> cases h
  | zero s =>
      cases v with
      | notANumber => cases h
      | infinity t => cases t <;> cases h
      | zero t => exact sameUnpacked_zero s t
      | finite t m e hm => cases t <;> cases h
  | finite s m e hm =>
      cases v with
      | notANumber => cases s <;> cases h
      | infinity t => cases s <;> cases t <;> cases h
      | zero t => cases s <;> cases h
      | finite t m' e' hm' =>
          have hparts : s = t ∧ e = e' ∧ m = m' := by
            cases s <;> cases t <;> simp_all [UnpackedFloat.compare, Ordering.then_eq_eq]
          obtain ⟨rfl, rfl, rfl⟩ := hparts
          exact .inl rfl

/-! ### Doubles -/

/-- Two doubles are one double, or the two zeros. -/
def SameNumber (x y : Float) : Prop := SameUnpacked x.toModel.unpack y.toModel.unpack

theorem sameNumber_refl (x : Float) : SameNumber x x := .inl rfl

theorem sameNumber_pack (h : SameUnpacked u v) :
    SameNumber (.ofModel (.pack u)) (.ofModel (.pack v)) := by
  rcases h with rfl | ⟨s, t, rfl, rfl⟩
  · exact .inl rfl
  · cases s <;> cases t <;> exact .inr ⟨_, _, rfl, rfl⟩

variable {x x' y y' : Float}

theorem sameNumber_add (hx : SameNumber x x') (hy : SameNumber y y') :
    SameNumber (x + y) (x' + y') :=
  sameNumber_pack (sameUnpacked_add hx hy)

theorem sameNumber_sub (hx : SameNumber x x') (hy : SameNumber y y') :
    SameNumber (x - y) (x' - y') :=
  sameNumber_pack (sameUnpacked_sub hx hy)

theorem sameNumber_mul (hx : SameNumber x x') (hy : SameNumber y y') :
    SameNumber (x * y) (x' * y') :=
  sameNumber_pack (sameUnpacked_mul hx hy)

theorem sameNumber_neg (hx : SameNumber x x') : SameNumber (-x) (-x') :=
  sameNumber_pack (sameUnpacked_neg hx)

theorem sameNumber_sqrt (hx : SameNumber x x') : SameNumber x.sqrt x'.sqrt :=
  sameNumber_pack (sameUnpacked_sqrt hx)

theorem sameNumber_abs (hx : SameNumber x x') : SameNumber x.abs x'.abs :=
  sameNumber_pack (sameUnpacked_abs hx)

theorem pack_unpack_toModel (x : Float) : Float.ofModel (.pack x.toModel.unpack) = x :=
  ofBits_toBits x

/-- Numbers that are equal are one double or the two zeros. -/
theorem sameNumber_of_beq (h : (x == y) = true) : SameNumber x y := by
  change (x.toModel.unpack.compare y.toModel.unpack == some .eq) = true at h
  exact sameUnpacked_of_compare (beq_iff_eq.mp h)

/-- One double, or the two zeros, are equal numbers or the NaN. -/
theorem beq_or_isNaN (h : SameNumber x y) :
    (x == y) = true ∨ x.isNaN = true ∧ y.isNaN = true := by
  change (x.toModel.unpack.compare y.toModel.unpack == some .eq) = true ∨
    x.toModel.unpack.isNaN = true ∧ y.toModel.unpack.isNaN = true
  rcases h with h | ⟨s, t, hs, ht⟩
  · rw [← h]
    by_cases hx : x.toModel.unpack = .notANumber
    · rw [hx]
      exact .inr ⟨rfl, rfl⟩
    · rw [compare_self hx]
      exact .inl rfl
  · rw [hs, ht]
    exact .inl rfl

/-- Of the two zeros one is negative and one is not, so equal numbers of one sign are one double. -/
theorem eq_of_sameNumber (h : SameNumber x y) (hsign : isNegative x = isNegative y) : x = y := by
  rw [← pack_unpack_toModel x, ← pack_unpack_toModel y] at hsign ⊢
  rcases h with h | ⟨s, t, hs, ht⟩
  · rw [h]
  · rw [hs, ht] at hsign ⊢
    cases s <;> cases t <;> first | rfl | cases hsign

end Double

end ModelFormula
