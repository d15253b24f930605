import ModelFormula.Decimal.Numeral
import ModelFormula.Decimal.Text
import ModelFormula.Proofs.Shortest

/-!
# The text of a number reads back

The text of a finite double is an optional minus and the digits of its shortest decimal, and a
reader takes those digits off the front of a longer text without reading on.

* `Stops` — where a run of characters ends;
* `Delimited` — what follows an operand in a printed text;
* `Decimal.take?_positional` — the digits of a decimal read back as a decimal of the same value;
* `Numeral.take?_shortest` — **the digits of the shortest decimal of a finite double read back as
  its absolute value**, whatever delimited text follows them.
-/

set_option autoImplicit false

namespace ModelFormula

/-! ### Runs of characters -/

/-- No character with the property `p` at the start of a text. -/
def Stops (p : Char → Bool) (s : List Char) : Prop := ∀ c t, s = c :: t → p c = false

theorem stops_cons {p : Char → Bool} {c : Char} (s : List Char) (h : p c = false) :
    Stops p (c :: s) := by
  intro d t hd
  cases hd
  exact h

/-- A run is taken as far as it goes, and no further. -/
theorem takeWhile_append_of_stops {p : Char → Bool} {run rest : List Char}
    (hrun : ∀ c ∈ run, p c = true) (hrest : Stops p rest) :
    (run ++ rest).takeWhile p = run ∧ (run ++ rest).dropWhile p = rest := by
  have hnone : rest.takeWhile p = [] ∧ rest.dropWhile p = rest := by
    cases rest with
    | nil => exact ⟨rfl, rfl⟩
    | cons c t =>
        have hc := hrest c t rfl
        simp [hc]
  rw [List.takeWhile_append_of_pos hrun, List.dropWhile_append_of_pos hrun, hnone.1, hnone.2,
    List.append_nil]
  exact ⟨rfl, rfl⟩

/-- A character with a property is none without it. -/
theorem ne_of_apply {p : Char → Bool} {c d : Char} (hc : p c = true) (hd : p d = false) :
    c ≠ d := by
  rintro rfl
  rw [hc] at hd
  cases hd

/-- What follows an operand in a printed text: nothing, a space, a comma or a closing
parenthesis. -/
def Delimited : List Char → Prop
  | [] => True
  | c :: _ => c = ' ' ∨ c = ',' ∨ c = ')'

/-- A character that is no delimiter does not stand at the start of a delimited text. -/
theorem Delimited.stops {p : Char → Bool} {s : List Char} (h : Delimited s)
    (hp : p ' ' = false ∧ p ',' = false ∧ p ')' = false) : Stops p s := by
  intro c t hs
  subst hs
  rcases h with rfl | rfl | rfl
  · exact hp.1
  · exact hp.2.1
  · exact hp.2.2

/-! ### Signs and digits -/

theorem takeSign_eq_self {c : Char} (hplus : c ≠ '+') (hminus : c ≠ '-') (s : List Char) :
    takeSign (c :: s) = (false, c :: s) := by
  unfold takeSign
  split
  · rename_i heq
    exact absurd (List.cons.inj heq).1 hplus
  · rename_i heq
    exact absurd (List.cons.inj heq).1 hminus
  · rfl

theorem isDigit_of_mem_digits {n : Nat} {c : Char} (h : c ∈ digits n) : c.isDigit = true :=
  Nat.isDigit_of_mem_toDigits (by omega) (by omega) h

@[simp] theorem ofDigits_digits (n : Nat) : ofDigits (digits n) = n :=
  Nat.ofDigitChars_ten_toDigits

theorem ofDigits_append (ds es : List Char) :
    ofDigits (ds ++ es) = ofDigits ds * 10 ^ es.length + ofDigits es := by
  unfold ofDigits
  rw [Nat.ofDigitChars_append, Nat.ofDigitChars_eq_ofDigitChars_zero, Nat.mul_comm]

namespace Decimal

theorem isDigit_of_mem_padded {width n : Nat} {c : Char} (h : c ∈ padded width n) :
    c.isDigit = true := by
  rcases List.mem_append.mp h with h | h
  · rw [List.eq_of_mem_replicate h]
    decide
  · exact isDigit_of_mem_digits h

theorem length_padded {width n : Nat} (hwidth : 0 < width) (hn : n < 10 ^ width) :
    (padded width n).length = width := by
  have hlen : (digits n).length ≤ width :=
    (Nat.length_toDigits_le_iff (by omega) hwidth).mpr hn
  rw [padded, List.length_append, List.length_replicate]
  omega

theorem ofDigits_padded (width n : Nat) : ofDigits (padded width n) = n := by
  rw [padded, ofDigits_append, ofDigits_digits, ofDigits, Nat.ofDigitChars_replicate_zero,
    Nat.mul_zero, Nat.zero_mul, Nat.zero_add]

/-- The text of a decimal begins with a digit. -/
theorem positional_eq_cons (d : Decimal) : ∃ c s, d.positional = c :: s ∧ c.isDigit = true := by
  have hcons (n : Nat) : ∃ c s, digits n = c :: s ∧ c.isDigit = true := by
    obtain ⟨c, s, h⟩ := List.exists_cons_of_ne_nil (Nat.toDigits_ne_nil (n := n) (b := 10))
    exact ⟨c, s, h, isDigit_of_mem_digits (h ▸ List.mem_cons_self)⟩
  unfold positional
  dsimp only
  split
  · exact hcons _
  · obtain ⟨c, s, h, hc⟩ := hcons (d.coefficient / 10 ^ (-d.exponent).toNat)
    rw [h]
    exact ⟨c, _, rfl, hc⟩

/-! ### Decimals -/

theorem takePower?_of_digits {ds rest : List Char} (hne : ds ≠ [])
    (hds : ∀ c ∈ ds, c.isDigit = true) (hrest : Stops Char.isDigit rest) :
    takePower? ('e' :: (ds ++ rest)) = some ((ofDigits ds : Int), rest) := by
  obtain ⟨hrun, htail⟩ := takeWhile_append_of_stops hds hrest
  obtain ⟨d, ds, rfl⟩ := List.exists_cons_of_ne_nil hne
  have hd := hds d List.mem_cons_self
  have hsign : takeSign (d :: ds ++ rest) = (false, d :: ds ++ rest) :=
    takeSign_eq_self (ne_of_apply hd rfl) (ne_of_apply hd rfl) _
  rw [takePower?, if_pos (Or.inl rfl)]
  simp only [hsign, hrun, htail]
  rfl

theorem takePower?_of_delimited {s : List Char} (h : Delimited s) :
    takePower? s = some (0, s) := by
  cases s with
  | nil => rfl
  | cons c s =>
      have hc : ¬(c = 'e' ∨ c = 'E') := by
        rcases h with rfl | rfl | rfl <;> decide
      rw [takePower?, if_neg hc]

theorem takeFraction_of_delimited {s : List Char} (h : Delimited s) :
    takeFraction s = ([], s) := by
  cases s with
  | nil => rfl
  | cons c s => rcases h with rfl | rfl | rfl <;> rfl

/-- The digits of a decimal read back as a decimal of the same value. -/
theorem take?_positional (d : Decimal) {rest : List Char} (h : Delimited rest) :
    take? (d.positional ++ rest) =
      some (if (-d.exponent).toNat = 0 then ⟨d.num, 0⟩ else d, rest) := by
  have hrest : Stops Char.isDigit rest := h.stops (by decide)
  unfold positional
  dsimp only
  by_cases hplaces : (-d.exponent).toNat = 0
  · rw [if_pos hplaces, if_pos hplaces]
    obtain ⟨hwhole, htail⟩ :=
      takeWhile_append_of_stops (fun c => isDigit_of_mem_digits (n := d.num)) hrest
    have hne : digits d.num ≠ [] := Nat.toDigits_ne_nil
    simp only [take?, hwhole, htail, takeFraction_of_delimited h, takePower?_of_delimited h]
    simp [hne]
  · rw [if_neg hplaces, if_neg hplaces]
    -- the digits on both sides of the point are only ever used through their number
    generalize hp : (-d.exponent).toNat = places at *
    generalize hq : d.coefficient / 10 ^ places = q
    have hr : d.coefficient % 10 ^ places < 10 ^ places := Nat.mod_lt _ (Nat.pow_pos (by omega))
    have hcoef : q * 10 ^ places + d.coefficient % 10 ^ places = d.coefficient := by
      rw [← hq, Nat.mul_comm]
      exact Nat.div_add_mod _ _
    generalize d.coefficient % 10 ^ places = r at hr hcoef
    obtain ⟨hwhole, htail⟩ := @takeWhile_append_of_stops Char.isDigit (digits q)
      ('.' :: padded places r ++ rest) (fun _ => isDigit_of_mem_digits) (stops_cons _ (by decide))
    obtain ⟨hfrac, hafter⟩ := @takeWhile_append_of_stops Char.isDigit (padded places r) rest
      (fun _ => isDigit_of_mem_padded) hrest
    have hne : digits q ≠ [] := Nat.toDigits_ne_nil
    have hlen := length_padded (Nat.pos_of_ne_zero hplaces) hr
    have hexp : (0 : Int) - places = d.exponent := by omega
    rw [List.append_assoc]
    simp only [take?, hwhole, htail]
    simp only [takeFraction, List.cons_append, hfrac, hafter, takePower?_of_delimited h]
    simp [hne, ofDigits_append, ofDigits_padded, hlen, hcoef, hexp]

open Double in
/-- The shortest decimal of a finite double is read as its absolute value, and so is the whole
number that it stands for if it has no places after the point. -/
theorem toFloat_shortest (tie : Tie) {x : Float} (hfin : isFinite x = true) :
    (shortest tie x).toFloat = absolute x ∧
      ((-(shortest tie x).exponent).toNat = 0 →
        (⟨(shortest tie x).num, 0⟩ : Decimal).toFloat = absolute x) := by
  by_cases h0 : place x = 0
  · have hzero : shortest tie x = ⟨0, 0⟩ := by
      rw [shortest, if_pos ((units_eq_zero_iff x).mpr h0)]
    rw [hzero, absolute, h0]
    decide
  · obtain ⟨hnum, hrule⟩ := toFloat_eq_ofRatio (readsAs_shortest tie hfin) hfin h0
    have hplace : place (shortest tie x).toFloat = place x :=
      eq_of_beq (readsAs_shortest tie hfin)
    have habsolute : (shortest tie x).toFloat = absolute x := by
      rw [hrule, ofRatio, place_ofBits (placeOfRatio_le _ _)] at hplace
      rw [hrule, ofRatio, hplace, absolute]
    refine ⟨habsolute, fun hplaces => ?_⟩
    -- without places after the point, the denominator is one
    have hden : (shortest tie x).den = 1 := by rw [den, hplaces, Nat.pow_zero]
    rw [toFloat_natural hnum, ← habsolute, hrule, hden]

/-- The digits of the shortest decimal of a finite double are read as its absolute value. -/
theorem take?_shortest (tie : Tie) {x : Float} (hfin : Double.isFinite x = true) {rest : List Char}
    (h : Delimited rest) :
    ∃ d, take? ((shortest tie x).positional ++ rest) = some (d, rest) ∧
      d.toFloat = Double.absolute x := by
  obtain ⟨hfloat, hwhole⟩ := toFloat_shortest tie hfin
  refine ⟨_, take?_positional _ h, ?_⟩
  split
  · rename_i hplaces
    exact hwhole hplaces
  · exact hfloat

end Decimal

/-! ### Numerals -/

namespace Numeral

theorem toLower_of_isDigit {c : Char} (h : c.isDigit = true) : c.toLower = c := by
  simp only [Char.isDigit, Bool.and_eq_true, decide_eq_true_eq, ge_iff_le,
    UInt32.le_iff_toNat_le] at h
  have h9 : ('9' : Char).val.toNat = 57 := rfl
  have hA : ('A' : Char).val.toNat = 65 := rfl
  rw [Char.toLower, dif_neg]
  simp only [ge_iff_le, UInt32.le_iff_toNat_le]
  omega

/-- Where a digit stands, there is no sign and no name. -/
theorem take?_of_isDigit {c : Char} (h : c.isDigit = true) (s : List Char) :
    take? (c :: s) = (Decimal.take? (c :: s)).map fun p => (p.1.toFloat, p.2) := by
  have hsign : takeSign (c :: s) = (false, c :: s) :=
    takeSign_eq_self (ne_of_apply h rfl) (ne_of_apply h rfl) s
  have hi : c.toLower ≠ 'i' := by
    rw [toLower_of_isDigit h]
    exact ne_of_apply h rfl
  have hn : c.toLower ≠ 'n' := by
    rw [toLower_of_isDigit h]
    exact ne_of_apply h rfl
  have hunsigned : unsigned? (c :: s) =
      (Decimal.take? (c :: s)).map fun p => (p.1.toFloat, p.2) := by
    simp [unsigned?, names, dropName?, hi, hn]
  rw [take?, hsign, hunsigned]
  simp [Function.comp_def]

/-- **The digits of the shortest decimal of a finite double read back as its absolute value.** -/
theorem take?_shortest {x : Float} (hfin : Double.isFinite x = true) {rest : List Char}
    (h : Delimited rest) :
    take? ((Decimal.shortest .up x).positional ++ rest) = some (Double.absolute x, rest) := by
  obtain ⟨c, s, hcons, hc⟩ := (Decimal.shortest .up x).positional_eq_cons
  obtain ⟨d, hd, hfloat⟩ := Decimal.take?_shortest .up hfin h
  rw [hcons, List.cons_append] at hd ⊢
  rw [take?_of_isDigit hc, hd, Option.map_some, hfloat]

/-- A power of ten beyond the largest double is read as infinity. -/
theorem take?_overflow {rest : List Char} (h : Delimited rest) :
    take? ('1' :: 'e' :: (['9', '9', '9'] ++ rest)) = some (Double.infinity, rest) := by
  have hpower : Decimal.takePower? ('e' :: (['9', '9', '9'] ++ rest)) = some (999, rest) :=
    Decimal.takePower?_of_digits (by simp) (List.all_eq_true.mp rfl) (h.stops (by decide))
  have hfraction : Decimal.takeFraction (('1' :: 'e' :: (['9', '9', '9'] ++ rest)).dropWhile
      Char.isDigit) = ([], 'e' :: (['9', '9', '9'] ++ rest)) := rfl
  have hdecimal : Decimal.take? ('1' :: 'e' :: (['9', '9', '9'] ++ rest)) =
      some (⟨1, 999⟩, rest) := by
    simp only [Decimal.take?, hfraction, hpower]
    rfl
  rw [take?_of_isDigit rfl, hdecimal]
  rfl

end Numeral

end ModelFormula
