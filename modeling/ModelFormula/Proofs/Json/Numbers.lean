import ModelFormula.Proofs.NumberText

/-!
# Numbers in JSON documents

The text of a finite number in a JSON document has one of three layouts, and each of them is read as
the number itself.  So distinct finite numbers have distinct texts, zero and minus zero included.

* `Decimal.take?_scientific`, `Decimal.toFloat_tenfold` — a power of ten, and a place after the
  point that is zero, change nothing;
* `Double.ofText?_of_jsonText?` — **the text of a number reads back as the number**;
* `Double.jsonText?_inj` — distinct finite numbers have distinct texts;
* `isNumeralChar` — the characters of such a text, none of which ends it.
-/

set_option autoImplicit false

namespace ModelFormula

/-! ### Fractions -/

namespace Double

theorem roundHalfEven_mul_mul {num den c : Nat} (hc : 0 < c) :
    roundHalfEven (num * c) (den * c) = roundHalfEven num den := by
  have hdiv : num * c / (den * c) = num / den := Nat.mul_div_mul_right _ _ hc
  have hmod : num * c % (den * c) = num % den * c := Nat.mul_mod_mul_right _ _ _
  have hbelow : 2 * (num % den * c) < den * c ↔ 2 * (num % den) < den := by
    rw [← Nat.mul_assoc]
    exact Nat.mul_lt_mul_right hc
  have habove : den * c < 2 * (num % den * c) ↔ den < 2 * (num % den) := by
    rw [← Nat.mul_assoc]
    exact Nat.mul_lt_mul_right hc
  simp only [roundHalfEven, hdiv, hmod, hbelow, habove]

/-- A fraction that is not reduced is rounded as the reduced one is. -/
theorem ofRatio_mul_mul {num den c : Nat} (hc : 0 < c) :
    ofRatio (num * c) (den * c) = ofRatio num den := by
  have hunits : num * c * 2 ^ 1074 = num * 2 ^ 1074 * c := Nat.mul_right_comm _ _ _
  have hdiv : num * 2 ^ 1074 * c / (den * c) = num * 2 ^ 1074 / den :=
    Nat.mul_div_mul_right _ _ hc
  have hden (k : Nat) : den * c * 2 ^ k = den * 2 ^ k * c := Nat.mul_right_comm _ _ _
  simp only [ofRatio, placeOfRatio, hunits, hdiv, hden, roundHalfEven_mul_mul hc]

end Double

/-! ### The three layouts -/

namespace Decimal

/-- A zero after the point changes nothing. -/
theorem toFloat_tenfold (n : Nat) :
    (⟨n * 10, -1⟩ : Decimal).toFloat = (⟨n, 0⟩ : Decimal).toFloat := by
  by_cases hn : n = 0
  · rw [hn, Nat.zero_mul, toFloat, if_pos rfl, toFloat, if_pos rfl]
  · have hcoef : (⟨n * 10, -1⟩ : Decimal).coefficient ≠ 0 := Nat.mul_ne_zero hn (by omega)
    have htiny : (⟨n * 10, -1⟩ : Decimal).isTiny = false := by
      rw [isTiny, decide_eq_false_iff_not]
      change ¬(-1 : Int) < _
      omega
    have hnum : (⟨n * 10, -1⟩ : Decimal).num = n * 10 := Nat.mul_one _
    have hden : (⟨n * 10, -1⟩ : Decimal).den = 1 * 10 := rfl
    rw [toFloat_natural hn, toFloat, if_neg hcoef, htiny, hnum, hden,
      Double.ofRatio_mul_mul (by omega)]
    rfl

/-- A decimal is read part by part: the digits before the point, those after it, the power. -/
theorem take?_of_parts {s whole fraction tail rest : List Char} {power : Int}
    (hwhole : s.takeWhile Char.isDigit = whole) (hne : whole ≠ [])
    (hfraction : takeFraction (s.dropWhile Char.isDigit) = (fraction, tail))
    (hpower : takePower? tail = some (power, rest)) :
    take? s = some (⟨ofDigits (whole ++ fraction), power - fraction.length⟩, rest) := by
  simp only [take?, hwhole, hfraction, hpower]
  rw [if_neg fun h => hne h.1]

/-- The digits of a whole number with a zero after the point are ten times the number, in
tenths. -/
theorem take?_whole (n : Nat) :
    take? (digits n ++ ['.', '0']) = some (⟨n * 10, -1⟩, []) := by
  obtain ⟨hwhole, htail⟩ := @takeWhile_append_of_stops Char.isDigit (digits n) ['.', '0']
    (fun _ => isDigit_of_mem_digits) (stops_cons _ rfl)
  have hfraction : takeFraction ((digits n ++ ['.', '0']).dropWhile Char.isDigit) =
      (['0'], []) := by
    rw [htail]
    rfl
  have hvalue : ofDigits (digits n ++ ['0']) = n * 10 := by
    rw [ofDigits_append, ofDigits_digits]
    rfl
  rw [take?_of_parts hwhole Nat.toDigits_ne_nil hfraction rfl, hvalue]
  rfl

/-- A power of ten with its sign is read as far as its digits go. -/
theorem takePower?_signed (power : Int) :
    takePower? ('e' :: (if power < 0 then '-' else '+') :: digits power.natAbs) =
      some (power, []) := by
  obtain ⟨hrun, htail⟩ := @takeWhile_append_of_stops Char.isDigit (digits power.natAbs) []
    (fun _ => isDigit_of_mem_digits) (fun _ _ h => nomatch h)
  rw [List.append_nil] at hrun htail
  have hne : digits power.natAbs ≠ [] := Nat.toDigits_ne_nil
  rw [takePower?, if_pos (Or.inl rfl)]
  by_cases hneg : power < 0
  · have habs : -(power.natAbs : Int) = power := by omega
    simp only [if_pos hneg, takeSign, hrun, htail, if_neg hne, ofDigits_digits, if_true, habs]
  · have habs : (power.natAbs : Int) = power := by omega
    simp only [if_neg hneg, takeSign, hrun, htail, if_neg hne, ofDigits_digits, habs]
    rfl

/-- A decimal with a power of ten is read as it stands. -/
theorem take?_scientific (d : Decimal) : take? d.scientific = some (d, []) := by
  have hpower := takePower?_signed (d.magnitude - 1)
  have hdigits : ∀ c ∈ digits d.coefficient, c.isDigit = true := fun _ => isDigit_of_mem_digits
  have hvalue := ofDigits_digits d.coefficient
  unfold scientific
  dsimp only
  -- the power of ten only matters through its value and through where the digits before it end
  generalize htail : 'e' :: (if d.magnitude - 1 < 0 then '-' else '+') ::
    digits (d.magnitude - 1).natAbs = tail at hpower ⊢
  have hstops : Stops Char.isDigit tail := htail ▸ stops_cons _ rfl
  split
  · rename_i first second rest hcoef
    rw [hcoef] at hdigits hvalue
    obtain ⟨hfirst, hrest⟩ := List.forall_mem_cons.mp hdigits
    obtain ⟨hwhole, hpoint⟩ := @takeWhile_append_of_stops Char.isDigit [first]
      ('.' :: (second :: rest ++ tail)) (List.forall_mem_singleton.mpr hfirst) (stops_cons _ rfl)
    obtain ⟨hrun, hafter⟩ := takeWhile_append_of_stops hrest hstops
    have hfraction : takeFraction (([first] ++ '.' :: (second :: rest ++ tail)).dropWhile
        Char.isDigit) = (second :: rest, tail) := by
      rw [hpoint, takeFraction, hrun, hafter]
    have hexponent : d.magnitude - 1 - ((second :: rest).length : Int) = d.exponent := by
      rw [magnitude, hcoef, List.length_cons]
      omega
    have htake := take?_of_parts hwhole (List.cons_ne_nil _ _) hfraction hpower
    have hvalue' : ofDigits ([first] ++ second :: rest) = d.coefficient := hvalue
    rw [hvalue', hexponent] at htake
    exact htake
  · rename_i hshort
    obtain ⟨c, hcoef⟩ : ∃ c, digits d.coefficient = [c] := by
      rcases hcoef : digits d.coefficient with _ | ⟨first, _ | ⟨second, rest⟩⟩
      · exact absurd hcoef Nat.toDigits_ne_nil
      · exact ⟨first, rfl⟩
      · exact absurd hcoef (hshort first second rest)
    obtain ⟨hwhole, hafter⟩ := takeWhile_append_of_stops hdigits hstops
    have hfraction : takeFraction ((digits d.coefficient ++ tail).dropWhile Char.isDigit) =
        ([], tail) := by
      rw [hafter, ← htail]
      rfl
    have hexponent : d.magnitude - 1 - (([] : List Char).length : Int) = d.exponent := by
      rw [magnitude, hcoef, List.length_singleton, List.length_nil]
      omega
    have htake := take?_of_parts hwhole Nat.toDigits_ne_nil hfraction hpower
    rw [List.append_nil, hvalue, hexponent] at htake
    exact htake

end Decimal

/-! ### The text of a number -/

/-- A character of a numeral. -/
def isNumeralChar (c : Char) : Bool :=
  c.isDigit || c == '.' || c == 'e' || c == '+' || c == '-'

theorem isNumeralChar_of_isDigit {c : Char} (h : c.isDigit = true) : isNumeralChar c = true := by
  rw [isNumeralChar, h]
  rfl

theorem isNumeralChar_of_mem_digits {n : Nat} : ∀ c ∈ digits n, isNumeralChar c = true :=
  fun _ hc => isNumeralChar_of_isDigit (isDigit_of_mem_digits hc)

namespace Decimal

theorem isNumeralChar_of_mem_positional (d : Decimal) :
    ∀ c ∈ d.positional, isNumeralChar c = true := by
  unfold positional
  dsimp only
  split
  · exact isNumeralChar_of_mem_digits
  · refine List.forall_mem_append.mpr ⟨isNumeralChar_of_mem_digits, ?_⟩
    refine List.forall_mem_cons.mpr ⟨rfl, ?_⟩
    exact fun c hc => isNumeralChar_of_isDigit (isDigit_of_mem_padded hc)

theorem isNumeralChar_of_mem_scientific (d : Decimal) :
    ∀ c ∈ d.scientific, isNumeralChar c = true := by
  have hdigits := isNumeralChar_of_mem_digits (n := d.coefficient)
  have hsign : isNumeralChar (if d.magnitude - 1 < 0 then '-' else '+') = true := by
    split <;> rfl
  unfold scientific
  dsimp only
  refine List.forall_mem_append.mpr ⟨?_, ?_⟩
  · split
    · rename_i first second rest hcoef
      rw [hcoef, List.forall_mem_cons] at hdigits
      exact List.forall_mem_cons.mpr ⟨hdigits.1, List.forall_mem_cons.mpr ⟨rfl, hdigits.2⟩⟩
    · exact hdigits
  · refine List.forall_mem_cons.mpr ⟨rfl, List.forall_mem_cons.mpr ⟨hsign, ?_⟩⟩
    exact isNumeralChar_of_mem_digits

/-- The text of a decimal begins with a digit, with a power of ten too. -/
theorem scientific_eq_cons (d : Decimal) : ∃ c s, d.scientific = c :: s ∧ c.isDigit = true := by
  have hdigits : ∀ c ∈ digits d.coefficient, c.isDigit = true := fun _ => isDigit_of_mem_digits
  unfold scientific
  dsimp only
  split
  · rename_i first second rest hcoef
    rw [hcoef] at hdigits
    exact ⟨first, _, rfl, hdigits first List.mem_cons_self⟩
  · obtain ⟨c, s, hcoef⟩ :=
      List.exists_cons_of_ne_nil (Nat.toDigits_ne_nil (n := d.coefficient) (b := 10))
    rw [digits, hcoef] at hdigits ⊢
    exact ⟨c, _, rfl, hdigits c List.mem_cons_self⟩

end Decimal

namespace Double

open Decimal

/-- The digits of a number in a JSON document, without its sign. -/
def jsonDigits (x : Float) : List Char :=
  let d := shortest .even x
  if d.magnitude ≤ -5 ∨ 16 < d.magnitude then d.scientific
  else if d.exponent < 0 then d.positional
  else d.positional ++ ['.', '0']

theorem jsonText?_of_isFinite {x : Float} (h : isFinite x = true) :
    jsonText? x = some ((if isNegative x then ['-'] else []) ++ jsonDigits x) := by
  rw [jsonText?, if_pos h]
  rfl

/-- Whatever the layout, the digits are read as the absolute value. -/
theorem take?_jsonDigits {x : Float} (h : isFinite x = true) :
    ∃ d, Decimal.take? (jsonDigits x) = some (d, []) ∧ d.toFloat = absolute x := by
  obtain ⟨hfloat, hwhole⟩ := toFloat_shortest .even h
  unfold jsonDigits
  dsimp only
  split
  · exact ⟨_, take?_scientific _, hfloat⟩
  · split
    · have hend : Delimited [] := trivial
      obtain ⟨d, hd, habsolute⟩ := Decimal.take?_shortest .even h hend
      rw [List.append_nil] at hd
      exact ⟨d, hd, habsolute⟩
    · rename_i hexponent
      have hplaces : (-(shortest .even x).exponent).toNat = 0 := by omega
      rw [positional, if_pos hplaces]
      exact ⟨_, take?_whole _, (toFloat_tenfold _).trans (hwhole hplaces)⟩

theorem jsonDigits_eq_cons (x : Float) : ∃ c s, jsonDigits x = c :: s ∧ c.isDigit = true := by
  unfold jsonDigits
  dsimp only
  split
  · exact scientific_eq_cons _
  · split
    · exact positional_eq_cons _
    · obtain ⟨c, s, hcons, hc⟩ := positional_eq_cons (shortest .even x)
      exact ⟨c, s ++ ['.', '0'], by rw [hcons, List.cons_append], hc⟩

theorem isNumeralChar_of_mem_jsonDigits (x : Float) :
    ∀ c ∈ jsonDigits x, isNumeralChar c = true := by
  unfold jsonDigits
  dsimp only
  split
  · exact isNumeralChar_of_mem_scientific _
  · split
    · exact isNumeralChar_of_mem_positional _
    · refine List.forall_mem_append.mpr ⟨isNumeralChar_of_mem_positional _, ?_⟩
      exact List.forall_mem_cons.mpr ⟨rfl, List.forall_mem_singleton.mpr rfl⟩

/-- **The text of a finite number reads back as the number.** -/
theorem ofText?_of_jsonText? {x : Float} (h : isFinite x = true) {s : List Char}
    (hs : jsonText? x = some s) : Numeral.ofText? s = some x := by
  have hle : place x ≤ infinityPlace := Nat.le_of_lt (of_decide_eq_true h)
  obtain ⟨d, hd, hfloat⟩ := take?_jsonDigits h
  obtain ⟨c, t, hcons, hc⟩ := jsonDigits_eq_cons x
  have hread : Numeral.take? (jsonDigits x) = some (absolute x, []) := by
    rw [hcons] at hd ⊢
    rw [Numeral.take?_of_isDigit hc, hd, Option.map_some, hfloat]
  rw [jsonText?_of_isFinite h, Option.some.injEq] at hs
  subst hs
  cases hneg : isNegative x with
  | false =>
      simp only [Numeral.ofText?, Bool.false_eq_true, if_false, List.nil_append, hread,
        absolute_eq_self hle hneg]
  | true =>
      -- behind the sign there is no other one, so what is read without a sign is negated
      have hunsigned : Numeral.unsigned? (jsonDigits x) = some (absolute x, []) := by
        have hsign : takeSign (jsonDigits x) = (false, jsonDigits x) := by
          rw [hcons]
          exact takeSign_eq_self (ne_of_apply hc rfl) (ne_of_apply hc rfl) t
        rw [Numeral.take?, hsign] at hread
        simpa using hread
      have hsigned : Numeral.take? ('-' :: jsonDigits x) = some (x, []) := by
        rw [Numeral.take?, takeSign]
        simp only [hunsigned, Option.map_some, if_true, neg_absolute hle hneg]
      simp only [Numeral.ofText?, if_true, List.singleton_append, hsigned]

/-- **Distinct finite numbers have distinct texts**, zero and minus zero included. -/
theorem jsonText?_inj {x y : Float} (hx : isFinite x = true) (hy : isFinite y = true) :
    jsonText? x = jsonText? y ↔ x = y := by
  constructor
  · intro h
    have htext := jsonText?_of_isFinite hx
    have hread := ofText?_of_jsonText? hx htext
    rw [ofText?_of_jsonText? hy (h ▸ htext), Option.some.injEq] at hread
    exact hread.symm
  · rintro rfl
    rfl

end Double

end ModelFormula
