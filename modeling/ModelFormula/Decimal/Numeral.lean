import ModelFormula.Decimal.Basic

/-!
# Numerals

A numeral is an optional sign followed by digits with an optional point and an optional power of
ten, or by one of the names `inf`, `infinity` and `nan` in any letter case.  A reader takes the
longest numeral off the front of a text; an `e` after the digits must be followed by a power of
ten, else there is no numeral at all.

* `Decimal.take?` — digits, point and power of ten;
* `Numeral.take?` — a numeral and what follows it;
* `Numeral.ofText?` — the numeral that a whole text is;
* `Numeral.length_lt_of_take?` — **a numeral is never empty.**
-/

set_option autoImplicit false

namespace ModelFormula

/-! ### Digits and powers of ten -/

/-- The number that a row of decimal digits denotes. -/
def ofDigits (ds : List Char) : Nat := Nat.ofDigitChars 10 ds 0

/-- An optional sign, told as whether it is a minus, and what follows it. -/
def takeSign : List Char → Bool × List Char
  | '+' :: s => (false, s)
  | '-' :: s => (true, s)
  | s => (false, s)

theorem length_takeSign_le (s : List Char) : (takeSign s).2.length ≤ s.length := by
  unfold takeSign; split <;> simp

theorem length_dropWhile_le {α : Type} (p : α → Bool) (s : List α) :
    (s.dropWhile p).length ≤ s.length :=
  (List.dropWhile_suffix p).length_le

/-- A dropped run is shorter than the text if it is not empty. -/
theorem length_dropWhile_lt {α : Type} (p : α → Bool) {s : List α} (h : s.takeWhile p ≠ []) :
    (s.dropWhile p).length < s.length := by
  have hsplit : s.takeWhile p ++ s.dropWhile p = s := List.takeWhile_append_dropWhile
  have hlen := congrArg List.length hsplit
  have hpos := List.length_pos_iff.mpr h
  rw [List.length_append] at hlen
  omega

namespace Decimal

/-- The point and the digits after it, if there is a point: the digits and what follows. -/
def takeFraction : List Char → List Char × List Char
  | '.' :: s => (s.takeWhile Char.isDigit, s.dropWhile Char.isDigit)
  | s => ([], s)

/-- The power of ten after the digits, zero if there is none, and what follows it. -/
def takePower? : List Char → Option (Int × List Char)
  | [] => some (0, [])
  | c :: s =>
    if c = 'e' ∨ c = 'E' then
      let signed := takeSign s
      let ds := signed.2.takeWhile Char.isDigit
      -- the mark of a power without digits leaves no numeral, not a shorter one
      if ds = [] then none
      else
        let power : Int := if signed.1 then -(ofDigits ds : Int) else ofDigits ds
        some (power, signed.2.dropWhile Char.isDigit)
    else some (0, c :: s)

/-- A decimal without a sign, and what follows it. -/
def take? (s : List Char) : Option (Decimal × List Char) :=
  let whole := s.takeWhile Char.isDigit
  let fraction := takeFraction (s.dropWhile Char.isDigit)
  if whole = [] ∧ fraction.1 = [] then none
  else match takePower? fraction.2 with
    | none => none
    | some (power, rest) =>
      some (⟨ofDigits (whole ++ fraction.1), power - fraction.1.length⟩, rest)

theorem length_takeFraction_le (s : List Char) : (takeFraction s).2.length ≤ s.length := by
  unfold takeFraction
  split
  · exact Nat.le_succ_of_le (length_dropWhile_le _ _)
  · exact Nat.le_refl _

theorem length_takeFraction_lt {s : List Char} (h : (takeFraction s).1 ≠ []) :
    (takeFraction s).2.length < s.length := by
  unfold takeFraction at h ⊢
  split
  · exact Nat.lt_succ_of_le (length_dropWhile_le _ _)
  · simp at h

theorem length_le_of_takePower? {s rest : List Char} {k : Int}
    (h : takePower? s = some (k, rest)) : rest.length ≤ s.length := by
  unfold takePower? at h
  split at h
  · simp_all
  · split at h
    · rename_i s _
      simp only at h
      split at h
      · simp at h
      · simp only [Option.some.injEq, Prod.mk.injEq] at h
        have := length_takeSign_le s
        have := length_dropWhile_le Char.isDigit (takeSign s).2
        rw [← h.2, List.length_cons]
        omega
    · simp_all

theorem length_lt_of_take? {s rest : List Char} {d : Decimal} (h : take? s = some (d, rest)) :
    rest.length < s.length := by
  simp only [take?] at h
  split at h
  · simp at h
  · rename_i hsome
    split at h
    · simp at h
    · rename_i power rest' hpower
      simp only [Option.some.injEq, Prod.mk.injEq] at h
      have hle := length_le_of_takePower? hpower
      rw [← h.2]
      by_cases hw : s.takeWhile Char.isDigit = []
      · have := length_takeFraction_lt fun hf => hsome ⟨hw, hf⟩
        have := length_dropWhile_le Char.isDigit s
        omega
      · have := length_takeFraction_le (s.dropWhile Char.isDigit)
        have := length_dropWhile_lt Char.isDigit hw
        omega

end Decimal

/-! ### Numerals -/

namespace Numeral

/-- What follows a name, given in small letters, at the front of a text in any letter case. -/
def dropName? : List Char → List Char → Option (List Char)
  | [], s => some s
  | _ :: _, [] => none
  | c :: name, d :: s => if d.toLower = c then dropName? name s else none

/-- The numbers that are written as a name, a longer name before its beginnings. -/
def names : List (List Char × Float) :=
  [(['i', 'n', 'f', 'i', 'n', 'i', 't', 'y'], Double.infinity), (['i', 'n', 'f'], Double.infinity),
    (['n', 'a', 'n'], Double.nan)]

/-- A numeral without a sign, and what follows it. -/
def unsigned? (s : List Char) : Option (Float × List Char) :=
  match names.findSome? fun n => (dropName? n.1 s).map fun rest => (n.2, rest) with
  | some found => some found
  | none => (Decimal.take? s).map fun p => (p.1.toFloat, p.2)

/-- The longest numeral at the front of a text, and what follows it. -/
def take? (s : List Char) : Option (Float × List Char) :=
  (unsigned? (takeSign s).2).map fun p => (if (takeSign s).1 then -p.1 else p.1, p.2)

/-- The number that a whole text denotes. -/
def ofText? (s : List Char) : Option Float :=
  match take? s with
  | some (x, []) => some x
  | _ => none

theorem length_of_dropName? {name s rest : List Char} (h : dropName? name s = some rest) :
    rest.length + name.length = s.length := by
  induction name generalizing s with
  | nil => simp_all [dropName?]
  | cons c name ih =>
      cases s with
      | nil => simp [dropName?] at h
      | cons d s =>
          simp only [dropName?] at h
          split at h
          · have := ih h
            simp only [List.length_cons]
            omega
          · simp at h

theorem length_lt_of_unsigned? {s rest : List Char} {x : Float}
    (h : unsigned? s = some (x, rest)) : rest.length < s.length := by
  unfold unsigned? at h
  split at h
  · rename_i found hfound
    obtain ⟨n, hn, hmap⟩ := List.exists_of_findSome?_eq_some hfound
    obtain ⟨r, hr, hrest⟩ := Option.map_eq_some_iff.mp hmap
    have hlen := length_of_dropName? hr
    have hpos : 0 < n.1.length := by
      simp only [names, List.mem_cons, List.not_mem_nil, or_false] at hn
      rcases hn with rfl | rfl | rfl <;> simp
    simp only [Option.some.injEq] at h
    rw [← hrest, Prod.mk.injEq] at h
    rw [← h.2]
    omega
  · obtain ⟨p, hp, hrest⟩ := Option.map_eq_some_iff.mp h
    rw [Prod.mk.injEq] at hrest
    rw [← hrest.2]
    exact Decimal.length_lt_of_take? hp

/-- **A numeral is never empty.** -/
theorem length_lt_of_take? {s rest : List Char} {x : Float} (h : take? s = some (x, rest)) :
    rest.length < s.length := by
  obtain ⟨p, hp, hrest⟩ := Option.map_eq_some_iff.mp h
  rw [Prod.mk.injEq] at hrest
  have := length_lt_of_unsigned? hp
  have := length_takeSign_le s
  rw [← hrest.2]
  omega

end Numeral

end ModelFormula
