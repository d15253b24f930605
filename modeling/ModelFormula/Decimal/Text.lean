import ModelFormula.Decimal.Shortest

/-!
# Decimals as text

Two layouts of a decimal, positional and with a power of ten, and the two texts of a double that
are built on them.

* `Decimal.positional` — every digit in its place: `1200`, `0.0012`;
* `Decimal.scientific` — one digit before the point: `1.2e+21`;
* `Double.text` — the text of a number in a formula: positional, never a power of ten;
* `Double.jsonText?` — the text of a number in a JSON document, which has none for a NaN or an
  infinity.
-/

set_option autoImplicit false

namespace ModelFormula

/-! ### Two layouts -/

/-- The decimal digits of a natural number. -/
def digits (n : Nat) : List Char := Nat.toDigits 10 n

namespace Decimal

/-- Exactly `width` digits of `n`, with zeros in front. -/
def padded (width n : Nat) : List Char :=
  List.replicate (width - (digits n).length) '0' ++ digits n

/-- Every digit in its place, with a point if there are places after it. -/
def positional (d : Decimal) : List Char :=
  let places := (-d.exponent).toNat
  if places = 0 then digits d.num
  else digits (d.coefficient / 10 ^ places) ++ '.' :: padded places (d.coefficient % 10 ^ places)

/-- The number of places before the point, negative if zeros follow the point. -/
def magnitude (d : Decimal) : Int := (digits d.coefficient).length + d.exponent

/-- One digit before the point and a signed power of ten. -/
def scientific (d : Decimal) : List Char :=
  let power := d.magnitude - 1
  let mantissa := match digits d.coefficient with
    | first :: second :: rest => first :: '.' :: second :: rest
    | single => single
  mantissa ++ 'e' :: (if power < 0 then '-' else '+') :: digits power.natAbs

end Decimal

/-! ### The text of a double -/

namespace Double

/-- The text of a number in a formula: the shortest digits that read back, all in their places.
Of two decimals equally near the larger is written. -/
def text (x : Float) : List Char :=
  let sign := if isNegative x then ['-'] else []
  if isFinite x then sign ++ (Decimal.shortest .up x).positional
  else if isInfinite x then sign ++ ['i', 'n', 'f']
  else ['N', 'a', 'N']

/-- The text of a number in a JSON document: at least one place after the point from `1e-5` up to
`1e16`, a power of ten elsewhere.  Of two decimals equally near the even one is written. -/
def jsonText? (x : Float) : Option (List Char) :=
  if isFinite x then
    let sign := if isNegative x then ['-'] else []
    let d := Decimal.shortest .even x
    let body :=
      if d.magnitude ≤ -5 ∨ 16 < d.magnitude then d.scientific
      else if d.exponent < 0 then d.positional
      else d.positional ++ ['.', '0']
    some (sign ++ body)
  else none

end Double

end ModelFormula
