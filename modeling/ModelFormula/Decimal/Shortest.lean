import ModelFormula.Decimal.Basic

/-!
# The shortest decimal of a double

A finite double is a whole number of units of `2 ^ (-1074)`.  Its shortest decimal is found on the
coarsest grid of multiples of a power of ten that has a point reading back as the double: the grids
are tried from coarse to fine, and on each one only the two neighbours of the value matter.

* `Double.units` — the value of a finite double, counted in units of the least one;
* `Decimal.onGrid?` — the point of one grid that reads back, the nearer one if both neighbours do;
* `Decimal.shortest` — **the fewest digits that read back**, and among those the nearest.

The search ends: on the grid of multiples of `10 ^ (-1074)` the value itself is a point.
-/

set_option autoImplicit false

namespace ModelFormula

/-! ### Taking a double apart -/

namespace Double

/-- The place of the absolute value of `x` among the nonnegative doubles. -/
def place (x : Float) : Nat := x.toBits.toNat % 2 ^ 63

/-- Whether the sign bit of `x` is set, as it is for `-0`. -/
def isNegative (x : Float) : Bool := decide (2 ^ 63 ≤ x.toBits.toNat)

/-- Neither infinite nor a NaN. -/
def isFinite (x : Float) : Bool := decide (place x < infinityPlace)

/-- Either of the two infinities. -/
def isInfinite (x : Float) : Bool := decide (place x = infinityPlace)

/-- The absolute value of a finite double in units of `2 ^ (-1074)`.  In the first binade the place
is the count; from the second on, each binade doubles the step. -/
def units (x : Float) : Nat :=
  let binade := place x / 2 ^ 52
  let within := place x % 2 ^ 52
  if binade = 0 then within else (2 ^ 52 + within) * 2 ^ (binade - 1)

end Double

/-! ### Searching the grids -/

/-- Which of two equally near points is taken. -/
inductive Tie where
  | up
  | even
  deriving DecidableEq, Repr

namespace Decimal

/-- Whether a decimal reads back as the absolute value of `x`. -/
def readsAs (d : Decimal) (x : Float) : Bool := Double.place d.toFloat == Double.place x

/-- The nearer of the two neighbours `low` and `low + 1` of `low + rest / den`. -/
def nearer (tie : Tie) (low rest den : Nat) : Nat :=
  if 2 * rest < den then low
  else if den < 2 * rest then low + 1
  else match tie with
    | .up => low + 1
    | .even => low + low % 2

/-- The neighbour of `x` on the grid of multiples of `10 ^ k` that reads back as `x`. -/
def onGrid? (tie : Tie) (x : Float) (k : Int) : Option Decimal :=
  let num := Double.units x * 10 ^ (-k).toNat
  let den := 2 ^ 1074 * 10 ^ k.toNat
  -- if any point of the grid reads back, one of the two neighbours does
  let low : Decimal := ⟨num / den, k⟩
  let high : Decimal := ⟨num / den + 1, k⟩
  match low.readsAs x, high.readsAs x with
  | true, true => some ⟨nearer tie (num / den) (num % den) den, k⟩
  | true, false => some low
  | false, true => some high
  | false, false => none

/-- The exact value of a finite double, a point of the finest grid. -/
def exact (x : Float) : Decimal := ⟨Double.units x * 5 ^ 1074, -1074⟩

/-- The first of the grids `10 ^ (n - 1074), 10 ^ (n - 1075), …` with a point that reads back. -/
def searchDown (tie : Tie) (x : Float) : Nat → Decimal
  | 0 => exact x
  | n + 1 =>
    match onGrid? tie x ((n : Int) + 1 - 1074) with
    | some d => d
    | none => searchDown tie x n

/-- A grid coarser than the double: `log2 units - 1073` binary digits are at most
`30103 / 100000` times as many decimal ones. -/
def coarsest (x : Float) : Int :=
  ((Nat.log2 (Double.units x) : Int) - 1073) * 30103 / 100000 + 1

/-- The shortest decimal that reads back as the absolute value of the finite double `x`. -/
def shortest (tie : Tie) (x : Float) : Decimal :=
  if Double.units x = 0 then ⟨0, 0⟩ else searchDown tie x (coarsest x + 1074).toNat

end Decimal

end ModelFormula
