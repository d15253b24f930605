import ModelFormula.Decimal.Text
import ModelFormula.Expr.Basic
import ModelFormula.Text.Blank

/-!
# Printing expressions

An operand is put in parentheses unless it binds more tightly than the operator it stands under.

* `precedence` — how tightly an infix operator binds;
* `Layout.of` — whether a call is written before its operand, between its operands, or applied to
  arguments in parentheses;
* `Expr.needsParens` — whether an operand is put in parentheses;
* `Expr.chars`, `Expr.text` — **the text of an expression.**

An absent left side prints as nothing, so that `~ x` begins with its operator: the blanks at the
start of a run of operands are left out.
-/

set_option autoImplicit false

namespace ModelFormula

/-! ### Layout of a call -/

/-- How tightly an infix operator binds. -/
def precedence (op : String) : Option Nat :=
  if op = "~" then some 0
  else if op = "+" ∨ op = "-" then some 1
  else if op = "*" ∨ op = "/" ∨ op = "&" then some 2
  else if op = "^" then some 3
  else none

/-- The strength with which a leading operator holds its operand: more than any infix one. -/
def leadingStrength : Nat := 4

/-- The three ways to write a call. -/
inductive Layout where
  /-- The operator stands before its only operand. -/
  | leading
  /-- The operator, of the given strength, stands between its operands. -/
  | between (strength : Nat)
  /-- The arguments follow in parentheses. -/
  | applied
  deriving DecidableEq, Repr

/-- The way to write a call of `op` with `count` arguments. -/
def Layout.of (op : String) (count : Nat) : Layout :=
  if count = 1 ∧ (op = "$" ∨ op = "-") then .leading
  else match precedence op with
    | some strength => if 2 ≤ count then .between strength else .applied
    | none => .applied

/-- Texts with a separator between each two. -/
def joined (separator : List Char) (parts : List (List Char)) : List Char :=
  separator.intercalate parts

/-- Operands with an infix operator between each two. -/
def joinedBy (op : String) (operands : List (List Char)) : List Char :=
  trimStart (joined (' ' :: op.toList ++ [' ']) operands)

/-- Arguments in parentheses. -/
def argumentList (args : List (List Char)) : List Char :=
  '(' :: joined [',', ' '] args ++ [')']

/-- A text in parentheses. -/
def inParens (s : List Char) : List Char := '(' :: s ++ [')']

namespace Expr

/-! ### Parentheses -/

/-- Whether an operand is put in parentheses under an operator of the given strength.  An infix
call is, unless it binds more tightly; a call of `-` or `$` before its operand is, from `^` on;
and so is a negative number. -/
def needsParens (strength : Nat) : Expr → Bool
  | .call op args =>
    if 2 ≤ args.length then (precedence op).any fun own => decide (own ≤ strength)
    else decide (3 ≤ strength) && (op == "$" || op == "-" && args.length == 1)
  | .number value => decide (value < 0.0)
  | _ => false

/-! ### Text -/

mutual
/-- The characters of an expression. -/
def chars : Expr → List Char
  | .symbol name => name.toList
  | .number value => Double.text value
  | .absent => []
  | .call op args =>
    match Layout.of op args.length with
    | .leading => op.toList ++ (operandsUnder leadingStrength args).flatten
    | .between strength => joinedBy op (operandsUnder strength args)
    | .applied => op.toList ++ argumentList (charsAll args)

/-- The characters of each operand under an operator of the given strength. -/
def operandsUnder (strength : Nat) : List Expr → List (List Char)
  | [] => []
  | e :: es =>
    (if needsParens strength e then inParens (chars e) else chars e) :: operandsUnder strength es

/-- The characters of each argument. -/
def charsAll : List Expr → List (List Char)
  | [] => []
  | e :: es => chars e :: charsAll es
end

/-- The text of an expression. -/
def text (e : Expr) : String := String.ofList e.chars

@[simp] theorem chars_symbol (name : String) : (symbol name).chars = name.toList := by rw [chars]
@[simp] theorem chars_number (value : Float) : (number value).chars = Double.text value := by
  rw [chars]
@[simp] theorem chars_absent : absent.chars = [] := by rw [chars]

theorem charsAll_eq_map (es : List Expr) : charsAll es = es.map chars := by
  induction es with
  | nil => rw [charsAll, List.map_nil]
  | cons e es ih => rw [charsAll, ih, List.map_cons]

/-- The characters of one operand under an operator of the given strength. -/
def operand (strength : Nat) (e : Expr) : List Char :=
  if needsParens strength e then inParens e.chars else e.chars

theorem operandsUnder_eq_map (strength : Nat) (es : List Expr) :
    operandsUnder strength es = es.map (operand strength) := by
  induction es with
  | nil => rw [operandsUnder, List.map_nil]
  | cons e es ih => rw [operandsUnder, ih, List.map_cons, operand]

/-- An infix call prints as its operands with the operator between each two. -/
theorem chars_of_between {op : String} {args : List Expr} {strength : Nat}
    (h : Layout.of op args.length = .between strength) :
    (call op args).chars = joinedBy op (args.map (operand strength)) := by
  simp [chars, h, operandsUnder_eq_map]

/-- An applied call prints as its name and its arguments in parentheses. -/
theorem chars_of_applied {op : String} {args : List Expr}
    (h : Layout.of op args.length = .applied) :
    (call op args).chars = op.toList ++ argumentList (args.map chars) := by
  simp [chars, h, charsAll_eq_map]

end Expr

end ModelFormula
