import ModelFormula.Term.Basic

/-!
# Printing terms

A term prints as the expression it stands for.  A captured call prints as it was written, so its
own operator decides whether it needs parentheses.

* `Term.strength?` — how tightly the operator binds that a term prints with;
* `Term.chars`, `Term.text` — **the text of a term.**
-/

set_option autoImplicit false

namespace ModelFormula

namespace Term

/-- How tightly the operator binds that stands between the operands of a term, if there is one. -/
def strength? : Term → Option Nat
  | .op o _ => some o.strength
  | .captured call _ => if 2 ≤ call.args.length then precedence call.function.name else none
  | _ => none

/-- Whether an operand is put in parentheses under an operator of the given strength. -/
def needsParens (strength : Nat) (t : Term) : Bool :=
  match t.strength? with
  | some own => decide (own ≤ strength)
  | none =>
    match t with
    | .constant value => decide (value < 0.0)
    | _ => false

mutual
/-- The characters of a term. -/
def chars : Term → List Char
  | .column name => name.toList
  | .constant value => Double.text value
  | .absent => []
  | .captured call _ => call.expr.chars
  | .op o args => joinedBy o.symbol (operandsUnder o.strength args)

/-- The characters of each operand under an operator of the given strength. -/
def operandsUnder (strength : Nat) : List Term → List (List Char)
  | [] => []
  | t :: ts =>
    (if needsParens strength t then inParens (chars t) else chars t) :: operandsUnder strength ts
end

/-- The text of a term. -/
def text (t : Term) : String := String.ofList t.chars

/-- The characters of one operand under an operator of the given strength. -/
def operand (strength : Nat) (t : Term) : List Char :=
  if needsParens strength t then inParens t.chars else t.chars

theorem operandsUnder_eq_map (strength : Nat) (ts : List Term) :
    operandsUnder strength ts = ts.map (operand strength) := by
  induction ts with
  | nil => rw [operandsUnder, List.map_nil]
  | cons t ts ih => rw [operandsUnder, ih, List.map_cons, operand]

/-- An operator prints as its operands with its symbol between each two. -/
theorem chars_op (o : FormulaOp) (args : List Term) :
    (Term.op o args).chars = joinedBy o.symbol (args.map (operand o.strength)) := by
  rw [chars, operandsUnder_eq_map]

end Term

end ModelFormula
