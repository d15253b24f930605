import ModelFormula.Term.Lowering
import ModelFormula.Term.Printer

/-!
# Formulas

A formula has a left side, which may be absent, and a right side.

* `Formula.ofExpr` — the formula of an expression, in a scope;
* `Formula.ofText` — the formula of a text;
* `Formula.normalized` — both sides joined again;
* `Formula.text` — the text of a formula, **which reads back as an equal formula**;
* `Formula.inScope` — a formula whose captured calls look functions up in another scope.

The shape of the whole is checked first, then escape markers, then the left side, then the right
side.
-/

set_option autoImplicit false

namespace ModelFormula

/-- A formula, with both sides as terms. -/
structure Formula where
  /-- The expression as it was written. -/
  expr : Expr
  lhs : Term
  rhs : Term

namespace Formula

/-- The formula of an expression, which must be a call of `~` with two sides. -/
def ofExpr (S : Scope) (e : Expr) : Except FormulaError Formula :=
  match e.requireSides with
  | .error err => .error err
  | .ok (lhs, rhs) =>
    match e.requireUnescaped with
    | .error err => .error err
    | .ok () =>
      match Term.ofExpr S lhs with
      | .error err => .error err
      | .ok l =>
        match Term.ofExpr S rhs with
        | .error err => .error err
        | .ok r => .ok ⟨e, l, r⟩

/-- The formula of a text. -/
def ofText (S : Scope) (input : String) : Except FormulaError Formula :=
  match Expr.ofText input with
  | .ok e => ofExpr S e
  | .error err => .error err

/-- Both sides joined again. -/
def normalized (f : Formula) : Term := .op .tilde [f.lhs, f.rhs]

/-- The text of a formula. -/
def text (f : Formula) : String := f.normalized.text

/-- Whether a formula has no left side. -/
def isOneSided (f : Formula) : Bool :=
  match f.lhs with
  | .absent => true
  | _ => false

/-- The captured calls of both sides, in the order in which they are evaluated. -/
def capturedCalls (f : Formula) : List CapturedCall := f.normalized.capturedCalls

/-- A formula whose captured calls look the functions of their arguments up in a given scope. -/
def inScope (S : Scope) (f : Formula) : Formula :=
  { f with lhs := f.lhs.inScope S, rhs := f.rhs.inScope S }

/-- Whether two formulas agree in expression and terms, their numbers compared as numbers. -/
def agrees (f g : Formula) : Bool := f.expr == g.expr && f.lhs == g.lhs && f.rhs == g.rhs

instance : BEq Formula := ⟨agrees⟩

/-- The captured calls of a formula are those of its left side, then those of its right side. -/
theorem capturedCalls_eq (f : Formula) :
    f.capturedCalls = f.lhs.capturedCalls ++ f.rhs.capturedCalls := by
  simp [capturedCalls, normalized, Term.capturedCalls, Term.capturedCallsAll_eq_flatMap]

end Formula

end ModelFormula
