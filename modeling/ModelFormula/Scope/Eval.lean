import ModelFormula.Expr.Basic
import ModelFormula.Scope.Basic
import ModelFormula.Scope.Row

/-!
# Evaluation

The value of an expression in a scope, for a row of data.  The head of a call is looked up before
its arguments are evaluated, and the arguments are evaluated from left to right; the first failure
is the outcome.

* `Scope.eval`, `Scope.evalAll` — the value of an expression, and of each of a list;
* `Scope.applyTo` — a function applied to the values of expressions.
-/

set_option autoImplicit false

namespace ModelFormula

namespace Scope

mutual
/-- The value of an expression. -/
def eval (S : Scope) (row : Row) : Expr → Except EvalError Float
  | .number value => .ok value
  | .symbol name =>
    match row.get? name with
    | some value => .ok value
    | none => .error (.unbound name)
  | .call op args =>
    -- the head comes first: an undefined function is reported before a fault in its arguments
    match S.resolve op with
    | none => .error (.undefinedFunction op)
    | some f =>
      match evalAll S row args with
      | .ok values => f.apply values
      | .error e => .error e
  | .absent => .error (.notEvaluable "<absent>")

/-- The value of each expression, from left to right. -/
def evalAll (S : Scope) (row : Row) : List Expr → Except EvalError (List Float)
  | [] => .ok []
  | e :: es =>
    match eval S row e with
    | .error err => .error err
    | .ok value =>
      match evalAll S row es with
      | .error err => .error err
      | .ok values => .ok (value :: values)
end

/-- A function applied to the values of expressions. -/
def applyTo (S : Scope) (row : Row) (f : Function) (args : List Expr) : Except EvalError Float :=
  match S.evalAll row args with
  | .ok values => f.apply values
  | .error e => .error e

@[simp] theorem eval_number (S : Scope) (row : Row) (value : Float) :
    S.eval row (.number value) = .ok value := by rw [eval]

@[simp] theorem eval_absent (S : Scope) (row : Row) :
    S.eval row .absent = .error (.notEvaluable "<absent>") := by rw [eval]

@[simp] theorem evalAll_nil (S : Scope) (row : Row) : S.evalAll row [] = .ok [] := by rw [evalAll]

/-- A call whose head is defined has the value of its function at its arguments. -/
theorem eval_call_of_resolve {S : Scope} {op : String} {f : Function} (h : S.resolve op = some f)
    (row : Row) (args : List Expr) : S.eval row (.call op args) = S.applyTo row f args := by
  rw [eval, h, applyTo]

/-- A call whose head is not defined has no value, whatever its arguments are. -/
theorem eval_call_of_resolve_eq_none {S : Scope} {op : String} (h : S.resolve op = none)
    (row : Row) (args : List Expr) :
    S.eval row (.call op args) = .error (.undefinedFunction op) := by
  rw [eval, h]

end Scope

end ModelFormula
