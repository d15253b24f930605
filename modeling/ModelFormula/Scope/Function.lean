import ModelFormula.Text.Quoted

/-!
# Functions

A function has a name, perhaps a fixed number of arguments, and a body that may fail.

* `EvalError` — why a value could not be computed, with its wording in `EvalError.message`;
* `Function.apply` — the body, **once the number of arguments is right**;
* `Function.FailsByArity` — the body fails for the number of its arguments only.

Functions are compared by name and number of arguments only.
-/

set_option autoImplicit false

namespace ModelFormula

/-- Why a value could not be computed. -/
inductive EvalError where
  /-- The row does not bind a variable. -/
  | unbound (name : String)
  /-- The scope does not define a function. -/
  | undefinedFunction (name : String)
  /-- A function was given the wrong number of arguments. -/
  | arity (name : String) (expected actual : Nat)
  /-- The number of values is not the number of names. -/
  | bindings (names : List String) (actual : Nat)
  /-- What stands for no value was to be evaluated. -/
  | notEvaluable (what : String)
  deriving DecidableEq, Repr

/-- Why a value could not be computed, in words. -/
def EvalError.message : EvalError → String
  | .unbound name => "variable `" ++ name ++ "` is not bound"
  | .undefinedFunction name => "function `" ++ name ++ "` is not defined"
  | .arity name expected actual =>
    "`" ++ name ++ "` expects " ++ toString expected ++ " arguments, got " ++ toString actual
  | .bindings names actual =>
    "expected a value for each of " ++ String.ofList (listed names) ++ ", got "
      ++ toString actual
  | .notEvaluable what => "`" ++ what ++ "` cannot be evaluated"

/-- A function that can be applied to values. -/
structure Function where
  name : String
  /-- The number of arguments, if it is fixed. -/
  arity : Option Nat
  body : List Float → Except EvalError Float

namespace Function

/-- A function of one argument that never fails. -/
def unary (name : String) (f : Float → Float) : Function where
  name := name
  arity := some 1
  body
    | [x] => .ok (f x)
    | args => .error (.arity name 1 args.length)

/-- A function of two arguments that never fails. -/
def binary (name : String) (f : Float → Float → Float) : Function where
  name := name
  arity := some 2
  body
    | [x, y] => .ok (f x y)
    | args => .error (.arity name 2 args.length)

/-- A function applied to values, which must be as many as it takes. -/
def apply (f : Function) (values : List Float) : Except EvalError Float :=
  match f.arity with
  | some expected =>
    if expected = values.length then f.body values
    else .error (.arity f.name expected values.length)
  | none => f.body values

/-- The body of a function fails only because of the number of its arguments, and reports the
function itself. -/
def FailsByArity (f : Function) : Prop :=
  ∀ values err, f.body values = .error err →
    ∃ expected, err = .arity f.name expected values.length

/-- A body that fails by the number of its arguments reports nothing else. -/
theorem FailsByArity.body_ne {f : Function} {err : EvalError} (h : f.FailsByArity)
    (herr : ∀ name expected actual, err ≠ .arity name expected actual) (values : List Float) :
    f.body values ≠ .error err := by
  intro hbody
  obtain ⟨expected, heq⟩ := h values err hbody
  exact herr _ _ _ heq

theorem failsByArity_unary (name : String) (g : Float → Float) :
    (unary name g).FailsByArity := by
  intro values err h
  match values, h with
  | [], h =>
      cases h
      exact ⟨1, rfl⟩
  | [_], h => cases h
  | _ :: _ :: _, h =>
      cases h
      exact ⟨1, rfl⟩

theorem failsByArity_binary (name : String) (g : Float → Float → Float) :
    (binary name g).FailsByArity := by
  intro values err h
  match values, h with
  | [], h =>
      cases h
      exact ⟨2, rfl⟩
  | [_], h =>
      cases h
      exact ⟨2, rfl⟩
  | [_, _], h => cases h
  | _ :: _ :: _ :: _, h =>
      cases h
      exact ⟨2, rfl⟩

/-- Whether two functions have the same name and the same number of arguments. -/
def agrees (f g : Function) : Bool := f.name == g.name && f.arity == g.arity

instance : BEq Function := ⟨agrees⟩

/-- The name and the number of arguments of a function, as they stand in a message. -/
def summary (f : Function) : List Char :=
  let arity := match f.arity with
    | some n => "Some(" ++ toString n ++ ")"
    | none => "None"
  "Function \x7b name: ".toList ++ listedName f.name ++ (", arity: " ++ arity ++ " \x7d").toList

end Function

end ModelFormula
