import ModelFormula.Scope.Basic

/-!
# Built-in functions

Arithmetic, where `&` of numbers is their product, and six functions of one argument.

* `Builtin.sum`, `Builtin.product` — the sum and the product of any number of values, **taken from
  left to right**;
* `Scope.builtins` — the scope with all of them;
* `Builtin.Family`, `Builtin.family_of_resolve` — the four kinds of built-in functions;
* `Builtin.failsByArity` — **a built-in function fails only for the number of its arguments.**
-/

set_option autoImplicit false

namespace ModelFormula

namespace Builtin

/-- The sum from left to right.  It starts from `-0`, which changes nothing that is added to it. -/
def sum (values : List Float) : Float := values.foldl (· + ·) (-0.0)

/-- The product from left to right. -/
def product (values : List Float) : Float := values.foldl (· * ·) 1.0

/-- The operators that take any number of values. -/
def variadic (name : String) (f : List Float → Float) : Function where
  name := name
  arity := none
  body values := .ok (f values)

/-- The negative of one value, or the difference of two. -/
def minus : Function where
  name := "-"
  arity := none
  body
    | [x] => .ok (-x)
    | [x, y] => .ok (x - y)
    | values => .error (.arity "-" 2 values.length)

/-- All built-in functions. -/
def all : List Function :=
  [variadic "+" sum, variadic "*" product, variadic "&" product, minus,
    .binary "/" (· / ·), .binary "^" Float.pow,
    .unary "log" Float.log, .unary "exp" Float.exp, .unary "sqrt" Float.sqrt,
    .unary "abs" Float.abs, .unary "sin" Float.sin, .unary "cos" Float.cos]

end Builtin

/-- The scope with the built-in functions. -/
def Scope.builtins : Scope := Scope.empty.insertAll Builtin.all

namespace Builtin

/-! ### Kinds of built-in functions -/

theorem mem_all_of_resolve {name : String} {f : Function}
    (h : Scope.builtins.resolve name = some f) : f ∈ all := by
  have hmem : f ∈ all.reverse := List.mem_of_find?_eq_some h
  rwa [List.mem_reverse] at hmem

/-- The kinds of built-in functions, with their names. -/
inductive Family (name : String) : Function → Prop
  | variadic (g : List Float → Float) : name ∈ ["+", "*", "&"] →
      Family name (Builtin.variadic name g)
  | minus : name = "-" → Family name Builtin.minus
  | binary (g : Float → Float → Float) : name ∈ ["/", "^"] →
      Family name (Function.binary name g)
  | unary (g : Float → Float) : name ∈ ["log", "exp", "sqrt", "abs", "sin", "cos"] →
      Family name (Function.unary name g)

theorem family_of_resolve {name : String} {f : Function}
    (h : Scope.builtins.resolve name = some f) : Family name f := by
  obtain rfl := Scope.name_of_resolve h
  have hmem := mem_all_of_resolve h
  simp only [all, List.mem_cons, List.not_mem_nil, or_false] at hmem
  rcases hmem with rfl | rfl | rfl | rfl | rfl | rfl | rfl | rfl | rfl | rfl | rfl | rfl
  · exact .variadic sum (by decide)
  · exact .variadic product (by decide)
  · exact .variadic product (by decide)
  · exact .minus rfl
  · exact .binary (· / ·) (by decide)
  · exact .binary Float.pow (by decide)
  all_goals exact .unary _ (by decide)

/-! ### Failures -/

theorem failsByArity_variadic (name : String) (g : List Float → Float) :
    (variadic name g).FailsByArity :=
  nofun

theorem failsByArity_minus : minus.FailsByArity := by
  intro values err h
  match values, h with
  | [], h =>
      cases h
      exact ⟨2, rfl⟩
  | [_], h => cases h
  | [_, _], h => cases h
  | _ :: _ :: _ :: _, h =>
      cases h
      exact ⟨2, rfl⟩

/-- **A built-in function fails only for the number of its arguments.** -/
theorem failsByArity {name : String} {f : Function} (h : Scope.builtins.resolve name = some f) :
    f.FailsByArity := by
  cases family_of_resolve h with
  | variadic g _ => exact failsByArity_variadic name g
  | minus _ => exact failsByArity_minus
  | binary g _ => exact Function.failsByArity_binary name g
  | unary g _ => exact Function.failsByArity_unary name g

end Builtin

end ModelFormula
