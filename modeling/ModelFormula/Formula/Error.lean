import ModelFormula.Expr.Parser
import ModelFormula.Expr.Printer

/-!
# What can be wrong with a formula

* `FormulaError` — every reason why a text or an expression makes no formula;
* `FormulaError.message` — its wording;
* `Expr.requireCall`, `Expr.requireSides`, `Expr.requireUnescaped` — the checks on the shape of an
  expression, each with the error it reports.
-/

set_option autoImplicit false

namespace ModelFormula

/-- What is wrong with the shape of an expression. -/
inductive ShapeFault where
  /-- It should be a call. -/
  | notCall
  /-- It should be a call of `~`. -/
  | notTilde
  /-- It is a call of `~`, but not with two sides. -/
  | sideCount (count : Nat)
  /-- The number of lowered arguments is not the number of arguments. -/
  | loweredCount (expected actual : Nat)
  deriving DecidableEq, Repr

/-- What is wrong with the shape of an expression, in words. -/
def ShapeFault.message : ShapeFault → String
  | .notCall => "expected a function call"
  | .notTilde => "expected `lhs ~ rhs`"
  | .sideCount count => "`~` takes two sides, got " ++ toString count
  | .loweredCount expected actual =>
    "expected " ++ toString expected ++ " lowered arguments, got " ++ toString actual

/-- Why a text or an expression makes no formula. -/
inductive FormulaError where
  /-- An expression has the wrong shape. -/
  | malformed (e : Expr) (fault : ShapeFault)
  /-- An expression is an escape marker. -/
  | escaped (e : Expr)
  /-- A call, or a call inside its arguments, has a head that is not defined. -/
  | unresolved (name : String) (call : Expr)
  /-- A text is not an expression. -/
  | unreadable (error : ParseError)
  deriving Repr

/-- Why a text or an expression makes no formula, in words. -/
def FormulaError.message : FormulaError → String
  | .malformed e fault => "malformed formula `" ++ e.text ++ "`: " ++ fault.message
  | .escaped e => "unsupported syntax: `" ++ e.text ++ "` contains an escape marker"
  | .unresolved name call =>
    "function `" ++ name ++ "` in `" ++ call.text ++ "` is not defined in scope"
  | .unreadable error =>
    "parse error at offset " ++ toString error.offset ++ ": " ++ error.fault.message

namespace Expr

/-- The operator and the arguments of an expression that must be a call. -/
def requireCall (e : Expr) : Except FormulaError (String × List Expr) :=
  match e.asCall? with
  | some parts => .ok parts
  | none => .error (.malformed e .notCall)

/-- The two sides of an expression that must be a call of `~` with two arguments. -/
def requireSides (e : Expr) : Except FormulaError (Expr × Expr) :=
  match e with
  | .call op args =>
    if op = "~" then
      match args with
      | [lhs, rhs] => .ok (lhs, rhs)
      | _ => .error (.malformed e (.sideCount args.length))
    else .error (.malformed e .notTilde)
  | _ => .error (.malformed e .notTilde)

mutual
/-- Succeeds if no escape marker occurs in an expression, and reports the outermost of the first
ones otherwise. -/
def requireUnescaped : Expr → Except FormulaError Unit
  | .call op args =>
    if isEscape (.call op args) then .error (.escaped (.call op args))
    else requireAllUnescaped args
  | .symbol _ => .ok ()
  | .number _ => .ok ()
  | .absent => .ok ()

/-- Succeeds if no escape marker occurs in any of a list of expressions. -/
def requireAllUnescaped : List Expr → Except FormulaError Unit
  | [] => .ok ()
  | e :: es =>
    match requireUnescaped e with
    | .error err => .error err
    | .ok () => requireAllUnescaped es
end

theorem requireAllUnescaped_eq {es : List Expr}
    (h : ∀ e ∈ es, e.requireUnescaped =
      e.firstEscape?.elim (.ok ()) fun d => .error (.escaped d)) :
    requireAllUnescaped es =
      ((nodesAll es).find? isEscape).elim (.ok ()) fun d => .error (.escaped d) := by
  induction es with
  | nil =>
      rw [requireAllUnescaped, nodesAll_nil]
      rfl
  | cons e es ih =>
      have hes := ih fun d hd => h d (List.mem_cons_of_mem _ hd)
      rw [requireAllUnescaped, h e List.mem_cons_self, hes, nodesAll_cons, List.find?_append,
        firstEscape?]
      cases e.nodes.find? isEscape with
      | none => rfl
      | some d => rfl

/-- What is reported is the first escape marker in the order of the subexpressions. -/
theorem requireUnescaped_eq (e : Expr) :
    e.requireUnescaped = e.firstEscape?.elim (.ok ()) fun d => .error (.escaped d) := by
  induction e using inductionCalls with
  | symbol name =>
      rw [requireUnescaped, firstEscape?, nodes_symbol]
      rfl
  | number value =>
      rw [requireUnescaped, firstEscape?, nodes_number]
      rfl
  | absent =>
      rw [requireUnescaped, firstEscape?, nodes_absent]
      rfl
  | call op args ih =>
      rw [requireUnescaped, firstEscape?, nodes_call, List.find?_cons]
      by_cases hescape : isEscape (.call op args) = true
      · rw [if_pos hescape, hescape]
        rfl
      · rw [if_neg hescape, Bool.eq_false_iff.mpr hescape]
        exact requireAllUnescaped_eq ih

/-- The expression that a whole text is. -/
def ofText (input : String) : Except FormulaError Expr :=
  match parse input with
  | .ok e => .ok e
  | .error error => .error (.unreadable error)

end Expr

end ModelFormula
