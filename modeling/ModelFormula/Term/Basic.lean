import ModelFormula.Expr.Printer
import ModelFormula.Scope.Eval
import ModelFormula.Term.FormulaOp

/-!
# Terms

The tree of a formula once it is understood: formula operators are structure, and every other call
is captured, together with the scope it was written in.

* `Closure` — a call that can be evaluated once data is known;
* `Closure.evaluate`, `Closure.evaluateAt` — its value for a row, and for values given in the order
  of its free variables;
* `Term` — columns, constants, operators and captured calls;
* `Term.columns` — the columns a term reads, **each once, by first appearance**;
* `Term.capturedCalls` — every captured call, **outer calls before those inside them**;
* `Term.inScope` — a term whose captured calls look functions up in another scope.
-/

set_option autoImplicit false

namespace ModelFormula

/-! ### Closures -/

/-- A call whose function is known, with the scope that its arguments are evaluated in. -/
structure Closure where
  function : Function
  args : List Expr
  scope : Scope

namespace Closure

/-- The call as it was written. -/
def expr (c : Closure) : Expr := .call c.function.name c.args

/-- The variables of a call, each once, in the order of first appearance. -/
def freeVariables (c : Closure) : List String := c.expr.freeVariables

/-- The value of a call for a row of data. -/
def evaluate (c : Closure) (row : Row) : Except EvalError Float :=
  c.scope.applyTo row c.function c.args

/-- The value of a call for one value of each free variable, in their order. -/
def evaluateAt (c : Closure) (values : List Float) : Except EvalError Float :=
  if values.length = c.freeVariables.length then
    c.evaluate (.ofPairs (c.freeVariables.zip values))
  else .error (.bindings c.freeVariables values.length)

/-- The function and the free variables of a call, as they stand in a message. -/
def summary (c : Closure) : List Char :=
  "CallClosure \x7b function: ".toList ++ listedName c.function.name ++ ", free_variables: ".toList
    ++ listed c.freeVariables ++ " \x7d".toList

/-- Whether two calls agree in function, variables and expression; their scopes are not compared. -/
def agrees (c d : Closure) : Bool :=
  c.function == d.function && c.freeVariables == d.freeVariables && c.expr == d.expr

end Closure

/-! ### Terms -/

/-- A term of a formula. -/
inductive Term where
  /-- A column of the data. -/
  | column (name : String)
  /-- A number; `1` asks for an intercept, `0` or `-1` suppresses it. -/
  | constant (value : Float)
  /-- The left side that a formula does not have. -/
  | absent
  /-- A formula operator and its operands. -/
  | op (op : FormulaOp) (args : List Term)
  /-- Any other call, with its arguments as terms. -/
  | captured (call : Closure) (lowered : List Term)

/-- A captured call, with its arguments as terms. -/
structure CapturedCall where
  closure : Closure
  lowered : List Term

/-- A captured call as a term. -/
def CapturedCall.term (c : CapturedCall) : Term := .captured c.closure c.lowered

namespace Term

/-- Induction that treats all operands alike, and all lowered arguments. -/
@[elab_as_elim]
theorem inductionArgs {motive : Term → Prop} (column : ∀ name, motive (.column name))
    (constant : ∀ value, motive (.constant value)) (absent : motive .absent)
    (op : ∀ o args, (∀ t ∈ args, motive t) → motive (.op o args))
    (captured : ∀ call lowered, (∀ t ∈ lowered, motive t) → motive (.captured call lowered))
    (t : Term) : motive t := by
  refine Term.rec (motive_2 := fun ts => ∀ t ∈ ts, motive t) column constant absent op captured
    ?_ ?_ t
  · intro t ht
    cases ht
  · intro t ts ht hts
    exact List.forall_mem_cons.mpr ⟨ht, hts⟩

/-! ### Equality -/

mutual
/-- Whether two terms agree, their numbers compared as numbers. -/
def agrees : Term → Term → Bool
  | .column a, .column b => a == b
  | .constant x, .constant y => x == y
  | .absent, .absent => true
  | .op o xs, .op p ys => decide (o = p) && agreesAll xs ys
  | .captured c xs, .captured d ys => c.agrees d && agreesAll xs ys
  | _, _ => false

/-- Whether two lists of terms agree, one by one. -/
def agreesAll : List Term → List Term → Bool
  | [], [] => true
  | x :: xs, y :: ys => agrees x y && agreesAll xs ys
  | _, _ => false
end

instance : BEq Term := ⟨agrees⟩

/-! ### Columns -/

mutual
/-- The names a term reads, in order of appearance, with repetitions. -/
def reads : Term → List String
  | .column name => [name]
  | .constant _ => []
  | .absent => []
  | .op _ args => readsAll args
  | .captured call _ => call.freeVariables

/-- The names that each of a list of terms reads. -/
def readsAll : List Term → List String
  | [] => []
  | t :: ts => reads t ++ readsAll ts
end

/-- The columns a term reads, each once, in the order of first appearance. -/
def columns (t : Term) : List String := t.reads.eraseDups

/-! ### Captured calls -/

mutual
/-- Every captured call of a term, outer calls before those in their lowered arguments. -/
def capturedCalls : Term → List CapturedCall
  | .column _ => []
  | .constant _ => []
  | .absent => []
  | .op _ args => capturedCallsAll args
  | .captured call lowered => ⟨call, lowered⟩ :: capturedCallsAll lowered

/-- Every captured call of each of a list of terms. -/
def capturedCallsAll : List Term → List CapturedCall
  | [] => []
  | t :: ts => capturedCalls t ++ capturedCallsAll ts
end

theorem capturedCallsAll_eq_flatMap (ts : List Term) :
    capturedCallsAll ts = ts.flatMap capturedCalls := by
  induction ts with
  | nil => rw [capturedCallsAll, List.flatMap_nil]
  | cons t ts ih => rw [capturedCallsAll, ih, List.flatMap_cons]

/-! ### Scopes -/

mutual
/-- The term whose captured calls look the functions of their arguments up in a given scope. -/
def inScope (S : Scope) : Term → Term
  | .column name => .column name
  | .constant value => .constant value
  | .absent => .absent
  | .op o args => .op o (inScopeAll S args)
  | .captured call lowered => .captured { call with scope := S } (inScopeAll S lowered)

/-- The terms of a list, in a given scope. -/
def inScopeAll (S : Scope) : List Term → List Term
  | [] => []
  | t :: ts => inScope S t :: inScopeAll S ts
end

theorem inScopeAll_eq_map (S : Scope) (ts : List Term) :
    inScopeAll S ts = ts.map (inScope S) := by
  induction ts with
  | nil => rw [inScopeAll, List.map_nil]
  | cons t ts ih => rw [inScopeAll, ih, List.map_cons]

end Term

end ModelFormula
