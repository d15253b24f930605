/-!
# Expressions

The tree of a formula as it is written, before anything is read into it: operators and functions
are both calls, and only the name at a call's head tells them apart.

* `Expr` — a call, a name, a number, or nothing at all (the left side of `~ x`);
* `Expr.nodes` — every subexpression, **a call before its arguments**, arguments left to right;
* `Expr.freeVariables` — the names that stand for variables, each once, by first appearance;
* `Expr.firstEscape?` — the first call of the escape marker `$`.

Two expressions are compared with `==`, which compares numbers as numbers: `-0 == 0`, and a NaN
differs from itself.
-/

set_option autoImplicit false

namespace ModelFormula

/-- An expression as it is written. -/
inductive Expr where
  | call (op : String) (args : List Expr)
  | symbol (name : String)
  | number (value : Float)
  | absent
  deriving Repr, Inhabited

namespace Expr

/-! ### Shape -/

/-- The operator of the escape marker `$x`. -/
def escapeOp : String := "$"

/-- An expression behind an escape marker. -/
def escape (e : Expr) : Expr := .call escapeOp [e]

/-- The operator and the arguments of a call. -/
def asCall? : Expr → Option (String × List Expr)
  | .call op args => some (op, args)
  | _ => none

/-- The operator of a call. -/
def head? : Expr → Option String
  | .call op _ => some op
  | _ => none

/-- The name of a variable. -/
def symbol? : Expr → Option String
  | .symbol name => some name
  | _ => none

/-- Whether an expression is a call. -/
def isCall (e : Expr) : Bool := e.head?.isSome

/-- Whether an expression is a call of `op`, with any number of arguments. -/
def isCallTo (op : String) (e : Expr) : Bool := e.head? == some op

/-- Whether an expression is a call of the escape marker, with any number of arguments. -/
def isEscape (e : Expr) : Bool := e.isCallTo escapeOp

@[simp] theorem head?_call (op : String) (args : List Expr) : (call op args).head? = some op := rfl
@[simp] theorem head?_symbol (name : String) : (symbol name).head? = none := rfl
@[simp] theorem head?_number (value : Float) : (number value).head? = none := rfl
@[simp] theorem head?_absent : absent.head? = none := rfl

@[simp] theorem symbol?_call (op : String) (args : List Expr) : (call op args).symbol? = none := rfl
@[simp] theorem symbol?_symbol (name : String) : (symbol name).symbol? = some name := rfl
@[simp] theorem symbol?_number (value : Float) : (number value).symbol? = none := rfl
@[simp] theorem symbol?_absent : absent.symbol? = none := rfl

/-- Induction that treats all calls alike. -/
@[elab_as_elim]
theorem inductionCalls {motive : Expr → Prop} (symbol : ∀ name, motive (.symbol name))
    (number : ∀ value, motive (.number value)) (absent : motive .absent)
    (call : ∀ op args, (∀ e ∈ args, motive e) → motive (.call op args)) (e : Expr) : motive e := by
  refine Expr.rec (motive_2 := fun es => ∀ e ∈ es, motive e) call symbol number absent ?_ ?_ e
  · intro e he
    cases he
  · intro e es he hes
    exact List.forall_mem_cons.mpr ⟨he, hes⟩

/-! ### Equality -/

mutual
/-- Whether two expressions agree, their numbers compared as numbers. -/
def agrees : Expr → Expr → Bool
  | .call f xs, .call g ys => f == g && agreesAll xs ys
  | .symbol a, .symbol b => a == b
  | .number x, .number y => x == y
  | .absent, .absent => true
  | _, _ => false

/-- Whether two lists of expressions agree, one by one. -/
def agreesAll : List Expr → List Expr → Bool
  | [], [] => true
  | x :: xs, y :: ys => agrees x y && agreesAll xs ys
  | _, _ => false
end

instance : BEq Expr := ⟨agrees⟩

/-! ### Subexpressions -/

mutual
/-- Every subexpression, a call before its arguments, arguments left to right. -/
def nodes : Expr → List Expr
  | .call op args => .call op args :: nodesAll args
  | .symbol name => [.symbol name]
  | .number value => [.number value]
  | .absent => [.absent]

/-- Every subexpression of a list of expressions, one expression after the other. -/
def nodesAll : List Expr → List Expr
  | [] => []
  | e :: es => nodes e ++ nodesAll es
end

@[simp] theorem nodes_call (op : String) (args : List Expr) :
    (call op args).nodes = call op args :: nodesAll args := by rw [nodes]
@[simp] theorem nodes_symbol (name : String) : (symbol name).nodes = [symbol name] := by rw [nodes]
@[simp] theorem nodes_number (value : Float) : (number value).nodes = [number value] := by
  rw [nodes]
@[simp] theorem nodes_absent : absent.nodes = [absent] := by rw [nodes]
@[simp] theorem nodesAll_nil : nodesAll [] = [] := by rw [nodesAll]
@[simp] theorem nodesAll_cons (e : Expr) (es : List Expr) :
    nodesAll (e :: es) = e.nodes ++ nodesAll es := by rw [nodesAll]

theorem nodesAll_eq_flatMap (es : List Expr) : nodesAll es = es.flatMap nodes := by
  induction es with
  | nil => simp
  | cons e es ih => simp [ih]

/-- An expression is the first of its subexpressions. -/
theorem nodes_eq_cons (e : Expr) : ∃ below, e.nodes = e :: below := by
  cases e <;> simp

theorem mem_nodes_self (e : Expr) : e ∈ e.nodes := by
  obtain ⟨below, h⟩ := e.nodes_eq_cons
  simp [h]

/-- A subexpression of a call is the call itself or a subexpression of an argument. -/
theorem mem_nodes_call_iff {d : Expr} {op : String} {args : List Expr} :
    d ∈ (call op args).nodes ↔ d = call op args ∨ ∃ e ∈ args, d ∈ e.nodes := by
  rw [nodes_call, List.mem_cons, nodesAll_eq_flatMap, List.mem_flatMap]

theorem mem_nodes_of_mem {d e : Expr} {op : String} {args : List Expr} (he : e ∈ args)
    (h : d ∈ e.nodes) : d ∈ (call op args).nodes :=
  mem_nodes_call_iff.mpr (.inr ⟨e, he, h⟩)

/-- A subexpression of a subexpression is one of the whole. -/
theorem mem_nodes_trans {c d e : Expr} (hc : c ∈ d.nodes) (hd : d ∈ e.nodes) : c ∈ e.nodes := by
  induction e using inductionCalls with
  | symbol name =>
      rw [nodes_symbol, List.mem_singleton] at hd
      rwa [hd] at hc
  | number value =>
      rw [nodes_number, List.mem_singleton] at hd
      rwa [hd] at hc
  | absent =>
      rw [nodes_absent, List.mem_singleton] at hd
      rwa [hd] at hc
  | call op args ih =>
      rcases mem_nodes_call_iff.mp hd with rfl | ⟨e, he, hd⟩
      · exact hc
      · exact mem_nodes_of_mem he (ih e he hd)

/-- The variables of an expression, each once, in the order of first appearance. -/
def freeVariables (e : Expr) : List String := (e.nodes.filterMap symbol?).eraseDups

/-- The first call of the escape marker. -/
def firstEscape? (e : Expr) : Option Expr := e.nodes.find? isEscape

/-- Without an escape marker in an expression there is none in its subexpressions. -/
theorem firstEscape?_eq_none_of_mem_nodes {d e : Expr} (hd : d ∈ e.nodes)
    (h : e.firstEscape? = none) : d.firstEscape? = none := by
  rw [firstEscape?, List.find?_eq_none] at h ⊢
  intro c hc
  exact h c (mem_nodes_trans hc hd)

end Expr

end ModelFormula
