import ModelFormula.Scope.Builtin
import ModelFormula.Scope.Eval
import Mathlib.Data.List.Forall2

/-!
# Two evaluations side by side

The evaluation of an expression is compared with that of another one, which differs from it in
numbers only, for another row.  What is compared is a relation of values: it may say that two values
are equal, that they are equal as numbers, or nothing at all.

* `SameOutcome` — two related values, or **the same error**;
* `Function.Respects` — a function takes related values to the same outcome;
* `Expr.Alike` — the same expression up to related numbers;
* `Scope.sameOutcome_eval` — **what all functions of an expression respect is respected by its
  evaluation**.
-/

set_option autoImplicit false

namespace ModelFormula

/-! ### Outcomes -/

/-- Two outcomes are the same up to a relation of values: both are values that are related, or both
are the same error. -/
inductive SameOutcome {α : Type} (R : α → α → Prop) :
    Except EvalError α → Except EvalError α → Prop
  | ok {x y : α} : R x y → SameOutcome R (.ok x) (.ok y)
  | error (err : EvalError) : SameOutcome R (.error err) (.error err)

theorem SameOutcome.imp {α : Type} {Q R : α → α → Prop} (hQR : ∀ x y, Q x y → R x y)
    {a b : Except EvalError α} (h : SameOutcome Q a b) : SameOutcome R a b := by
  cases h with
  | ok h => exact .ok (hQR _ _ h)
  | error err => exact .error err

/-- A function takes related values to outcomes that are the same up to the relation. -/
def Function.Respects (R : Float → Float → Prop) (f : Function) : Prop :=
  ∀ xs ys, List.Forall₂ R xs ys → SameOutcome R (f.apply xs) (f.apply ys)

/-! ### Functions -/

section Families

variable {R : Float → Float → Prop}

/-- A function of a fixed number of arguments respects a relation if its body does for so many. -/
theorem Function.respects_of_arity {f : Function} {n : Nat} (harity : f.arity = some n)
    (hbody : ∀ xs ys, xs.length = n → List.Forall₂ R xs ys →
      SameOutcome R (f.body xs) (f.body ys)) : f.Respects R := by
  intro xs ys h
  rw [apply, apply, harity, ← h.length_eq]
  dsimp only
  split
  · rename_i hlen
    exact hbody xs ys hlen.symm h
  · exact .error _

theorem Function.respects_unary (name : String) {g : Float → Float}
    (hg : ∀ x y, R x y → R (g x) (g y)) : (Function.unary name g).Respects R := by
  refine respects_of_arity rfl ?_
  intro xs ys hlen h
  obtain ⟨x, rfl⟩ := List.length_eq_one_iff.mp hlen
  obtain ⟨y, _, hxy, hnil, rfl⟩ := List.forall₂_cons_left_iff.mp h
  cases hnil
  exact .ok (hg x y hxy)

theorem Function.respects_binary (name : String) {g : Float → Float → Float}
    (hg : ∀ x x' y y', R x x' → R y y' → R (g x y) (g x' y')) :
    (Function.binary name g).Respects R := by
  refine respects_of_arity rfl ?_
  intro xs ys hlen h
  obtain ⟨x, y, rfl⟩ := List.length_eq_two.mp hlen
  obtain ⟨x', _, hx, hrest, rfl⟩ := List.forall₂_cons_left_iff.mp h
  obtain ⟨y', _, hy, hnil, rfl⟩ := List.forall₂_cons_left_iff.mp hrest
  cases hnil
  exact .ok (hg x x' y y' hx hy)

theorem Builtin.respects_variadic (name : String) {g : List Float → Float}
    (hg : ∀ xs ys, List.Forall₂ R xs ys → R (g xs) (g ys)) :
    (Builtin.variadic name g).Respects R :=
  fun xs ys h => .ok (hg xs ys h)

/-- The minus has no fixed number of arguments, but counts them itself. -/
theorem Builtin.respects_minus (hneg : ∀ x y, R x y → R (-x) (-y))
    (hsub : ∀ x x' y y', R x x' → R y y' → R (x - y) (x' - y')) : minus.Respects R := by
  intro xs ys h
  cases h with
  | nil => exact .error _
  | cons hx h =>
      cases h with
      | nil => exact .ok (hneg _ _ hx)
      | cons hy h =>
          cases h with
          | nil => exact .ok (hsub _ _ _ _ hx hy)
          | @cons _ _ xs ys _ h =>
              have hlen : xs.length = ys.length := h.length_eq
              change SameOutcome R (.error (.arity "-" 2 (xs.length + 3)))
                (.error (.arity "-" 2 (ys.length + 3)))
              rw [hlen]
              exact .error _

end Families

/-! ### Expressions -/

/-- Two expressions are the same up to a relation of numbers. -/
inductive Expr.Alike (R : Float → Float → Prop) : Expr → Expr → Prop
  | call (op : String) {args args' : List Expr} : List.Forall₂ (Expr.Alike R) args args' →
      Expr.Alike R (.call op args) (.call op args')
  | symbol (name : String) : Expr.Alike R (.symbol name) (.symbol name)
  | number {x y : Float} : R x y → Expr.Alike R (.number x) (.number y)
  | absent : Expr.Alike R .absent .absent

namespace Expr

variable {R : Float → Float → Prop}

/-- Induction over two expressions together. -/
@[elab_as_elim]
theorem Alike.induction {motive : Expr → Expr → Prop}
    (symbol : ∀ name, motive (.symbol name) (.symbol name))
    (number : ∀ x y, R x y → motive (.number x) (.number y)) (absent : motive .absent .absent)
    (call : ∀ op args args', List.Forall₂ motive args args' →
      motive (.call op args) (.call op args'))
    {e e' : Expr} (h : Alike R e e') : motive e e' := by
  induction e using inductionCalls generalizing e' with
  | symbol name =>
      cases h
      exact symbol name
  | number value =>
      cases h with
      | number hxy => exact number _ _ hxy
  | absent =>
      cases h
      exact absent
  | call op args ih =>
      cases h with
      | call _ hargs =>
          refine call op args _ (((List.forall₂_and_left _ _).mpr ⟨ih, hargs⟩).imp ?_)
          rintro e e' ⟨he, hee'⟩
          exact he hee'

theorem alike_refl (hR : ∀ x, R x x) (e : Expr) : Alike R e e := by
  induction e using inductionCalls with
  | symbol name => exact .symbol name
  | number value => exact .number (hR value)
  | absent => exact .absent
  | call op args ih => exact .call op (List.forall₂_same.mpr ih)

theorem Alike.imp {Q : Float → Float → Prop} (hRQ : ∀ x y, R x y → Q x y) {e e' : Expr}
    (h : Alike R e e') : Alike Q e e' := by
  refine Alike.induction ?symbol ?number ?absent ?call h
  case symbol => exact .symbol
  case number => exact fun x y hxy => .number (hRQ x y hxy)
  case absent => exact .absent
  case call => exact fun op _ _ hargs => .call op hargs

end Expr

namespace Scope

variable {S : Scope} {r s : Row} {R : Float → Float → Prop}

/-- Operands that have the same outcomes one by one have the same outcome together: the first one
that fails is the first of both. -/
theorem sameOutcome_evalAll {es es' : List Expr}
    (h : List.Forall₂ (fun e e' => SameOutcome R (S.eval r e) (S.eval s e')) es es') :
    SameOutcome (List.Forall₂ R) (S.evalAll r es) (S.evalAll s es') := by
  induction h with
  | nil =>
      rw [evalAll_nil, evalAll_nil]
      exact .ok .nil
  | @cons e e' es es' he _ ih =>
      rw [evalAll, evalAll]
      generalize S.eval r e = a, S.eval s e' = b at he ⊢
      generalize S.evalAll r es = as, S.evalAll s es' = bs at ih ⊢
      cases he with
      | error err => exact .error err
      | ok hxy =>
          cases ih with
          | error err => exact .error err
          | ok hvalues => exact .ok (.cons hxy hvalues)

theorem sameOutcome_applyTo {f : Function} (hf : f.Respects R) {es es' : List Expr}
    (h : List.Forall₂ (fun e e' => SameOutcome R (S.eval r e) (S.eval s e')) es es') :
    SameOutcome R (S.applyTo r f es) (S.applyTo s f es') := by
  have hall := sameOutcome_evalAll h
  rw [applyTo, applyTo]
  generalize S.evalAll r es = as, S.evalAll s es' = bs at hall ⊢
  cases hall with
  | error err => exact .error err
  | ok hvalues => exact hf _ _ hvalues

theorem optionRel_refl (hR : ∀ x, R x x) (a : Option Float) : Option.Rel R a a := by
  cases a with
  | none => exact .none
  | some x => exact .some (hR x)

/-- **What all functions of an expression respect is respected by its evaluation**: for rows that
bind the same variables to related values, expressions that are the same up to related numbers have
related values, or the same error. -/
theorem sameOutcome_eval {e e' : Expr} (h : Expr.Alike R e e') :
    (∀ op args, .call op args ∈ e.nodes → ∀ f, S.resolve op = some f → f.Respects R) →
    (∀ name, .symbol name ∈ e.nodes → Option.Rel R (r.get? name) (s.get? name)) →
    SameOutcome R (S.eval r e) (S.eval s e') := by
  refine Expr.Alike.induction ?symbol ?number ?absent ?call h
  case symbol =>
    intro name _ hrows
    have hname := hrows name (Expr.mem_nodes_self _)
    rw [eval, eval]
    generalize r.get? name = a, s.get? name = b at hname ⊢
    cases hname with
    | some hxy => exact .ok hxy
    | none => exact .error _
  case number =>
    intro x y hxy _ _
    rw [eval_number, eval_number]
    exact .ok hxy
  case absent =>
    intro _ _
    rw [eval_absent, eval_absent]
    exact .error _
  case call =>
    intro op args args' ih hfunctions hrows
    have hargs :
        List.Forall₂ (fun e e' => SameOutcome R (S.eval r e) (S.eval s e')) args args' := by
      refine ((List.forall₂_and_left _ _).mpr ⟨fun e he => he, ih⟩).imp ?_
      rintro e e' ⟨he, hsame⟩
      refine hsame ?_ ?_
      · intro f ds hmem
        exact hfunctions f ds (Expr.mem_nodes_of_mem he hmem)
      · intro name hmem
        exact hrows name (Expr.mem_nodes_of_mem he hmem)
    cases hop : S.resolve op with
    | none =>
        rw [eval_call_of_resolve_eq_none hop, eval_call_of_resolve_eq_none hop]
        exact .error _
    | some f =>
        rw [eval_call_of_resolve hop, eval_call_of_resolve hop]
        exact sameOutcome_applyTo (hfunctions op args (Expr.mem_nodes_self _) f hop) hargs

end Scope

end ModelFormula
