import ModelFormula.Proofs.Columns
import ModelFormula.Proofs.Definedness

/-!
# Which variable is reported unbound

The interpreter meets the variables of a call from left to right, each call's head before its
arguments, and stops at the first fault of any kind.  The free variables are listed by another walk
over the expression, each once.

* `find?_eraseDups` — repetitions do not change what is found first;
* `Expr.firstUnbound?` — the first variable of an expression that a row does not bind;
* `Builtin.neverUnbound` — no built-in function reports an unbound variable by itself;
* `Scope.firstUnbound?_of_eval` — **the variable that is reported is the first one that is not
  bound**, if no function reports one by itself;
* `Closure.evaluate_unbound` — the same for a captured call and the list of its variables.
-/

set_option autoImplicit false

namespace ModelFormula

/-! ### The first variable that is not bound -/

/-- Repetitions do not change what is found first. -/
theorem find?_eraseDups {α : Type} [DecidableEq α] (p : α → Bool) (xs : List α) :
    xs.eraseDups.find? p = xs.find? p := by
  rw [← List.head?_filter, ← List.head?_filter, ← eraseDups_filter]
  cases xs.filter p with
  | nil => rfl
  | cons x xs => rw [List.eraseDups_cons, List.head?_cons, List.head?_cons]

/-- Whether a row leaves a variable unbound. -/
def Row.lacks (row : Row) (name : String) : Bool := (row.get? name).isNone

namespace Expr

/-- The first of the variables of an expression that a row does not bind. -/
def firstUnbound? (row : Row) (e : Expr) : Option String := e.freeVariables.find? row.lacks

variable {row : Row}

theorem firstUnbound?_eq (e : Expr) :
    e.firstUnbound? row = (e.nodes.filterMap symbol?).find? row.lacks :=
  find?_eraseDups _ _

theorem firstUnbound?_eq_none_iff {e : Expr} :
    e.firstUnbound? row = none ↔ ∀ name ∈ e.freeVariables, ∃ x, row.get? name = some x := by
  rw [firstUnbound?, List.find?_eq_none]
  simp [Row.lacks, Option.ne_none_iff_exists']

/-- Of a list of operands, the first variable that is not bound is the one of the first operand that
has one. -/
theorem find?_symbols_nodesAll (es : List Expr) :
    ((nodesAll es).filterMap symbol?).find? row.lacks = es.findSome? (firstUnbound? row) := by
  induction es with
  | nil => rfl
  | cons e es ih =>
      rw [nodesAll_cons, List.filterMap_append, List.find?_append, ih, ← firstUnbound?_eq,
        List.findSome?_cons]
      cases e.firstUnbound? row <;> rfl

theorem firstUnbound?_call (op : String) (args : List Expr) :
    (call op args).firstUnbound? row = args.findSome? (firstUnbound? row) := by
  rw [firstUnbound?_eq, nodes_call, List.filterMap_cons_none (symbol?_call op args),
    find?_symbols_nodesAll]

theorem firstUnbound?_symbol (name : String) :
    (symbol name).firstUnbound? row = if row.lacks name then some name else none := by
  rw [firstUnbound?_eq, nodes_symbol]
  cases h : row.lacks name <;> simp [h]

end Expr

/-! ### Evaluation -/

/-- The body of a function never reports an unbound variable. -/
def Function.NeverUnbound (f : Function) : Prop :=
  ∀ values name, f.body values ≠ .error (.unbound name)

theorem Function.NeverUnbound.apply_ne {f : Function} (hf : f.NeverUnbound) (values : List Float)
    (name : String) : f.apply values ≠ .error (.unbound name) := by
  intro h
  rw [apply] at h
  split at h
  · split at h
    · exact hf values name h
    · cases h
  · exact hf values name h

theorem Builtin.neverUnbound {op : String} {f : Function}
    (h : Scope.builtins.resolve op = some f) : f.NeverUnbound :=
  fun values _ => (failsByArity h).body_ne (by simp) values

namespace Scope

variable {S : Scope} {row : Row}

/-- Where an expression has a value, no variable of it is unbound. -/
theorem firstUnbound?_of_eval_eq_ok {e : Expr} {x : Float} (h : S.eval row e = .ok x) :
    e.firstUnbound? row = none :=
  Expr.firstUnbound?_eq_none_iff.mpr (exists_get?_of_eval e x h)

theorem findSome?_of_evalAll {es : List Expr} {name : String}
    (hes : ∀ e ∈ es, S.eval row e = .error (.unbound name) → e.firstUnbound? row = some name)
    (h : S.evalAll row es = .error (.unbound name)) :
    es.findSome? (Expr.firstUnbound? row) = some name := by
  induction es with
  | nil =>
      rw [evalAll_nil] at h
      cases h
  | cons e es ih =>
      obtain ⟨he, hes⟩ := List.forall_mem_cons.mp hes
      rw [List.findSome?_cons]
      rw [evalAll] at h
      split at h
      · rename_i hfault
        cases h
        rw [he hfault]
      · -- the first operand has a value, so that all its variables are bound
        rename_i x hx
        rw [firstUnbound?_of_eval_eq_ok hx]
        split at h
        · rename_i hfault
          cases h
          exact ih hes hfault
        · cases h

/-- A function that reports no unbound variable passes on the one of its operands. -/
theorem evalAll_of_applyTo {f : Function} (hf : f.NeverUnbound) {args : List Expr} {name : String}
    (h : S.applyTo row f args = .error (.unbound name)) :
    S.evalAll row args = .error (.unbound name) := by
  rw [applyTo] at h
  split at h
  · exact absurd h (hf.apply_ne _ name)
  · rename_i hargs
    cases h
    exact hargs

/-- **The variable that is reported is the first one that is not bound**, if no function of the
expression reports one by itself. -/
theorem firstUnbound?_of_eval {name : String} (e : Expr) :
    (∀ op args, .call op args ∈ e.nodes → ∀ f, S.resolve op = some f → f.NeverUnbound) →
    S.eval row e = .error (.unbound name) → e.firstUnbound? row = some name := by
  induction e using Expr.inductionCalls with
  | symbol other =>
      intro _ h
      rw [eval] at h
      split at h
      · cases h
      · rename_i hnone
        cases h
        rw [Expr.firstUnbound?_symbol, Row.lacks, hnone]
        rfl
  | number value =>
      intro _ h
      rw [eval_number] at h
      cases h
  | absent =>
      intro _ h
      rw [eval_absent] at h
      cases h
  | call op args ih =>
      intro hfunctions h
      rw [Expr.firstUnbound?_call]
      cases hop : S.resolve op with
      | none =>
          rw [eval_call_of_resolve_eq_none hop] at h
          cases h
      | some f =>
          rw [eval_call_of_resolve hop] at h
          have hf := hfunctions op args (Expr.mem_nodes_self _) f hop
          refine findSome?_of_evalAll ?_ (evalAll_of_applyTo hf h)
          intro e he
          exact ih e he fun g ds hmem => hfunctions g ds (Expr.mem_nodes_of_mem he hmem)

end Scope

/-! ### Captured calls -/

namespace Closure

/-- A function that the evaluation of a captured call can reach: its own, or that of a call in its
arguments. -/
def Reaches (c : Closure) (f : Function) : Prop :=
  f = c.function ∨ ∃ op args, .call op args ∈ Expr.nodesAll c.args ∧ c.scope.resolve op = some f

/-- **The variable that a captured call reports as unbound is the first of its free variables that
the row does not bind**, if no function that it reaches reports one by itself; and where all of them
are bound, none is reported. -/
theorem evaluate_unbound (c : Closure)
    (hc : ∀ f, c.Reaches f → ∀ values name, f.body values ≠ .error (.unbound name)) (row : Row) :
    (∀ name, c.evaluate row = .error (.unbound name) →
      c.freeVariables.find? (fun x => (row.get? x).isNone) = some name) ∧
    ((∀ x ∈ c.freeVariables, ∃ value, row.get? x = some value) →
      ∀ name, c.evaluate row ≠ .error (.unbound name)) := by
  have hfirst : ∀ name, c.evaluate row = .error (.unbound name) →
      c.expr.firstUnbound? row = some name := by
    intro name h
    rw [expr, Expr.firstUnbound?_call]
    refine Scope.findSome?_of_evalAll ?_ (Scope.evalAll_of_applyTo (hc _ (.inl rfl)) h)
    intro e he
    refine Scope.firstUnbound?_of_eval e ?_
    intro op args hmem f hf
    refine hc f (.inr ⟨op, args, ?_, hf⟩)
    rw [Expr.nodesAll_eq_flatMap, List.mem_flatMap]
    exact ⟨e, he, hmem⟩
  refine ⟨hfirst, ?_⟩
  intro hbound name h
  have hnone : c.expr.firstUnbound? row = none := Expr.firstUnbound?_eq_none_iff.mpr hbound
  rw [hfirst name h] at hnone
  cases hnone

/-- The built-in call `log(a - exp(b))`. -/
def logOfDifference : Closure where
  function := .unary "log" Float.log
  args := [.call "-" [.symbol "a", .call "exp" [.symbol "b"]]]
  scope := .builtins

theorem neverUnbound_logOfDifference {f : Function} (hf : logOfDifference.Reaches f) :
    f.NeverUnbound := by
  obtain rfl | ⟨op, args, -, hresolve⟩ := hf
  · have hlog : Scope.builtins.resolve "log" = some logOfDifference.function := rfl
    exact Builtin.neverUnbound hlog
  · exact Builtin.neverUnbound hresolve

/-- A row with `a` alone leaves `b` unbound in `log(a - exp(b))`, and a row with both leaves
nothing. -/
theorem evaluate_unbound_logOfDifference :
    logOfDifference.evaluate (.ofPairs [("a", 1)]) = .error (.unbound "b") ∧
      logOfDifference.freeVariables.find?
        (fun x => ((Row.ofPairs [("a", 1)]).get? x).isNone) = some "b" ∧
      (∀ x ∈ logOfDifference.freeVariables, ∃ value,
        (Row.ofPairs [("a", 1), ("b", 2)]).get? x = some value) ∧
      ∀ name,
        logOfDifference.evaluate (.ofPairs [("a", 1), ("b", 2)]) ≠ .error (.unbound name) := by
  have hreaches : ∀ f, logOfDifference.Reaches f → f.NeverUnbound :=
    fun _ => neverUnbound_logOfDifference
  have hfault : logOfDifference.evaluate (.ofPairs [("a", 1)]) = .error (.unbound "b") := rfl
  have hbound : ∀ x ∈ logOfDifference.freeVariables, ∃ value,
      (Row.ofPairs [("a", 1), ("b", 2)]).get? x = some value := by
    have hvariables : logOfDifference.freeVariables = ["a", "b"] := by decide
    rw [hvariables]
    exact List.forall_mem_cons.mpr ⟨⟨1, rfl⟩, List.forall_mem_singleton.mpr ⟨2, rfl⟩⟩
  exact ⟨hfault, (evaluate_unbound logOfDifference hreaches _).1 "b" hfault, hbound,
    (evaluate_unbound logOfDifference hreaches _).2 hbound⟩

end Closure

end ModelFormula
