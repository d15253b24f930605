import ModelFormula.Proofs.Agreement
import ModelFormula.Proofs.CapturedCalls
import ModelFormula.Proofs.Coincidence

/-!
# Substitution

An expression may be put in the place of a variable.  Where it has a value, this has the same
outcome as binding the variable to the value; so a call inside another one can be computed first,
and its value given to the outer one as a column.

* `Expr.subst` — an expression with another one in the place of a variable;
* `Expr.exists_subst_eq` — **what is in an expression can be taken out of it everywhere**, with a
  new variable in its place;
* `Scope.eval_subst` — substituting an expression is binding its value;
* `Scope.substitution_law` — the same for expressions and for captured calls.
-/

set_option autoImplicit false

namespace ModelFormula

/-! ### Expressions -/

namespace Expr

mutual
/-- The expression with another one in the place of a variable, wherever that occurs. -/
def subst : Expr → String → Expr → Expr
  | .call op args, x, m => .call op (substAll args x m)
  | .symbol name, x, m => if name = x then m else .symbol name
  | .number value, _, _ => .number value
  | .absent, _, _ => .absent

/-- Each of a list of expressions with another one in the place of a variable. -/
def substAll : List Expr → String → Expr → List Expr
  | [], _, _ => []
  | e :: es, x, m => subst e x m :: substAll es x m
end

variable {x : String} {m : Expr}

theorem substAll_eq_map (es : List Expr) : substAll es x m = es.map fun e => e.subst x m := by
  induction es with
  | nil => rw [substAll, List.map_nil]
  | cons e es ih => rw [substAll, List.map_cons, ih]

@[simp] theorem subst_call (op : String) (args : List Expr) :
    (call op args).subst x m = call op (args.map fun e => e.subst x m) := by
  rw [subst, substAll_eq_map]

theorem subst_symbol (name : String) :
    (symbol name).subst x m = if name = x then m else symbol name := by rw [subst]

@[simp] theorem subst_symbol_self : (symbol x).subst x m = m := by rw [subst_symbol, if_pos rfl]

theorem subst_symbol_of_ne {name : String} (h : name ≠ x) :
    (symbol name).subst x m = symbol name := by rw [subst_symbol, if_neg h]

@[simp] theorem subst_number (value : Float) : (number value).subst x m = number value := by
  rw [subst]

@[simp] theorem subst_absent : absent.subst x m = absent := by rw [subst]

theorem ne_of_not_mem_freeVariables_symbol {name : String}
    (h : x ∉ (symbol name).freeVariables) : name ≠ x := by
  rintro rfl
  exact h (mem_freeVariables_iff.mpr (mem_nodes_self _))

/-- An expression without the variable stays as it is. -/
theorem subst_of_not_mem_freeVariables (e : Expr) : x ∉ e.freeVariables → e.subst x m = e := by
  induction e using inductionCalls with
  | symbol name => exact fun h => subst_symbol_of_ne (ne_of_not_mem_freeVariables_symbol h)
  | number value => exact fun _ => subst_number value
  | absent => exact fun _ => subst_absent
  | call op args ih =>
      intro h
      have hargs : ∀ e ∈ args, e.subst x m = e := fun e he =>
        ih e he fun hx => h (mem_freeVariables_call he hx)
      rw [subst_call, List.map_congr_left hargs, List.map_id']

/-- The whole of an expression is taken out of it by the variable alone. -/
theorem exists_subst_eq_self {d : Expr} (hd : x ∉ d.freeVariables) :
    ∃ e' : Expr, e'.subst x d = d ∧ d ∉ e'.nodes := by
  refine ⟨symbol x, subst_symbol_self, ?_⟩
  rw [nodes_symbol, List.mem_singleton]
  rintro rfl
  exact hd (mem_freeVariables_iff.mpr (mem_nodes_self _))

theorem exists_subst_eq_of_nodes {d e : Expr} (hd : x ∉ d.freeVariables)
    (he : x ∉ e.freeVariables) (hnodes : e.nodes = [e]) :
    ∃ e' : Expr, e'.subst x d = e ∧ d ∉ e'.nodes := by
  by_cases hde : d = e
  · rw [← hde]
    exact exists_subst_eq_self hd
  · refine ⟨e, subst_of_not_mem_freeVariables e he, ?_⟩
    rw [hnodes, List.mem_singleton]
    exact hde

theorem exists_map_subst_eq {d : Expr} {es : List Expr}
    (h : ∀ e ∈ es, ∃ e' : Expr, e'.subst x d = e ∧ d ∉ e'.nodes) :
    ∃ es' : List Expr, es'.map (fun e => e.subst x d) = es ∧ d ∉ nodesAll es' := by
  induction es with
  | nil => exact ⟨[], rfl, by simp⟩
  | cons e es ih =>
      obtain ⟨⟨e', he, hd⟩, hes⟩ := List.forall_mem_cons.mp h
      obtain ⟨es', hes', hds⟩ := ih hes
      refine ⟨e' :: es', by rw [List.map_cons, he, hes'], ?_⟩
      rw [nodesAll_cons, List.mem_append]
      exact not_or.mpr ⟨hd, hds⟩

/-- **What is in an expression can be taken out of it everywhere**, with a variable in its place
that is in neither of them. -/
theorem exists_subst_eq {d : Expr} (hd : x ∉ d.freeVariables) (e : Expr) :
    x ∉ e.freeVariables → ∃ e' : Expr, e'.subst x d = e ∧ d ∉ e'.nodes := by
  induction e using inductionCalls with
  | symbol name => exact fun h => exists_subst_eq_of_nodes hd h (nodes_symbol name)
  | number value => exact fun h => exists_subst_eq_of_nodes hd h (nodes_number value)
  | absent => exact fun h => exists_subst_eq_of_nodes hd h nodes_absent
  | call op args ih =>
      intro h
      by_cases hcall : d = call op args
      · rw [← hcall]
        exact exists_subst_eq_self hd
      · obtain ⟨args', hargs, hnone⟩ := exists_map_subst_eq (x := x) (d := d) fun e he =>
          ih e he fun hx => h (mem_freeVariables_call he hx)
        have hsubst : (call op args').subst x d = call op args := by rw [subst_call, hargs]
        refine ⟨call op args', hsubst, ?_⟩
        rw [nodes_call, List.mem_cons]
        rintro (hself | hmem)
        · -- an expression without the variable would not have changed
          rw [← hself, subst_of_not_mem_freeVariables d hd] at hsubst
          exact hcall hsubst
        · exact hnone hmem

end Expr

/-! ### Evaluation -/

namespace Scope

variable {S : Scope} {row : Row} {x : String} {m : Expr} {v : Float}

theorem evalAll_map {r s : Row} {g : Expr → Expr} {es : List Expr}
    (h : ∀ e ∈ es, S.eval r (g e) = S.eval s e) : S.evalAll r (es.map g) = S.evalAll s es := by
  have hmap := evalAll_map_congr (h := id) h
  rwa [List.map_id] at hmap

theorem applyTo_map {r s : Row} {g : Expr → Expr} (f : Function) {args : List Expr}
    (h : ∀ e ∈ args, S.eval r (g e) = S.eval s e) :
    S.applyTo r f (args.map g) = S.applyTo s f args := by
  rw [applyTo, applyTo, evalAll_map h]

/-- Substituting an expression that has a value is binding the variable to this value. -/
theorem eval_subst (h : S.eval row m = .ok v) (n : Expr) :
    S.eval row (n.subst x m) = S.eval (row.bind x v) n := by
  induction n using Expr.inductionCalls with
  | symbol name =>
      by_cases hname : name = x
      · rw [Expr.subst_symbol, if_pos hname, h, eval, Row.get?_bind, if_pos hname]
      · rw [Expr.subst_symbol, if_neg hname, eval, eval, Row.get?_bind, if_neg hname]
  | number value => rw [Expr.subst_number, eval_number, eval_number]
  | absent => rw [Expr.subst_absent, eval_absent, eval_absent]
  | call op args ih =>
      rw [Expr.subst_call]
      cases hop : S.resolve op with
      | none => rw [eval_call_of_resolve_eq_none hop, eval_call_of_resolve_eq_none hop]
      | some f => rw [eval_call_of_resolve hop, eval_call_of_resolve hop, applyTo_map f ih]

/-- **An expression may be evaluated first, and its value bound to the variable that it stands
for**: this gives the value, or the error, that the whole has.  So the value of a call inside a
captured call can be given to the outer one as a new column, in the place of all calls like it. -/
theorem substitution_law (S : Scope) :
    (∀ (n m : Expr) (x : String) (row : Row) (v : Float), S.eval row m = .ok v →
      S.eval row (n.subst x m) = S.eval (row.bind x v) n) ∧
    ∀ (e : Expr) (f : Formula), Formula.ofExpr S e = .ok f →
      ∀ outer ∈ f.capturedCalls, ∀ inner ∈ Term.capturedCallsAll outer.lowered,
        ∀ x ∉ outer.closure.freeVariables, ∃ args : List Expr,
          args.map (fun e => e.subst x inner.closure.expr) = outer.closure.args ∧
          inner.closure.expr ∉ Expr.nodesAll args ∧
          ∀ (row : Row) (v : Float), inner.closure.evaluate row = .ok v →
            outer.closure.evaluate row =
              ({ outer.closure with args := args } : Closure).evaluate (row.bind x v) := by
  refine ⟨fun n m x row v h => eval_subst h n, ?_⟩
  intro e f hf outer houter inner hinner x hx
  have hlowers := Formula.lowers_normalized hf
  obtain ⟨-, houterLowers⟩ := Term.lowers_of_captured hlowers outer houter
  have hmem : inner ∈ outer.term.capturedCalls := List.mem_cons_of_mem _ hinner
  obtain ⟨hnodes, -⟩ := Term.lowers_of_captured houterLowers inner hmem
  have hfresh : x ∉ inner.closure.expr.freeVariables :=
    fun h => hx (Expr.mem_freeVariables_of_mem_nodes hnodes h)
  obtain ⟨args, hargs, hnone⟩ := Expr.exists_map_subst_eq (x := x) (d := inner.closure.expr)
    fun d hd => Expr.exists_subst_eq hfresh d fun h => hx (Expr.mem_freeVariables_call hd h)
  refine ⟨args, hargs, hnone, ?_⟩
  intro row v hv
  rw [Term.evaluate_eq_eval houterLowers inner hmem] at hv
  have hscope := (Term.resolve_of_captured hlowers outer houter).1
  rw [Closure.evaluate, Closure.evaluate, hscope, ← hargs]
  exact applyTo_map _ fun d _ => eval_subst hv d

/-- The expression `y ~ exp(b) / (a - exp(b))`. -/
def sharedCall : Expr :=
  .call "~" [.symbol "y", .call "/" [.call "exp" [.symbol "b"],
    .call "-" [.symbol "a", .call "exp" [.symbol "b"]]]]

/-- In `exp(b) / (a - exp(b))` the exponential is computed once and given to the quotient as the
column `z`. -/
theorem substitution_law_sharedCall : ∃ f, Formula.ofExpr .builtins sharedCall = .ok f ∧
    ∃ outer ∈ f.capturedCalls, ∃ inner ∈ Term.capturedCallsAll outer.lowered,
      inner.closure.expr = .call "exp" [.symbol "b"] ∧ "z" ∉ outer.closure.freeVariables ∧
      (∃ args : List Expr, inner.closure.expr ∉ Expr.nodesAll args ∧
        outer.closure.evaluate (.ofPairs [("a", 3), ("b", 0)]) =
          ({ outer.closure with args := args } : Closure).evaluate
            ((Row.ofPairs [("a", 3), ("b", 0)]).bind "z" (Float.exp 0))) ∧
      builtins.eval (.ofPairs [("a", 3), ("b", 0)]) ((Expr.call "/" [.symbol "z",
          .call "-" [.symbol "a", .symbol "z"]]).subst "z" (.call "exp" [.symbol "b"])) =
        builtins.eval ((Row.ofPairs [("a", 3), ("b", 0)]).bind "z" (Float.exp 0))
          (.call "/" [.symbol "z", .call "-" [.symbol "a", .symbol "z"]]) := by
  obtain ⟨heval, hcalls⟩ := substitution_law builtins
  refine ⟨_, rfl, _, List.mem_cons_self, _, List.mem_cons_self, rfl, by decide, ?_, ?_⟩
  · obtain ⟨args, -, hnone, hvalue⟩ := hcalls sharedCall _ rfl _ List.mem_cons_self _
      List.mem_cons_self "z" (by decide)
    exact ⟨args, hnone, hvalue _ _ rfl⟩
  · exact heval _ _ "z" _ _ rfl

end Scope

end ModelFormula
