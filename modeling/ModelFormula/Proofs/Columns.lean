import ModelFormula.Proofs.CapturedCalls
import ModelFormula.Proofs.Coincidence

/-!
# Columns and free variables

The columns of a term are collected from the term, where a captured call contributes the list it
keeps and the terms of its arguments are not looked at; the free variables of an expression are
collected from all of its subexpressions.

* `eraseDups_filter`, `eraseDups_append_filter` — keeping first appearances goes with `filter`, and
  of two lists joined it keeps those of the first, then what is new in the second;
* `Term.columns_of_lowers` — **the columns of a term are the variables of its expression**, in the
  same order;
* `Term.columns_op_cons` — the columns of an operator, operand by operand;
* `Term.columns_of_ofExpr` — the same for terms and formulas, with the variables of every captured
  call among the columns.
-/

set_option autoImplicit false

namespace ModelFormula

/-! ### First appearances -/

section FirstAppearances

variable {α : Type} [DecidableEq α]

/-- It does not matter whether repetitions are erased before or after a list is filtered. -/
theorem eraseDups_filter (p : α → Bool) (xs : List α) :
    (xs.filter p).eraseDups = xs.eraseDups.filter p := by
  cases xs with
  | nil => rfl
  | cons x xs =>
      have ih := eraseDups_filter p (xs.filter fun y => !y == x)
      rw [List.filter_filter] at ih
      rw [List.eraseDups_cons]
      by_cases hx : p x = true
      · rw [List.filter_cons_of_pos hx, List.filter_cons_of_pos hx, List.eraseDups_cons,
          List.filter_filter, ← ih]
        simp only [Bool.and_comm]
      · -- the copies of an element that is dropped are dropped with it
        have hcopies : (xs.filter fun y => p y && !y == x) = xs.filter p := by
          refine List.filter_congr fun y _ => ?_
          by_cases hyx : y = x
          · rw [hyx]
            simp [hx]
          · simp [hyx]
        rw [List.filter_cons_of_neg hx, List.filter_cons_of_neg hx, ← ih, hcopies]
termination_by xs.length
decreasing_by
  have hfilter := List.length_filter_le (fun y => !y == x) xs
  rw [List.length_cons]
  omega

theorem eraseDups_eraseDups (xs : List α) : xs.eraseDups.eraseDups = xs.eraseDups := by
  induction xs with
  | nil => rfl
  | cons x xs ih =>
      rw [List.eraseDups_cons, eraseDups_filter, List.eraseDups_cons, eraseDups_filter,
        eraseDups_filter, ih, List.filter_filter]
      simp only [Bool.and_self]

/-- Of two lists joined, the first appearances are those of the first list, then those of the
second that the first does not have. -/
theorem eraseDups_append_filter (xs ys : List α) :
    (xs ++ ys).eraseDups = xs.eraseDups ++ ys.eraseDups.filter (· ∉ xs.eraseDups) := by
  have hnew : ys.removeAll xs = ys.filter (· ∉ xs.eraseDups) := by
    refine List.filter_congr fun y _ => ?_
    simp
  rw [List.eraseDups_append, hnew, eraseDups_filter]

end FirstAppearances

namespace Term

variable {S : Scope}

/-! ### The columns of an operator -/

theorem columns_op_nil (o : FormulaOp) : (op o []).columns = [] := rfl

/-- The columns of an operator are those of its first operand, then those of the others that are
not among them. -/
theorem columns_op_cons (o : FormulaOp) (t : Term) (ts : List Term) :
    (op o (t :: ts)).columns = t.columns ++ (op o ts).columns.filter (· ∉ t.columns) := by
  rw [columns, columns, columns, reads, reads, readsAll]
  exact eraseDups_append_filter _ _

/-! ### Columns and variables -/

theorem readsAll_eraseDups {es : List Expr} {ts : List Term}
    (h : List.Forall₂ (fun e t => t.columns = e.freeVariables) es ts) :
    (readsAll ts).eraseDups = ((Expr.nodesAll es).filterMap Expr.symbol?).eraseDups := by
  induction h with
  | nil => rw [readsAll, Expr.nodesAll_nil, List.filterMap_nil]
  | cons he _ ih =>
      rw [columns, Expr.freeVariables] at he
      rw [readsAll, Expr.nodesAll_cons, List.filterMap_append, eraseDups_append_filter,
        eraseDups_append_filter, he, ih]

/-- **The columns of a term are the variables of its expression**, in the same order. -/
theorem columns_of_lowers {e : Expr} {t : Term} (h : Lowers S e t) :
    t.columns = e.freeVariables := by
  refine Lowers.induction ?symbol ?number ?absent ?op ?captured h
  case symbol =>
    intro name
    rw [columns, reads, Expr.freeVariables, Expr.nodes_symbol]
    rfl
  case number =>
    intro value
    rw [columns, reads, Expr.freeVariables, Expr.nodes_number]
    rfl
  case absent =>
    rw [columns, reads, Expr.freeVariables, Expr.nodes_absent]
    rfl
  case op =>
    intro o args ts ih
    rw [columns, reads, readsAll_eraseDups ih, Expr.freeVariables, Expr.nodes_call,
      List.filterMap_cons_none (Expr.symbol?_call o.symbol args)]
  case captured =>
    -- a captured call keeps the list of its variables, whatever its arguments became
    intro f args ts _ _ _ _
    rw [columns, reads, Closure.freeVariables, Expr.freeVariables, eraseDups_eraseDups]
    rfl

/-- The variables of a captured call are columns of the term that it is captured in. -/
theorem mem_columns_of_captured {e : Expr} {t : Term} (h : Lowers S e t) {c : CapturedCall}
    (hc : c ∈ t.capturedCalls) {name : String} (hname : name ∈ c.closure.freeVariables) :
    name ∈ t.columns := by
  rw [columns_of_lowers h]
  exact Expr.mem_freeVariables_of_mem_nodes (lowers_of_captured h c hc).1 hname

/-- **The columns of a term are the free variables of its expression**, each once and in the order
of first appearance.  Those of a formula are the columns of its left side, then those of its right
side that are not among them; they are the free variables of the whole, and so those of every
captured call are among them. -/
theorem columns_of_ofExpr (S : Scope) :
    (∀ e t, ofExpr S e = .ok t → t.columns = e.freeVariables ∧ t.columns.Nodup) ∧
      (∀ f : Formula, f.normalized.columns =
        f.lhs.columns ++ f.rhs.columns.filter (· ∉ f.lhs.columns)) ∧
      ∀ e f, Formula.ofExpr S e = .ok f → f.normalized.columns = f.expr.freeVariables ∧
        ∀ c ∈ f.capturedCalls, ∀ name ∈ c.closure.freeVariables, name ∈ f.normalized.columns := by
  refine ⟨?_, ?_, ?_⟩
  · intro e t ht
    exact ⟨columns_of_lowers (lowers_of_ofExpr ht), nodup_eraseDups t.reads⟩
  · intro f
    have hright : (op .tilde [f.rhs]).columns = f.rhs.columns := by
      rw [columns_op_cons, columns_op_nil, List.filter_nil, List.append_nil]
    rw [Formula.normalized, columns_op_cons, hright]
  · intro e f hf
    have hlowers := Formula.lowers_normalized hf
    obtain ⟨hexpr, -⟩ := Formula.lowers_of_ofExpr hf
    refine ⟨?_, ?_⟩
    · rw [hexpr]
      exact columns_of_lowers hlowers
    · intro c hc name hname
      exact mem_columns_of_captured hlowers hc hname

/-- The expression `b * y ~ log(a - exp(b)) + y`. -/
def repeatedNames : Expr :=
  .call "~" [.call "*" [.symbol "b", .symbol "y"],
    .call "+" [.call "log" [.call "-" [.symbol "a", .call "exp" [.symbol "b"]]], .symbol "y"]]

/-- In `b * y ~ log(a - exp(b)) + y` only `a` is new on the right, and both calls read `b`. -/
theorem columns_repeatedNames :
    (∃ t, ofExpr .builtins repeatedNames = .ok t ∧ t.columns = ["b", "y", "a"] ∧
      t.columns.Nodup) ∧
      ∃ f, Formula.ofExpr .builtins repeatedNames = .ok f ∧ f.lhs.columns = ["b", "y"] ∧
        f.rhs.columns = ["a", "b", "y"] ∧ f.normalized.columns = ["b", "y"] ++ ["a"] ∧
        ∀ c ∈ f.capturedCalls, ∀ name ∈ c.closure.freeVariables, name ∈ f.normalized.columns := by
  obtain ⟨hterm, hsides, hformula⟩ := columns_of_ofExpr .builtins
  obtain ⟨t, ht⟩ : ∃ t, ofExpr .builtins repeatedNames = .ok t := ⟨_, rfl⟩
  obtain ⟨f, hf, hlhs, hrhs⟩ : ∃ f, Formula.ofExpr .builtins repeatedNames = .ok f ∧
      f.lhs.columns = ["b", "y"] ∧ f.rhs.columns = ["a", "b", "y"] := ⟨_, rfl, rfl, rfl⟩
  refine ⟨⟨t, ht, (hterm _ t ht).1, (hterm _ t ht).2⟩, f, hf, hlhs, hrhs, ?_, (hformula _ f hf).2⟩
  rw [hsides, hlhs, hrhs]
  rfl

end Term

end ModelFormula
