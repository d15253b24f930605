import ModelFormula.Scope.Builtin
import ModelFormula.Term.Lowering
import Mathlib.Data.List.Nodup

/-!
# What the value of a call depends on

The value of an expression depends on the values of its variables and on nothing else of a row, and
the list of the variables of a call names each of them once.

* `Scope.eval_congr` — rows that agree on the variables of an expression give it the same outcome;
* `Scope.exists_get?_of_eval` — where an expression has a value, its variables are bound;
* `Row.get?_ofPairs_zip` — the row of a list of names and a list of values;
* `Closure.evaluate_of_freeVariables` — **a captured call depends on its free variables only, and
  giving it their values by place is giving them by name.**
-/

set_option autoImplicit false

namespace ModelFormula

/-! ### Free variables -/

theorem nodup_eraseDups {α : Type} [BEq α] [LawfulBEq α] (xs : List α) : xs.eraseDups.Nodup := by
  cases xs with
  | nil => simp
  | cons x xs =>
      rw [List.eraseDups_cons, List.nodup_cons, List.mem_eraseDups]
      exact ⟨by simp, nodup_eraseDups _⟩
-- what is left after the first element and its copies is no tail of the list, but shorter
termination_by xs.length
decreasing_by
  have hfilter := List.length_filter_le (fun y => !y == x) xs
  rw [List.length_cons]
  omega

namespace Expr

theorem mem_freeVariables_iff {e : Expr} {name : String} :
    name ∈ e.freeVariables ↔ .symbol name ∈ e.nodes := by
  rw [freeVariables, List.mem_eraseDups, List.mem_filterMap]
  constructor
  · rintro ⟨d, hd, hname⟩
    cases d with
    | symbol other =>
        cases hname
        exact hd
    | call op args => cases hname
    | number value => cases hname
    | absent => cases hname
  · intro h
    exact ⟨.symbol name, h, rfl⟩

/-- The variables of a subexpression are variables of the whole. -/
theorem mem_freeVariables_of_mem_nodes {d e : Expr} {name : String} (hd : d ∈ e.nodes)
    (h : name ∈ d.freeVariables) : name ∈ e.freeVariables := by
  rw [mem_freeVariables_iff] at h ⊢
  exact mem_nodes_trans h hd

/-- The variables of an operand are variables of the call. -/
theorem mem_freeVariables_call {op : String} {args : List Expr} {e : Expr} {name : String}
    (he : e ∈ args) (h : name ∈ e.freeVariables) : name ∈ (call op args).freeVariables :=
  mem_freeVariables_of_mem_nodes (mem_nodes_of_mem he (mem_nodes_self e)) h

/-- Every variable of a call is one of an operand. -/
theorem exists_mem_of_mem_freeVariables {op : String} {args : List Expr} {name : String}
    (h : name ∈ (call op args).freeVariables) : ∃ e ∈ args, name ∈ e.freeVariables := by
  rw [mem_freeVariables_iff] at h
  rcases mem_nodes_call_iff.mp h with h | ⟨e, he, hname⟩
  · cases h
  · exact ⟨e, he, mem_freeVariables_iff.mpr hname⟩

end Expr

/-! ### Evaluation -/

namespace Scope

variable {S T : Scope} {r s : Row}

theorem evalAll_map_congr {g h : Expr → Expr} {es : List Expr}
    (hes : ∀ e ∈ es, S.eval r (g e) = T.eval s (h e)) :
    S.evalAll r (es.map g) = T.evalAll s (es.map h) := by
  induction es with
  | nil => rw [List.map_nil, List.map_nil, evalAll_nil, evalAll_nil]
  | cons e es ih =>
      obtain ⟨he, hothers⟩ := List.forall_mem_cons.mp hes
      rw [List.map_cons, List.map_cons, evalAll, evalAll, he, ih hothers]

theorem evalAll_congr {es : List Expr} (h : ∀ e ∈ es, S.eval r e = T.eval s e) :
    S.evalAll r es = T.evalAll s es := by
  have hmap := evalAll_map_congr (g := id) (h := id) h
  rwa [List.map_id] at hmap

theorem applyTo_congr (f : Function) {args : List Expr}
    (h : ∀ e ∈ args, S.eval r e = T.eval s e) : S.applyTo r f args = T.applyTo s f args := by
  rw [applyTo, applyTo, evalAll_congr h]

/-- Rows that agree on the variables of an expression give it the same value, or the same error. -/
theorem eval_congr (e : Expr) :
    (∀ name ∈ e.freeVariables, r.get? name = s.get? name) → S.eval r e = S.eval s e := by
  induction e using Expr.inductionCalls with
  | symbol name =>
      intro h
      have hname := h name (Expr.mem_freeVariables_iff.mpr (Expr.mem_nodes_self _))
      rw [eval, eval, hname]
  | number value =>
      intro _
      rw [eval_number, eval_number]
  | absent =>
      intro _
      rw [eval_absent, eval_absent]
  | call op args ih =>
      intro h
      have hargs : ∀ e ∈ args, S.eval r e = S.eval s e := fun e he =>
        ih e he fun name hname => h name (Expr.mem_freeVariables_call he hname)
      cases hop : S.resolve op with
      | none => rw [eval_call_of_resolve_eq_none hop, eval_call_of_resolve_eq_none hop]
      | some f => rw [eval_call_of_resolve hop, eval_call_of_resolve hop, applyTo_congr f hargs]

/-- Where a list of operands has values, every operand has one. -/
theorem exists_eval_of_evalAll {es : List Expr} {values : List Float}
    (h : S.evalAll r es = .ok values) : ∀ e ∈ es, ∃ value, S.eval r e = .ok value := by
  induction es generalizing values with
  | nil => simp
  | cons e es ih =>
      rw [evalAll] at h
      split at h
      · cases h
      · rename_i value he
        split at h
        · cases h
        · rename_i others hes
          exact List.forall_mem_cons.mpr ⟨⟨value, he⟩, ih hes⟩

theorem exists_eval_of_applyTo {f : Function} {args : List Expr} {value : Float}
    (h : S.applyTo r f args = .ok value) : ∀ e ∈ args, ∃ x, S.eval r e = .ok x := by
  rw [applyTo] at h
  split at h
  · rename_i values hvalues
    exact exists_eval_of_evalAll hvalues
  · cases h

/-- Where an expression has a value, all its variables are bound. -/
theorem exists_get?_of_eval (e : Expr) : ∀ value, S.eval r e = .ok value →
    ∀ name ∈ e.freeVariables, ∃ x, r.get? name = some x := by
  induction e using Expr.inductionCalls with
  | symbol other =>
      intro value h name hname
      rw [Expr.mem_freeVariables_iff, Expr.nodes_symbol, List.mem_singleton] at hname
      cases hname
      rw [eval] at h
      split at h
      · rename_i x hx
        exact ⟨x, hx⟩
      · cases h
  | number x =>
      intro value _ name hname
      rw [Expr.mem_freeVariables_iff, Expr.nodes_number, List.mem_singleton] at hname
      cases hname
  | absent =>
      intro value h
      rw [eval_absent] at h
      cases h
  | call op args ih =>
      intro value h name hname
      obtain ⟨e, he, hname⟩ := Expr.exists_mem_of_mem_freeVariables hname
      cases hop : S.resolve op with
      | none =>
          rw [eval_call_of_resolve_eq_none hop] at h
          cases h
      | some f =>
          rw [eval_call_of_resolve hop] at h
          obtain ⟨x, hx⟩ := exists_eval_of_applyTo h e he
          exact ih e he x hx name hname

end Scope

/-! ### Rows of names and values -/

theorem lookup_of_mem {α : Type} {pairs : List (String × α)} {name : String} {x : α}
    (hnodup : (pairs.map Prod.fst).Nodup) (h : (name, x) ∈ pairs) :
    pairs.lookup name = some x := by
  induction pairs with
  | nil => cases h
  | cons p ps ih =>
      obtain ⟨other, y⟩ := p
      rw [List.map_cons, List.nodup_cons] at hnodup
      rcases List.mem_cons.mp h with heq | hmem
      · cases heq
        exact List.lookup_cons_self
      · have hne : name ≠ other := by
          rintro rfl
          exact hnodup.1 (List.mem_map.mpr ⟨(name, x), hmem, rfl⟩)
        rw [List.lookup_cons, beq_eq_false_iff_ne.mpr hne]
        exact ih hnodup.2 hmem

/-- The row of names and values binds every name to the value at its place, if no name occurs
twice. -/
theorem Row.get?_ofPairs_zip {names : List String} {values : List Float} (hnodup : names.Nodup)
    (hlen : values.length = names.length) {i : Nat} (hi : i < names.length)
    (hv : i < values.length) :
    (Row.ofPairs (names.zip values)).get? names[i] = some values[i] := by
  have hnames : ((names.zip values).reverse.map Prod.fst).Nodup := by
    rw [List.map_reverse, List.map_fst_zip (Nat.le_of_eq hlen.symm), List.nodup_reverse]
    exact hnodup
  refine lookup_of_mem hnames (List.mem_reverse.mpr ?_)
  have hi' : i < (names.zip values).length := by
    rw [List.length_zip]
    omega
  rw [← List.getElem_zip (h := hi')]
  exact List.getElem_mem hi'

/-! ### Captured calls -/

namespace Closure

theorem mem_freeVariables {c : Closure} {e : Expr} {name : String} (he : e ∈ c.args)
    (h : name ∈ e.freeVariables) : name ∈ c.freeVariables :=
  Expr.mem_freeVariables_call he h

theorem evaluate_congr {c : Closure} {r s : Row}
    (h : ∀ name ∈ c.freeVariables, r.get? name = s.get? name) : c.evaluate r = c.evaluate s :=
  Scope.applyTo_congr c.function fun e he =>
    Scope.eval_congr e fun name hname => h name (mem_freeVariables he hname)

theorem nodup_freeVariables (c : Closure) : c.freeVariables.Nodup := nodup_eraseDups _

theorem exists_get?_of_evaluate {c : Closure} {row : Row} {value : Float}
    (h : c.evaluate row = .ok value) : ∀ name ∈ c.freeVariables, ∃ x, row.get? name = some x := by
  intro name hname
  obtain ⟨e, he, hname⟩ := Expr.exists_mem_of_mem_freeVariables hname
  obtain ⟨x, hx⟩ := Scope.exists_eval_of_applyTo h e he
  exact Scope.exists_get?_of_eval e x hx name hname

/-- Values by place are the values of a row that binds the free variables to them. -/
theorem evaluateAt_eq_evaluate {c : Closure} {values : List Float} {row : Row}
    (hlen : values.length = c.freeVariables.length)
    (hrow : ∀ i (hi : i < c.freeVariables.length) (hv : i < values.length),
      row.get? c.freeVariables[i] = some values[i]) : c.evaluateAt values = c.evaluate row := by
  rw [evaluateAt, if_pos hlen]
  refine evaluate_congr ?_
  intro name hname
  obtain ⟨i, hi, rfl⟩ := List.mem_iff_getElem.mp hname
  have hv : i < values.length := by omega
  rw [Row.get?_ofPairs_zip c.nodup_freeVariables hlen hi hv, hrow i hi hv]

/-- A captured call has the free variables of the expression that it was captured from. -/
theorem freeVariables_of_capture {S : Scope} {e : Expr} {ts : List Term} {d : CapturedCall}
    (h : CapturedCall.capture S e ts = .ok d) : d.closure.freeVariables = e.freeVariables := by
  obtain ⟨op, args, f, rfl, hf, -, rfl⟩ := CapturedCall.eq_of_capture h
  rw [freeVariables, expr, Scope.name_of_resolve hf]

/-- **A captured call depends on a row through its free variables only**, which are those of the
expression it was captured from, each once.  Values given by place are those of any row that binds
the free variables to them; another number of values is refused, whatever function and scope are
behind the call; and a call that has a value has all its variables bound. -/
theorem evaluate_of_freeVariables (c : Closure) :
    (∀ S e ts d, CapturedCall.capture S e ts = .ok d → d.closure = c →
      c.freeVariables = e.freeVariables) ∧
    c.freeVariables.Nodup ∧
    (∀ r s : Row, (∀ name ∈ c.freeVariables, r.get? name = s.get? name) →
      c.evaluate r = c.evaluate s) ∧
    (∀ (values : List Float) (row : Row), values.length = c.freeVariables.length →
      (∀ i (hi : i < c.freeVariables.length) (hv : i < values.length),
        row.get? c.freeVariables[i] = some values[i]) →
      c.evaluateAt values = c.evaluate row) ∧
    (∀ values : List Float, values.length ≠ c.freeVariables.length →
      ∀ d : Closure, d.expr = c.expr →
        d.evaluateAt values = .error (.bindings c.freeVariables values.length)) ∧
    ∀ row value, c.evaluate row = .ok value →
      ∀ name ∈ c.freeVariables, ∃ x, row.get? name = some x := by
  refine ⟨?_, c.nodup_freeVariables, ?_, ?_, ?_, ?_⟩
  · intro S e ts d hd hc
    rw [← hc]
    exact freeVariables_of_capture hd
  · intro r s h
    exact evaluate_congr h
  · intro values row hlen hrow
    exact evaluateAt_eq_evaluate hlen hrow
  · intro values hlen d hd
    have hvariables : d.freeVariables = c.freeVariables := by rw [freeVariables, hd, freeVariables]
    rw [evaluateAt, hvariables, if_neg hlen]
  · intro row value h
    exact exists_get?_of_evaluate h

/-- The captured call of `a - b`. -/
def difference : Closure := ⟨Builtin.minus, [.symbol "a", .symbol "b"], .builtins⟩

/-- The call of `a - b` takes values of `a` and `b` by name, among others, or by place, and refuses
a single value. -/
theorem evaluate_difference :
    difference.freeVariables = (Expr.call "-" [.symbol "a", .symbol "b"]).freeVariables ∧
      difference.evaluate (.ofPairs [("a", 3.0), ("b", 1.0)]) =
        difference.evaluate (.ofPairs [("b", 1.0), ("c", 7.0), ("a", 3.0)]) ∧
      difference.evaluateAt [3.0, 1.0] =
        difference.evaluate (.ofPairs [("b", 1.0), ("c", 7.0), ("a", 3.0)]) ∧
      difference.evaluateAt [3.0] = .error (.bindings ["a", "b"] 1) ∧
      ∃ x, (Row.ofPairs [("a", 3.0), ("b", 1.0)]).get? "b" = some x := by
  have hvariables : difference.freeVariables = ["a", "b"] := rfl
  obtain ⟨hcaptured, -, hcongr, hplaces, hrefused, hbound⟩ := evaluate_of_freeVariables difference
  refine ⟨?_, ?_, ?_, ?_, ?_⟩
  · exact hcaptured .builtins (.call "-" [.symbol "a", .symbol "b"]) [.column "a", .column "b"]
      ⟨difference, [.column "a", .column "b"]⟩ rfl rfl
  · refine hcongr _ _ ?_
    rw [hvariables]
    exact List.forall_mem_cons.mpr ⟨rfl, List.forall_mem_singleton.mpr rfl⟩
  · refine hplaces [3.0, 1.0] _ rfl ?_
    intro i hi hv
    match i, hi, hv with
    | 0, _, _ => rfl
    | 1, _, _ => rfl
  · exact hrefused [3.0] (by decide) difference rfl
  · exact hbound _ (3.0 - 1.0) rfl "b" (by rw [hvariables]; simp)

end Closure

end ModelFormula
