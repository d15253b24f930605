import ModelFormula.Proofs.Faults

/-!
# Captured calls and ordinary calls

The captured calls of a term stand for the ordinary calls of the expression that the term was made
of, in the order in which those are written, and each has the value that the expression has.

* `Reproduces` — a captured call stands for a call: it was captured as this call, and it evaluates
  as the call does in the scope it was captured in;
* `Term.reproduces_of_lowers` — **the captured calls of a term stand for the ordinary calls of its
  expression, one for one**;
* `Term.lowers_of_captured` — a captured call, at any depth, is the term of a subexpression;
* `Term.resolve_of_captured` — it keeps the scope of the term, and the function found there;
* `Term.evaluate_eq_eval` — its outcome is that of the call as it was written;
* `Term.capturedCalls_of_ofExpr` — the same said of their texts, their functions and their values.
-/

set_option autoImplicit false

namespace ModelFormula

/-- A captured call stands for a call in a scope. -/
structure Reproduces (S : Scope) (d : Expr) (c : CapturedCall) : Prop where
  expr_eq : c.closure.expr = d
  evaluate_eq : ∀ row, c.closure.evaluate row = S.eval row d

namespace Reproduces

variable {S : Scope}

/-- A call stands for the call that it was captured from: the head that was looked up then is the
one that the evaluation looks up by its name. -/
theorem of_resolve {op : String} {f : Function} (h : S.resolve op = some f) (args : List Expr)
    (ts : List Term) : Reproduces S (.call op args) ⟨⟨f, args, S⟩, ts⟩ where
  expr_eq := by rw [Closure.expr, Scope.name_of_resolve h]
  evaluate_eq row := by rw [Closure.evaluate, Scope.eval_call_of_resolve h]

/-- The function of a captured call has the name of the operator of the call. -/
theorem head?_eq {d : Expr} {c : CapturedCall} (h : Reproduces S d c) :
    d.head? = some c.closure.function.name := by
  rw [← h.expr_eq, Closure.expr, Expr.head?_call]

end Reproduces

theorem map_eq_of_forall₂ {α β γ : Type} {R : α → β → Prop} {f : α → γ} {g : β → γ} {xs : List α}
    {ys : List β} (h : List.Forall₂ R xs ys) (hR : ∀ x y, R x y → g y = f x) :
    ys.map g = xs.map f := by
  induction h with
  | nil => rfl
  | cons hxy _ ih => rw [List.map_cons, List.map_cons, hR _ _ hxy, ih]

namespace Term

variable {S : Scope}

theorem reproducesAll {es : List Expr} {ts : List Term}
    (h : List.Forall₂ (fun e t =>
      List.Forall₂ (Reproduces S) (e.nodes.filter Expr.isOrdinary) t.capturedCalls) es ts) :
    List.Forall₂ (Reproduces S) ((Expr.nodesAll es).filter Expr.isOrdinary)
      (capturedCallsAll ts) := by
  induction h with
  | nil =>
      rw [Expr.nodesAll_nil, capturedCallsAll]
      exact .nil
  | cons he _ ih =>
      rw [Expr.nodesAll_cons, List.filter_append, capturedCallsAll]
      exact List.rel_append he ih

/-- **The captured calls of a term stand for the ordinary calls of its expression, one for one.** -/
theorem reproduces_of_lowers (e : Expr) : ∀ t, Lowers S e t →
    List.Forall₂ (Reproduces S) (e.nodes.filter Expr.isOrdinary) t.capturedCalls := by
  intro t ht
  refine Lowers.induction ?symbol ?number ?absent ?op ?captured ht
  case symbol =>
    intro name
    rw [capturedCalls, Expr.nodes_symbol]
    exact .nil
  case number =>
    intro value
    rw [capturedCalls, Expr.nodes_number]
    exact .nil
  case absent =>
    rw [capturedCalls, Expr.nodes_absent]
    exact .nil
  case op =>
    intro o args ts ih
    -- a formula operator is no ordinary call, and its term is no captured call
    have hspecial : ¬(Expr.call o.symbol args).isOrdinary = true := by
      simp [Expr.isOrdinary_call_iff, FormulaOp.ofSymbol?_symbol]
    rw [Expr.nodes_call, List.filter_cons_of_neg hspecial, capturedCalls]
    exact reproducesAll ih
  case captured =>
    intro f args ts hop hf _ ih
    have hordinary : (Expr.call f.name args).isOrdinary = true := Expr.isOrdinary_call_iff.mpr hop
    rw [Expr.nodes_call, List.filter_cons_of_pos hordinary, capturedCalls]
    exact .cons (Reproduces.of_resolve hf args ts) (reproducesAll ih)

theorem map_expr_capturedCalls {e : Expr} {t : Term} (h : Lowers S e t) :
    t.capturedCalls.map (fun c => c.closure.expr) = e.nodes.filter Expr.isOrdinary := by
  rw [map_eq_of_forall₂ (reproduces_of_lowers e t h) fun _ _ hcall => hcall.expr_eq, List.map_id']

theorem lowers_of_capturedAll {op : String} {es : List Expr} {ts : List Term}
    (h : List.Forall₂ (fun e t => ∀ c ∈ t.capturedCalls,
      c.closure.expr ∈ e.nodes ∧ Lowers S c.closure.expr c.term) es ts) :
    ∀ c ∈ capturedCallsAll ts,
      c.closure.expr ∈ (Expr.call op es).nodes ∧ Lowers S c.closure.expr c.term := by
  have hmem := (List.forall₂_and_left es ts).mpr ⟨fun e he => he, h⟩
  refine forall_mem_capturedCallsAll (forall_mem_of_forall₂ (hmem.imp ?_))
  rintro e t ⟨he, ht⟩ c hc
  exact ⟨Expr.mem_nodes_of_mem he (ht c hc).1, (ht c hc).2⟩

/-- A call captured at any depth is a subexpression of the expression that the term was made of, and
with the terms of its arguments it is the term of this subexpression. -/
theorem lowers_of_captured {e : Expr} {t : Term} (h : Lowers S e t) :
    ∀ c ∈ t.capturedCalls, c.closure.expr ∈ e.nodes ∧ Lowers S c.closure.expr c.term := by
  refine Lowers.induction ?symbol ?number ?absent ?op ?captured h
  case symbol =>
    intro name
    simp [capturedCalls]
  case number =>
    intro value
    simp [capturedCalls]
  case absent =>
    simp [capturedCalls]
  case op =>
    intro o args ts ih
    rw [capturedCalls]
    exact lowers_of_capturedAll ih
  case captured =>
    intro f args ts _ _ ht ih
    rw [capturedCalls]
    exact List.forall_mem_cons.mpr ⟨⟨Expr.mem_nodes_self _, ht⟩, lowers_of_capturedAll ih⟩

/-- A captured call keeps the scope of the term, and the function that this scope has under its
name. -/
theorem resolve_of_captured {e : Expr} {t : Term} (h : Lowers S e t) :
    ∀ c ∈ t.capturedCalls, c.closure.scope = S ∧
      S.resolve c.closure.function.name = some c.closure.function := by
  intro c hc
  obtain ⟨-, hcall⟩ := lowers_of_captured h c hc
  obtain ⟨ts, -, ⟨o, -, hterm⟩ | ⟨f, -, hf, -, hterm⟩⟩ := cases_of_lowers_call hcall
  · cases hterm
  · injection hterm with hclosure
    rw [hclosure]
    exact ⟨rfl, (Scope.name_of_resolve hf).symm ▸ hf⟩

/-- A captured call has for every row the outcome of the call as it was written. -/
theorem evaluate_eq_eval {e : Expr} {t : Term} (h : Lowers S e t) :
    ∀ c ∈ t.capturedCalls, ∀ row, c.closure.evaluate row = S.eval row c.closure.expr := by
  intro c hc row
  obtain ⟨hscope, hresolve⟩ := resolve_of_captured h c hc
  rw [Closure.evaluate, hscope, Closure.expr, Scope.eval_call_of_resolve hresolve]

/-- **The captured calls of a term are the ordinary calls of its expression in their order**: each
was captured as it is written, has a function of the name of its operator, and has for every row
the value, or the error, of the call in the scope. -/
theorem capturedCalls_of_ofExpr {S : Scope} {e : Expr} {t : Term} (h : ofExpr S e = .ok t) :
    t.capturedCalls.map (fun c => c.closure.expr) = e.nodes.filter Expr.isOrdinary ∧
      t.capturedCalls.map (fun c => some c.closure.function.name) =
        (e.nodes.filter Expr.isOrdinary).map Expr.head? ∧
      ∀ row, t.capturedCalls.map (fun c => c.closure.evaluate row) =
        (e.nodes.filter Expr.isOrdinary).map (S.eval row) := by
  have hcalls := reproduces_of_lowers e t (lowers_of_ofExpr h)
  refine ⟨?_, ?_, ?_⟩
  · rw [← List.map_id (e.nodes.filter Expr.isOrdinary)]
    exact map_eq_of_forall₂ hcalls fun d c hc => hc.expr_eq
  · exact map_eq_of_forall₂ hcalls fun d c hc => hc.head?_eq.symm
  · intro row
    exact map_eq_of_forall₂ hcalls fun d c hc => hc.evaluate_eq row

/-- The expression `log(a - exp(b)) + c`. -/
def nestedCalls : Expr :=
  .call "+" [.call "log" [.call "-" [.symbol "a", .call "exp" [.symbol "b"]]], .symbol "c"]

/-- In `log(a - exp(b)) + c` the logarithm, the difference and the exponential are captured. -/
theorem capturedCalls_nestedCalls : ∃ t, ofExpr .builtins nestedCalls = .ok t ∧
    t.capturedCalls.map (fun c => c.closure.expr) =
      [.call "log" [.call "-" [.symbol "a", .call "exp" [.symbol "b"]]],
        .call "-" [.symbol "a", .call "exp" [.symbol "b"]], .call "exp" [.symbol "b"]] ∧
    t.capturedCalls.map (fun c => some c.closure.function.name) =
      [some "log", some "-", some "exp"] ∧
    ∀ row, t.capturedCalls.map (fun c => c.closure.evaluate row) =
      [Scope.builtins.eval row (.call "log" [.call "-" [.symbol "a", .call "exp" [.symbol "b"]]]),
        Scope.builtins.eval row (.call "-" [.symbol "a", .call "exp" [.symbol "b"]]),
        Scope.builtins.eval row (.call "exp" [.symbol "b"])] := by
  have hordinary : nestedCalls.nodes.filter Expr.isOrdinary =
      [.call "log" [.call "-" [.symbol "a", .call "exp" [.symbol "b"]]],
        .call "-" [.symbol "a", .call "exp" [.symbol "b"]], .call "exp" [.symbol "b"]] := rfl
  obtain ⟨t, ht⟩ : ∃ t, ofExpr .builtins nestedCalls = .ok t := ⟨_, rfl⟩
  obtain ⟨hexprs, hnames, hvalues⟩ := capturedCalls_of_ofExpr ht
  rw [hordinary] at hexprs hnames
  refine ⟨t, ht, hexprs, hnames, ?_⟩
  intro row
  rw [hvalues row, hordinary]
  rfl

end Term

end ModelFormula
