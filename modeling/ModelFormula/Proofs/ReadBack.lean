import ModelFormula.Proofs.CapturedCalls

/-!
# Reading terms back

Nothing of an expression is lost in its term.  The operator of a captured call is the name of the
function that the scope had for it, and a function is found under its own name only.

* `Term.readBack` — a term as an expression again, the arguments of captured calls read back from
  their terms;
* `Term.readBack_of_lowers` — **reading a term back gives the expression it was made of**;
* `Term.lowered_of_captured` — the terms that a captured call holds are those of its arguments, one
  by one;
* `Term.readBack_of_ofExpr` — the same at every captured call, and so no two expressions have the
  same term.
-/

set_option autoImplicit false

namespace ModelFormula

namespace Term

variable {S : Scope}

/-! ### Reading back -/

mutual
/-- A term as an expression.  A captured call is read back from the name of its function and the
terms of its arguments, not from the call that it keeps. -/
def readBack : Term → Expr
  | .column name => .symbol name
  | .constant value => .number value
  | .absent => .absent
  | .op o args => .call o.symbol (readBackAll args)
  | .captured call lowered => .call call.function.name (readBackAll lowered)

/-- The terms of a list as expressions. -/
def readBackAll : List Term → List Expr
  | [] => []
  | t :: ts => readBack t :: readBackAll ts
end

theorem readBackAll_eq_map (ts : List Term) : readBackAll ts = ts.map readBack := by
  induction ts with
  | nil => rw [readBackAll, List.map_nil]
  | cons t ts ih => rw [readBackAll, ih, List.map_cons]

theorem readBackAll_eq {es : List Expr} {ts : List Term}
    (h : List.Forall₂ (fun e t => t.readBack = e) es ts) : readBackAll ts = es := by
  rw [readBackAll_eq_map, map_eq_of_forall₂ h fun _ _ ht => ht, List.map_id']

/-- **Reading a term back gives the expression it was made of.** -/
theorem readBack_of_lowers {e : Expr} {t : Term} (h : Lowers S e t) : t.readBack = e := by
  refine Lowers.induction ?symbol ?number ?absent ?op ?captured h
  case symbol =>
    intro name
    rw [readBack]
  case number =>
    intro value
    rw [readBack]
  case absent =>
    rw [readBack]
  case op =>
    intro o args ts ih
    rw [readBack, readBackAll_eq ih]
  case captured =>
    intro f args ts _ _ _ ih
    rw [readBack, readBackAll_eq ih]

/-! ### Captured calls -/

/-- The terms that a captured call holds are those of its arguments, one by one. -/
theorem lowered_of_captured {c : CapturedCall} (h : Lowers S c.closure.expr c.term) :
    List.Forall₂ (Lowers S) c.closure.args c.lowered := by
  obtain ⟨ts, hts, hcases⟩ := cases_of_lowers_call h
  rcases hcases with ⟨o, -, ht⟩ | ⟨f, -, -, -, ht⟩
  · cases ht
  · rw [CapturedCall.term, captured.injEq] at ht
    rw [ht.2]
    exact hts

/-- The terms that a call captured at any depth holds are made as the whole term is. -/
theorem ofExpr_of_captured {e : Expr} {t : Term} (h : ofExpr S e = .ok t) {c : CapturedCall}
    (hc : c ∈ t.capturedCalls) :
    List.Forall₂ (fun arg u => ofExpr S arg = .ok u) c.closure.args c.lowered := by
  obtain ⟨hmem, hlowers⟩ := lowers_of_captured (lowers_of_ofExpr h) c hc
  refine forall₂_of_lowers (lowered_of_captured hlowers) ?_
  intro arg harg u hu
  have hbelow : arg ∈ e.nodes :=
    Expr.mem_nodes_trans (Expr.mem_nodes_of_mem harg (Expr.mem_nodes_self arg)) hmem
  have hescape := Expr.firstEscape?_eq_none_of_mem_nodes hbelow (firstEscape?_of_ofExpr h)
  rw [ofExpr_of_unescaped hescape]
  exact hu

/-- **Nothing of an expression is lost in its term**: the term reads back as the expression, and the
calls captured in it read back as the ordinary calls of the expression, in their order.  A captured
call reads back as the call that it keeps, and holds the terms of the arguments of this call.  So no
two expressions have the same term. -/
theorem readBack_of_ofExpr (S : Scope) :
    (∀ e t, ofExpr S e = .ok t → t.readBack = e ∧
      t.capturedCalls.map (fun c => c.term.readBack) = e.nodes.filter Expr.isOrdinary ∧
      ∀ c ∈ t.capturedCalls, c.term.readBack = c.closure.expr ∧
        List.Forall₂ (fun arg u => ofExpr S arg = .ok u) c.closure.args c.lowered) ∧
      ∀ e e' t, ofExpr S e = .ok t → ofExpr S e' = .ok t → e = e' := by
  have hread : ∀ e t, ofExpr S e = .ok t → t.readBack = e := fun e t ht =>
    readBack_of_lowers (lowers_of_ofExpr ht)
  constructor
  · intro e t ht
    have hlowers := lowers_of_ofExpr ht
    have hkept : ∀ c ∈ t.capturedCalls, c.term.readBack = c.closure.expr := fun c hc =>
      readBack_of_lowers (lowers_of_captured hlowers c hc).2
    refine ⟨hread e t ht, ?_, fun c hc => ⟨hkept c hc, ofExpr_of_captured ht hc⟩⟩
    rw [List.map_congr_left hkept, map_expr_capturedCalls hlowers]
  · intro e e' t ht ht'
    rw [← hread e t ht, hread e' t ht']

/-- The term of `log(a - exp(b)) + c` reads back, so do the three calls captured in it, and it is
the term of nothing else. -/
theorem readBack_nestedCalls : ∃ t, ofExpr .builtins nestedCalls = .ok t ∧
    t.readBack = nestedCalls ∧
    t.capturedCalls.map (fun c => c.term.readBack) =
      [.call "log" [.call "-" [.symbol "a", .call "exp" [.symbol "b"]]],
        .call "-" [.symbol "a", .call "exp" [.symbol "b"]], .call "exp" [.symbol "b"]] ∧
    (∀ c ∈ t.capturedCalls, c.term.readBack = c.closure.expr ∧
      List.Forall₂ (fun arg u => ofExpr .builtins arg = .ok u) c.closure.args c.lowered) ∧
    ∀ e, ofExpr .builtins e = .ok t → e = nestedCalls := by
  obtain ⟨hread, hinjective⟩ := readBack_of_ofExpr .builtins
  obtain ⟨t, ht⟩ : ∃ t, ofExpr .builtins nestedCalls = .ok t := ⟨_, rfl⟩
  obtain ⟨hwhole, hcalls, hkept⟩ := hread nestedCalls t ht
  refine ⟨t, ht, hwhole, ?_, hkept, fun e he => hinjective e nestedCalls t he ht⟩
  rw [hcalls]
  rfl

end Term

end ModelFormula
