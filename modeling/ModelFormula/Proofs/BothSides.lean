import ModelFormula.Proofs.Faults

/-!
# A formula and the term of its expression

A formula is built side by side, behind two checks on the whole; the term of its expression is built
in one go.  Both ways have the same outcome, whatever is wrong on either side.

* `Expr.TwoSided` — a call of `~` with two arguments;
* `Formula.ofExpr_of_not_twoSided` — nothing else makes a formula, **before anything in it is
  looked at**;
* `Term.exists_of_lower_eq_error` — what lowering reports names a head in a call of the expression;
* `Formula.ofExpr_sides` — without escape markers, the left side comes before the right one;
* `Formula.map_normalized_ofExpr` — **the term of a two-sided expression is that of its formula**,
  and so is the error if there is none;
* `Formula.normalized_outcome` — the same with the order in which faults are reported.
-/

set_option autoImplicit false

namespace ModelFormula

/-! ### The shape of the whole -/

namespace Expr

/-- A call of `~` with two arguments. -/
def TwoSided (e : Expr) : Prop := ∃ lhs rhs, e = .call "~" [lhs, rhs]

theorem requireSides_of_not_twoSided {e : Expr} (h : ¬e.TwoSided) :
    ∃ fault, e.requireSides = .error (.malformed e fault) := by
  cases e with
  | symbol name => exact ⟨.notTilde, rfl⟩
  | number value => exact ⟨.notTilde, rfl⟩
  | absent => exact ⟨.notTilde, rfl⟩
  | call op args =>
      unfold requireSides
      by_cases hop : op = "~"
      · subst hop
        refine ⟨.sideCount args.length, ?_⟩
        dsimp only
        rw [if_pos rfl]
        split
        · rename_i lhs rhs
          exact absurd ⟨lhs, rhs, rfl⟩ h
        · rfl
      · refine ⟨.notTilde, ?_⟩
        dsimp only
        rw [if_neg hop]

/-- A side of a formula is one of its subexpressions, so it has no escape marker of its own. -/
theorem firstEscape?_sides {lhs rhs : Expr} (h : (call "~" [lhs, rhs]).firstEscape? = none) :
    lhs.firstEscape? = none ∧ rhs.firstEscape? = none :=
  ⟨firstEscape?_eq_none_of_mem_nodes (mem_nodes_of_mem (by simp) lhs.mem_nodes_self) h,
    firstEscape?_eq_none_of_mem_nodes (mem_nodes_of_mem (by simp) rhs.mem_nodes_self) h⟩

end Expr

/-! ### Errors of lowering -/

/-- What lowering reports is about a call of the expression, and a head in it. -/
theorem Term.exists_of_lower_eq_error {S : Scope} {e : Expr} {err : FormulaError}
    (h : Term.lower S e = .error err) :
    ∃ c ∈ e.nodes, ∃ d ∈ c.nodes, ∃ name, d.head? = some name ∧ err = .unresolved name c := by
  have hreported := Term.eq_error_iff_reported.mp h
  rw [Term.reported_lower] at hreported
  obtain ⟨c, hc, hfault⟩ := List.exists_of_findSome?_eq_some hreported
  obtain ⟨op, args, name, rfl, hlacks, hname⟩ :=
    Scope.exists_lacks_of_not_resolves (S := S) (c := c) fun hresolves => by
      rw [Scope.fault?_eq_none_iff.mpr hresolves] at hfault
      cases hfault
  rw [hname, Option.some.injEq] at hfault
  refine ⟨_, e.postorder_perm.mem_iff.mp hc, ?_⟩
  rcases hlacks with ⟨-, rfl⟩ | ⟨-, before, after, hheads, -, -⟩
  · exact ⟨_, Expr.mem_nodes_self _, name, rfl, hfault.symm⟩
  · have hmem : name ∈ (Expr.nodesAll args).filterMap Expr.head? := by
      rw [hheads]
      simp
    obtain ⟨d, hd, hhead⟩ := List.mem_filterMap.mp hmem
    refine ⟨d, ?_, name, hhead, hfault.symm⟩
    rw [Expr.nodes_call]
    exact List.mem_cons_of_mem _ hd

/-- Lowering never finds fault with a shape. -/
theorem Term.lower_ne_malformed {S : Scope} {e d : Expr} {fault : ShapeFault} :
    Term.lower S e ≠ .error (.malformed d fault) := by
  intro h
  obtain ⟨c, -, _, -, name, -, herr⟩ := Term.exists_of_lower_eq_error h
  cases herr

/-- What has escape markers has no term. -/
theorem Term.ofExpr_of_escaped {S : Scope} {e d : Expr} (h : e.firstEscape? = some d) :
    Term.ofExpr S e = .error (.escaped d) := by
  rw [Term.ofExpr, Expr.requireUnescaped_eq, h]
  rfl

namespace Formula

variable {S : Scope}

/-! ### Outcomes -/

/-- What is not two-sided is no formula, whatever else is wrong with it. -/
theorem ofExpr_of_not_twoSided {e : Expr} (h : ¬e.TwoSided) :
    ∃ fault, ofExpr S e = .error (.malformed e fault) := by
  obtain ⟨fault, hfault⟩ := Expr.requireSides_of_not_twoSided h
  exact ⟨fault, by rw [ofExpr, hfault]⟩

/-- An escape marker on either side is reported before the sides are lowered. -/
theorem ofExpr_of_escaped {lhs rhs d : Expr}
    (h : (Expr.call "~" [lhs, rhs]).firstEscape? = some d) :
    ofExpr S (.call "~" [lhs, rhs]) = .error (.escaped d) := by
  have hsides : (Expr.call "~" [lhs, rhs]).requireSides = .ok (lhs, rhs) := rfl
  simp only [ofExpr, hsides, Expr.requireUnescaped_eq, h, Option.elim_some]

/-- Without escape markers, the left side is lowered before the right one. -/
theorem ofExpr_sides {lhs rhs : Expr} (h : (Expr.call "~" [lhs, rhs]).firstEscape? = none) :
    ofExpr S (.call "~" [lhs, rhs]) =
      match Term.ofExpr S lhs with
      | .error err => .error err
      | .ok l =>
        match Term.ofExpr S rhs with
        | .error err => .error err
        | .ok r => .ok ⟨.call "~" [lhs, rhs], l, r⟩ := by
  have hsides : (Expr.call "~" [lhs, rhs]).requireSides = .ok (lhs, rhs) := rfl
  cases hl : Term.ofExpr S lhs with
  | error err => simp only [ofExpr, hsides, Expr.requireUnescaped_eq, h, Option.elim_none, hl]
  | ok l =>
    cases hr : Term.ofExpr S rhs <;>
      simp only [ofExpr, hsides, Expr.requireUnescaped_eq, h, Option.elim_none, hl, hr]

/-- **The term of a two-sided expression is that of its formula**, and so is the error if there is
none. -/
theorem map_normalized_ofExpr (S : Scope) (lhs rhs : Expr) :
    (ofExpr S (.call "~" [lhs, rhs])).map normalized = Term.ofExpr S (.call "~" [lhs, rhs]) := by
  cases hescape : (Expr.call "~" [lhs, rhs]).firstEscape? with
  | some d =>
      rw [ofExpr_of_escaped hescape, Term.ofExpr_of_escaped hescape]
      rfl
  | none =>
      obtain ⟨hl, hr⟩ := Expr.firstEscape?_sides hescape
      have htilde : FormulaOp.ofSymbol? "~" = some .tilde := FormulaOp.ofSymbol?_symbol .tilde
      rw [ofExpr_sides hescape, Term.ofExpr_of_unescaped hescape, Term.ofExpr_of_unescaped hl,
        Term.ofExpr_of_unescaped hr, Term.lower]
      simp only [Term.lowerAll, htilde]
      cases Term.lower S lhs with
      | error err => rfl
      | ok l => cases Term.lower S rhs <;> rfl

/-- An expression is found malformed just if it is not two-sided. -/
theorem ofExpr_malformed_iff {e : Expr} :
    (∃ d fault, ofExpr S e = .error (.malformed d fault)) ↔ ¬e.TwoSided := by
  constructor
  · rintro ⟨d, fault, h⟩ ⟨lhs, rhs, rfl⟩
    have hterm : Term.ofExpr S (.call "~" [lhs, rhs]) = .error (.malformed d fault) := by
      rw [← map_normalized_ofExpr, h]
      rfl
    cases hescape : (Expr.call "~" [lhs, rhs]).firstEscape? with
    | some c =>
        rw [Term.ofExpr_of_escaped hescape] at hterm
        cases hterm
    | none =>
        rw [Term.ofExpr_of_unescaped hescape] at hterm
        exact Term.lower_ne_malformed hterm
  · intro h
    obtain ⟨fault, hfault⟩ := ofExpr_of_not_twoSided (S := S) h
    exact ⟨e, fault, hfault⟩

/-- **A formula is built just as the term of its expression is.**  An expression that is not
two-sided is malformed, whatever is in it.  Any other is a formula just if it has a term, which is
that of both sides joined again; and if it has none, the error is the same: that of an escape marker
on either side, then that of the left side, then that of the right one. -/
theorem normalized_outcome (S : Scope) (e : Expr) :
    ((∃ d fault, ofExpr S e = .error (.malformed d fault)) ↔ ¬e.TwoSided) ∧
      (e.TwoSided →
        ((∃ f, ofExpr S e = .ok f) ↔ ∃ t, Term.ofExpr S e = .ok t) ∧
        (∀ f, ofExpr S e = .ok f → Term.ofExpr S e = .ok f.normalized ∧ f.expr = e) ∧
        ∀ err, ofExpr S e = .error err ↔ Term.ofExpr S e = .error err) ∧
      ∀ lhs rhs, e = .call "~" [lhs, rhs] →
        (∀ d, e.firstEscape? = some d → ofExpr S e = .error (.escaped d)) ∧
        (e.firstEscape? = none →
          (∀ err, Term.ofExpr S lhs = .error err → ofExpr S e = .error err) ∧
          ∀ l err, Term.ofExpr S lhs = .ok l → Term.ofExpr S rhs = .error err →
            ofExpr S e = .error err) := by
  refine ⟨ofExpr_malformed_iff, ?_, ?_⟩
  · rintro ⟨lhs, rhs, rfl⟩
    rw [← map_normalized_ofExpr]
    cases hf : ofExpr S (.call "~" [lhs, rhs]) with
    | error err => simp [Except.map]
    | ok f =>
        have hexpr := (lowers_of_ofExpr hf).1
        simp [Except.map, hexpr]
  · rintro lhs rhs rfl
    refine ⟨fun d hd => ofExpr_of_escaped hd, ?_⟩
    intro hescape
    rw [ofExpr_sides hescape]
    constructor
    · intro err herr
      rw [herr]
    · intro l err hl herr
      rw [hl, herr]

/-- With nothing defined, `f(a) ~ $b` is refused for its right side and `f(a) ~ g(b)` for its left
one, and `f($a)` because it is no formula at all. -/
theorem normalized_outcome_faults :
    ofExpr .empty (.call "~" [.call "f" [.symbol "a"], .call "$" [.symbol "b"]]) =
        .error (.escaped (.call "$" [.symbol "b"])) ∧
      ofExpr .empty (.call "~" [.call "f" [.symbol "a"], .call "g" [.symbol "b"]]) =
        .error (.unresolved "f" (.call "f" [.symbol "a"])) ∧
      Term.ofExpr .empty (.call "~" [.call "f" [.symbol "a"], .call "g" [.symbol "b"]]) =
        .error (.unresolved "f" (.call "f" [.symbol "a"])) ∧
      ∃ d fault, ofExpr .empty (.call "f" [.call "$" [.symbol "a"]]) =
        .error (.malformed d fault) := by
  obtain ⟨-, -, hescaped⟩ := normalized_outcome .empty
    (.call "~" [.call "f" [.symbol "a"], .call "$" [.symbol "b"]])
  obtain ⟨-, hsame, hsides⟩ := normalized_outcome .empty
    (.call "~" [.call "f" [.symbol "a"], .call "g" [.symbol "b"]])
  obtain ⟨hmalformed, -⟩ := normalized_outcome .empty (.call "f" [.call "$" [.symbol "a"]])
  have hleft : ofExpr .empty (.call "~" [.call "f" [.symbol "a"], .call "g" [.symbol "b"]]) =
      .error (.unresolved "f" (.call "f" [.symbol "a"])) :=
    ((hsides _ _ rfl).2 rfl).1 _ rfl
  refine ⟨(hescaped _ _ rfl).1 _ rfl, hleft, ((hsame ⟨_, _, rfl⟩).2.2 _).mp hleft, ?_⟩
  refine hmalformed.mpr ?_
  rintro ⟨lhs, rhs, h⟩
  exact absurd (Expr.call.inj h).1 (by decide)

end Formula

end ModelFormula
