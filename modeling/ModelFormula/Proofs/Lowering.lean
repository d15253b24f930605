import ModelFormula.Formula.Basic
import ModelFormula.Proofs.Printing.RoundTrip

/-!
# Lowered expressions

What the term of an expression can be, and what the two have in common.

* `Term.Lowers` — a term of an expression; lists of them go together one by one
  (`Term.lowerAll_eq_ok_iff`);
* `Term.cases_of_lowers_call` — **the term of a call is an operator or a captured call**, with
  everything that was checked on the way;
* `Term.Lowers.induction` — induction over an expression and its term together;
* `Term.agrees_self_of_lowers` — the term of a legible expression agrees with itself;
* `Formula.lowers_normalized` — both sides of a formula joined again are the term of its
  expression.
-/

set_option autoImplicit false

namespace ModelFormula

namespace Term

variable {S : Scope}

/-! ### The term of an expression -/

/-- A term of an expression in a scope. -/
def Lowers (S : Scope) (e : Expr) (t : Term) : Prop := lower S e = .ok t

theorem lowerAll_eq_ok_iff {es : List Expr} {ts : List Term} :
    lowerAll S es = .ok ts ↔ List.Forall₂ (Lowers S) es ts := by
  induction es generalizing ts with
  | nil =>
      rw [lowerAll_nil, List.forall₂_nil_left_iff]
      constructor
      · intro h
        cases h
        rfl
      · rintro rfl
        rfl
  | cons e es ih =>
      rw [lowerAll, List.forall₂_cons_left_iff]
      constructor
      · intro h
        split at h
        · cases h
        · rename_i t ht
          split at h
          · cases h
          · rename_i ts' hts
            cases h
            exact ⟨t, ts', ht, ih.mp hts, rfl⟩
      · rintro ⟨t, ts', ht, hts, rfl⟩
        have hts' := ih.mpr hts
        rw [Lowers] at ht
        simp only [ht, hts']

theorem eq_of_lowers_symbol {name : String} {t : Term} (h : Lowers S (.symbol name) t) :
    t = .column name := by
  rw [Lowers, lower_symbol] at h
  cases h
  rfl

theorem eq_of_lowers_number {x : Float} {t : Term} (h : Lowers S (.number x) t) :
    t = .constant x := by
  rw [Lowers, lower_number] at h
  cases h
  rfl

theorem eq_of_lowers_absent {t : Term} (h : Lowers S .absent t) : t = .absent := by
  rw [Lowers, lower_absent] at h
  cases h
  rfl

/-- The term of a call is that of a formula operator or a captured call. -/
theorem cases_of_lowers_call {op : String} {args : List Expr} {t : Term}
    (h : Lowers S (.call op args) t) :
    ∃ ts, List.Forall₂ (Lowers S) args ts ∧
      ((∃ o, FormulaOp.ofSymbol? op = some o ∧ t = .op o ts) ∨
        ∃ f, FormulaOp.ofSymbol? op = none ∧ S.resolve op = some f ∧
          S.firstUndefined? args = none ∧ t = .captured ⟨f, args, S⟩ ts) := by
  rw [Lowers, lower] at h
  split at h
  · cases h
  · rename_i ts hts
    refine ⟨ts, lowerAll_eq_ok_iff.mp hts, ?_⟩
    split at h
    · rename_i o ho
      cases h
      exact Or.inl ⟨o, ho, rfl⟩
    · rename_i hop
      split at h
      · rename_i c hc
        obtain ⟨_, _, f, hcall, hf, hdefined, rfl⟩ := CapturedCall.eq_of_capture hc
        cases hcall
        cases h
        exact Or.inr ⟨f, hop, hf, hdefined, rfl⟩
      · cases h

/-- What holds of every operand and its term holds of the operands and terms together. -/
theorem forall₂_of_lowers {Q : Expr → Term → Prop} {es : List Expr} {ts : List Term}
    (h : List.Forall₂ (Lowers S) es ts) (hQ : ∀ e ∈ es, ∀ t, Lowers S e t → Q e t) :
    List.Forall₂ Q es ts :=
  ((List.forall₂_and_left _ _).mpr ⟨hQ, h⟩).imp fun _ t hand => hand.1 t hand.2

/-- Induction over an expression and its term together.  The function of a captured call has the
name that it was looked up by, so the term says which call was captured. -/
@[elab_as_elim]
theorem Lowers.induction {motive : Expr → Term → Prop}
    (symbol : ∀ name, motive (.symbol name) (.column name))
    (number : ∀ value, motive (.number value) (.constant value)) (absent : motive .absent .absent)
    (op : ∀ (o : FormulaOp) args ts, List.Forall₂ motive args ts →
      motive (.call o.symbol args) (.op o ts))
    (captured : ∀ (f : Function) args ts, FormulaOp.ofSymbol? f.name = none →
      S.resolve f.name = some f → Lowers S (.call f.name args) (.captured ⟨f, args, S⟩ ts) →
      List.Forall₂ motive args ts → motive (.call f.name args) (.captured ⟨f, args, S⟩ ts))
    {e : Expr} {t : Term} (h : Lowers S e t) : motive e t := by
  induction e using Expr.inductionCalls generalizing t with
  | symbol name =>
      rw [eq_of_lowers_symbol h]
      exact symbol name
  | number value =>
      rw [eq_of_lowers_number h]
      exact number value
  | absent =>
      rw [eq_of_lowers_absent h]
      exact absent
  | call head args ih =>
      obtain ⟨ts, hts, hcases⟩ := cases_of_lowers_call h
      have hargs : List.Forall₂ motive args ts := forall₂_of_lowers hts fun e he _ => ih e he
      rcases hcases with ⟨o, ho, rfl⟩ | ⟨f, hop, hf, -, rfl⟩
      · obtain rfl := FormulaOp.symbol_of_ofSymbol? ho
        exact op o args ts hargs
      · obtain rfl := Scope.name_of_resolve hf
        exact captured f args ts hop hf h hargs

/-! ### Agreement -/

theorem agreesAll_self {ts : List Term} (h : ∀ t ∈ ts, t.agrees t = true) :
    agreesAll ts ts = true := by
  induction ts with
  | nil => rw [agreesAll]
  | cons t ts ih =>
      rw [agreesAll, h t List.mem_cons_self, Bool.true_and]
      exact ih fun u hu => h u (List.mem_cons_of_mem _ hu)

theorem forall_mem_of_forall₂ {α β : Type} {Q : β → Prop} {xs : List α} {ys : List β}
    (h : List.Forall₂ (fun _ y => Q y) xs ys) : ∀ y ∈ ys, Q y := by
  induction h with
  | nil => simp
  | cons hy _ ih => exact List.forall_mem_cons.mpr ⟨hy, ih⟩

/-- The term of a legible expression agrees with itself. -/
theorem agrees_self_of_lowers {e : Expr} (h : WellFormed e) :
    e.Legible → ∀ t, Lowers S e t → t.agrees t = true := by
  refine WellFormed.inductionCalls ?symbol ?number ?absent ?call h
  case symbol =>
    intro name _ _ t ht
    rw [eq_of_lowers_symbol ht, agrees]
    exact beq_self_eq_true name
  case number =>
    intro x hlegible t ht
    have hfinite := Expr.legible_number_iff.mp hlegible
    rw [eq_of_lowers_number ht, agrees]
    exact Double.beq_self (Nat.le_of_lt (of_decide_eq_true hfinite))
  case absent =>
    intro _ t ht
    rw [eq_of_lowers_absent ht, agrees]
  case call =>
    intro op args hwf ih hlegible t ht
    obtain ⟨-, hargs⟩ := Expr.legible_call_iff.mp hlegible
    obtain ⟨ts, hts, hcases⟩ := cases_of_lowers_call ht
    have hself : ∀ u ∈ ts, u.agrees u = true :=
      forall_mem_of_forall₂ (forall₂_of_lowers hts fun e he => ih e he (hargs e he))
    rcases hcases with ⟨o, -, rfl⟩ | ⟨f, -, hf, -, rfl⟩
    · rw [agrees, agreesAll_self hself]
      simp
    · obtain rfl := Scope.name_of_resolve hf
      have hexpr : (Expr.call f.name args).agrees (.call f.name args) = true :=
        Expr.agrees_self hwf hlegible
      have hfunction : (f == f) = true := by
        change (f.name == f.name && f.arity == f.arity) = true
        simp
      have hvariables : (Expr.call f.name args).freeVariables ==
          (Expr.call f.name args).freeVariables := beq_self_eq_true _
      rw [agrees, agreesAll_self hself, Bool.and_true]
      change (f == f && (Expr.call f.name args).freeVariables ==
        (Expr.call f.name args).freeVariables && (Expr.call f.name args).agrees (.call f.name args))
          = true
      rw [hfunction, hvariables, hexpr]
      rfl

end Term

/-! ### Formulas -/

theorem Expr.eq_of_requireSides {e lhs rhs : Expr} (h : e.requireSides = .ok (lhs, rhs)) :
    e = .call "~" [lhs, rhs] := by
  unfold Expr.requireSides at h
  split at h
  · split at h
    · rename_i hop
      split at h
      · cases h
        rw [hop]
      · cases h
    · cases h
  · cases h

theorem Expr.firstEscape?_of_requireUnescaped {e : Expr} (h : e.requireUnescaped = .ok ()) :
    e.firstEscape? = none := by
  rw [Expr.requireUnescaped_eq] at h
  cases hescape : e.firstEscape? with
  | none => rfl
  | some d =>
      rw [hescape] at h
      cases h

theorem Expr.wellFormed_of_ofText {input : String} {e : Expr} (h : Expr.ofText input = .ok e) :
    WellFormed e := by
  unfold Expr.ofText at h
  split at h
  · rename_i hparse
    cases h
    exact wellFormed_of_parse hparse
  · cases h

theorem Term.firstEscape?_of_ofExpr {S : Scope} {e : Expr} {t : Term}
    (h : Term.ofExpr S e = .ok t) : e.firstEscape? = none := by
  unfold Term.ofExpr at h
  split at h
  · cases h
  · rename_i hunescaped
    exact Expr.firstEscape?_of_requireUnescaped hunescaped

theorem Term.lowers_of_ofExpr {S : Scope} {e : Expr} {t : Term} (h : Term.ofExpr S e = .ok t) :
    Term.Lowers S e t := by
  unfold Term.ofExpr at h
  split at h
  · cases h
  · exact h

namespace Formula

variable {S : Scope}

/-- A formula keeps its expression, which has two sides and no escape marker, and holds the terms
of both. -/
theorem lowers_of_ofExpr {e : Expr} {f : Formula} (h : ofExpr S e = .ok f) :
    f.expr = e ∧ e.firstEscape? = none ∧
      ∃ lhs rhs, e = .call "~" [lhs, rhs] ∧ Term.Lowers S lhs f.lhs ∧ Term.Lowers S rhs f.rhs := by
  unfold ofExpr at h
  split at h
  · cases h
  · rename_i lhs rhs hsides
    split at h
    · cases h
    · rename_i hunescaped
      split at h
      · cases h
      · rename_i l hl
        split at h
        · cases h
        · rename_i r hr
          cases h
          exact ⟨rfl, Expr.firstEscape?_of_requireUnescaped hunescaped, lhs, rhs,
            Expr.eq_of_requireSides hsides, Term.lowers_of_ofExpr hl, Term.lowers_of_ofExpr hr⟩

/-- Both sides joined again are the term of the expression. -/
theorem lowers_normalized {e : Expr} {f : Formula} (h : ofExpr S e = .ok f) :
    Term.Lowers S e f.normalized := by
  obtain ⟨-, -, lhs, rhs, rfl, hlhs, hrhs⟩ := lowers_of_ofExpr h
  have hsides : Term.lowerAll S [lhs, rhs] = .ok [f.lhs, f.rhs] :=
    Term.lowerAll_eq_ok_iff.mpr (.cons hlhs (.cons hrhs .nil))
  have htilde : FormulaOp.ofSymbol? "~" = some .tilde := FormulaOp.ofSymbol?_symbol .tilde
  rw [Term.Lowers, Term.lower]
  simp only [hsides, htilde]
  rfl

theorem ofText_of_parse {input : String} {e : Expr} (h : Expr.parse input = .ok e) :
    ofText S input = ofExpr S e := by
  rw [ofText, Expr.ofText, h]

/-- The text of a legible expression is read as the formula of it. -/
theorem ofText_text_of_legible {e : Expr} (hwf : WellFormed e) (hlegible : e.Legible) :
    ofText S e.text = ofExpr S e := by
  rw [ofText_of_parse (Expr.parse_text hwf), Expr.asRead_eq_self hwf hlegible]

/-- A formula that is read has a well-formed expression, of which it is the formula. -/
theorem ofText_eq_ok {input : String} {f : Formula} (h : ofText S input = .ok f) :
    WellFormed f.expr ∧ ofExpr S f.expr = .ok f := by
  unfold ofText at h
  split at h
  · rename_i e he
    have hexpr := (lowers_of_ofExpr h).1
    rw [hexpr]
    exact ⟨Expr.wellFormed_of_ofText he, h⟩
  · cases h

end Formula

end ModelFormula
