import ModelFormula.Proofs.Agreement
import ModelFormula.Proofs.CapturedCalls
import ModelFormula.Proofs.Definedness
import ModelFormula.Proofs.SignedZero

/-!
# Captured calls that agree

Captured calls are compared by function, variables, expression and terms, and numbers as numbers:
two calls that agree may hold `0` and `-0` at one place.  Their values may then differ, as those of
`1 / 0` and `1 / -0` do (`Formula.evaluate_reciprocals`).  Nothing else can come between them.

* `Expr.alike_of_agrees` — expressions that agree are the same up to the sign of zero;
* `Expr.eq_of_alike` — if their numbers have the same signs, then they are the same;
* `Scope.respects_arithmetic` — sums, differences, products, negatives, square roots and absolute
  values of equal numbers are equal;
* `Formula.evaluate_of_agrees` — **calls that agree have values for the same rows and fail with the
  same errors**; the values are the same if no zeros differ in sign, and equal as numbers if no
  function tells the zeros apart.
-/

set_option autoImplicit false

namespace ModelFormula

/-! ### Expressions that agree -/

namespace Expr

theorem forall₂_of_agreesAll {es es' : List Expr} (h : agreesAll es es' = true) :
    List.Forall₂ (fun e e' => e.agrees e' = true) es es' := by
  induction es generalizing es' with
  | nil =>
      cases es' with
      | nil => exact .nil
      | cons e' es' => simp [agreesAll] at h
  | cons e es ih =>
      cases es' with
      | nil => simp [agreesAll] at h
      | cons e' es' =>
          rw [agreesAll, Bool.and_eq_true] at h
          exact .cons h.1 (ih h.2)

/-- Expressions that agree are the same up to the sign of zero. -/
theorem alike_of_agrees (e : Expr) : ∀ e', e.agrees e' = true → Alike Double.SameNumber e e' := by
  induction e using inductionCalls with
  | symbol name =>
      intro e' h
      cases e' with
      | symbol name' =>
          rw [agrees, beq_iff_eq] at h
          rw [h]
          exact .symbol name'
      | _ => simp [agrees] at h
  | number value =>
      intro e' h
      cases e' with
      | number value' =>
          rw [agrees] at h
          exact .number (Double.sameNumber_of_beq h)
      | _ => simp [agrees] at h
  | absent =>
      intro e' h
      cases e' with
      | absent => exact .absent
      | _ => simp [agrees] at h
  | call op args ih =>
      intro e' h
      obtain ⟨args', rfl, hargs⟩ := exists_of_agrees_call h
      refine .call op (((List.forall₂_and_left _ _).mpr ⟨ih, forall₂_of_agreesAll hargs⟩).imp ?_)
      rintro e e' ⟨he, hee'⟩
      exact he e' hee'

/-- The numbers of two expressions have the same signs, place by place. -/
def SameSigns (e e' : Expr) : Prop :=
  Alike (fun x y => Double.isNegative x = Double.isNegative y) e e'

theorem sameSigns_refl (e : Expr) : SameSigns e e := by
  refine alike_refl ?_ e
  intro x
  rfl

/-- Expressions that are the same up to the sign of zero, and have the same signs, are the same. -/
theorem eq_of_alike {e e' : Expr} (h : Alike Double.SameNumber e e') :
    SameSigns e e' → e = e' := by
  refine Alike.induction ?symbol ?number ?absent ?call h
  case symbol =>
    intro name _
    rfl
  case number =>
    intro x y hxy hsigns
    cases hsigns with
    | number hsign => rw [Double.eq_of_sameNumber hxy hsign]
  case absent =>
    intro _
    rfl
  case call =>
    intro op args args' ih hsigns
    cases hsigns with
    | call _ hargs =>
        have hall : List.Forall₂ Eq args args' := ih.mp (fun _ _ h hsign => h hsign) hargs
        rw [List.forall₂_eq_eq_eq] at hall
        rw [hall]

end Expr

/-! ### Functions that cannot tell the zeros apart -/

/-- An operation that respects equality of numbers does so in a fold. -/
theorem Double.sameNumber_foldl {op : Float → Float → Float}
    (hop : ∀ {x x' y y'}, SameNumber x x' → SameNumber y y' → SameNumber (op x y) (op x' y'))
    (a : Float) {xs ys : List Float} (h : List.Forall₂ SameNumber xs ys) :
    SameNumber (xs.foldl op a) (ys.foldl op a) :=
  List.rel_foldl (P := SameNumber) (R := SameNumber) (fun _ _ hx _ _ hy => hop hx hy)
    (sameNumber_refl a) h

/-- Sums, differences, products, negatives, square roots and absolute values of equal numbers are
equal. -/
theorem Scope.respects_arithmetic {op : String} (hop : op ∈ ["+", "-", "*", "&", "sqrt", "abs"])
    {f : Function} (hf : Scope.builtins.resolve op = some f) : f.Respects Double.SameNumber := by
  simp only [List.mem_cons, List.not_mem_nil, or_false] at hop
  rcases hop with rfl | rfl | rfl | rfl | rfl | rfl <;> cases hf
  · exact Builtin.respects_variadic "+" fun _ _ => Double.sameNumber_foldl Double.sameNumber_add _
  · exact Builtin.respects_minus (fun _ _ => Double.sameNumber_neg)
      fun _ _ _ _ => Double.sameNumber_sub
  · exact Builtin.respects_variadic "*" fun _ _ => Double.sameNumber_foldl Double.sameNumber_mul _
  · exact Builtin.respects_variadic "&" fun _ _ => Double.sameNumber_foldl Double.sameNumber_mul _
  · exact Function.respects_unary "sqrt" fun _ _ => Double.sameNumber_sqrt
  · exact Function.respects_unary "abs" fun _ _ => Double.sameNumber_abs

/-! ### Captured calls -/

namespace Formula

variable {S : Scope}

/-- A captured call of a formula has for every row the outcome of the call as it was written. -/
theorem evaluate_eq_eval {e : Expr} {f : Formula} (h : ofExpr S e = .ok f) {c : CapturedCall}
    (hc : c ∈ f.capturedCalls) (row : Row) :
    c.closure.evaluate row = S.eval row c.closure.expr :=
  Term.evaluate_eq_eval (lowers_normalized h) c hc row

theorem alike_of_term_beq {c d : CapturedCall} (h : (c.term == d.term) = true) :
    Expr.Alike Double.SameNumber c.closure.expr d.closure.expr := by
  change (c.closure.agrees d.closure && Term.agreesAll c.lowered d.lowered) = true at h
  rw [Bool.and_eq_true] at h
  exact Expr.alike_of_agrees _ _ (Closure.agrees_iff.mp h.1).2

/-- **Captured calls that agree have values for the same rows, and fail with the same errors.**
Their values are the same if no zeros differ in sign; and whatever the signs are, they are equal as
numbers if no function in them tells the zeros apart, as sums, differences, products, square roots
and absolute values do not. -/
theorem evaluate_of_agrees (S : Scope) (hS : S = .empty ∨ S = .builtins) (e e' : Expr)
    (f g : Formula) (hf : ofExpr S e = .ok f) (hg : ofExpr S e' = .ok g) (c d : CapturedCall)
    (hc : c ∈ f.capturedCalls) (hd : d ∈ g.capturedCalls) (hcd : (c.term == d.term) = true)
    (row : Row) :
    SameOutcome (fun _ _ => True) (c.closure.evaluate row) (d.closure.evaluate row) ∧
      (Expr.SameSigns c.closure.expr d.closure.expr →
        c.closure.evaluate row = d.closure.evaluate row) ∧
      ((∀ op args, .call op args ∈ c.closure.expr.nodes →
          op ∈ ["+", "-", "*", "&", "sqrt", "abs"] ∨
            ∀ φ, S.resolve op = some φ → φ.Respects Double.SameNumber) →
        SameOutcome (fun x y => (x == y) = true ∨ x.isNaN = true ∧ y.isNaN = true)
          (c.closure.evaluate row) (d.closure.evaluate row)) := by
  have halike := alike_of_term_beq hcd
  rw [evaluate_eq_eval hf hc, evaluate_eq_eval hg hd]
  refine ⟨?_, ?_, ?_⟩
  · refine Scope.sameOutcome_eval (halike.imp fun _ _ _ => trivial) ?_ ?_
    · intro op args _ φ hφ
      rcases hS with rfl | rfl
      · cases hφ
      · exact Builtin.failsByNumber op φ hφ
    · intro name _
      exact Scope.optionRel_refl (fun _ => trivial) _
  · intro hsigns
    rw [Expr.eq_of_alike halike hsigns]
  · intro harithmetic
    refine SameOutcome.imp (fun _ _ => Double.beq_or_isNaN) (Scope.sameOutcome_eval halike ?_ ?_)
    · intro op args hcall φ hφ
      rcases hS with rfl | rfl
      · cases hφ
      · obtain hop | hrespects := harithmetic op args hcall
        · exact Scope.respects_arithmetic hop hφ
        · exact hrespects φ hφ
    · intro name _
      exact Scope.optionRel_refl Double.sameNumber_refl _

/-- The formula with the column `y` on its left and a captured call on its right. -/
def ofCall (c : CapturedCall) : Formula where
  expr := .call "~" [.symbol "y", c.closure.expr]
  lhs := .column "y"
  rhs := c.term

theorem mem_capturedCalls_ofCall (c : CapturedCall) : c ∈ (ofCall c).capturedCalls :=
  List.mem_cons_self

/-- The captured call of `sqrt(x)`, for a number `x`. -/
def rootOf (x : Float) : CapturedCall :=
  ⟨⟨.unary "sqrt" Float.sqrt, [.number x], .builtins⟩, [.constant x]⟩

theorem ofExpr_rootOf (x : Float) :
    ofExpr .builtins (ofCall (rootOf x)).expr = .ok (ofCall (rootOf x)) := rfl

/-- The square roots of `0` and `-0` agree, and their values are equal as numbers; the one of `0`
has the signs, and the value, of itself. -/
theorem evaluate_roots : ((rootOf 0).term == (rootOf (-0)).term) = true ∧
    SameOutcome (fun x y => (x == y) = true ∨ x.isNaN = true ∧ y.isNaN = true)
      ((rootOf 0).closure.evaluate .empty) ((rootOf (-0)).closure.evaluate .empty) ∧
    Expr.SameSigns (rootOf 0).closure.expr (rootOf 0).closure.expr ∧
    (rootOf 0).closure.evaluate .empty = (rootOf 0).closure.evaluate .empty := by
  have hzeros : ((rootOf 0).term == (rootOf (-0)).term) = true := by decide
  have hself : ((rootOf 0).term == (rootOf 0).term) = true := by decide
  have hmem := fun x => mem_capturedCalls_ofCall (rootOf x)
  refine ⟨hzeros, ?_, Expr.sameSigns_refl _, ?_⟩
  · refine (evaluate_of_agrees .builtins (.inr rfl) _ _ _ _ (ofExpr_rootOf 0) (ofExpr_rootOf (-0))
      _ _ (hmem 0) (hmem (-0)) hzeros .empty).2.2 ?_
    intro op args hcall
    obtain ⟨rfl, -⟩ : op = "sqrt" ∧ args = [.number 0] := by
      simpa [rootOf, Closure.expr, Function.unary] using hcall
    exact .inl (by decide)
  · exact (evaluate_of_agrees .builtins (.inr rfl) _ _ _ _ (ofExpr_rootOf 0) (ofExpr_rootOf 0)
      _ _ (hmem 0) (hmem 0) hself .empty).2.1 (Expr.sameSigns_refl _)

/-- The captured call of `1 / x`, for a number `x`. -/
def quotientBy (x : Float) : CapturedCall :=
  ⟨⟨.binary "/" (· / ·), [.number 1, .number x], .builtins⟩, [.constant 1, .constant x]⟩

theorem ofText_quotientBy {x : Float} (hx : Double.isFinite x = true) :
    ofText .builtins (ofCall (quotientBy x)).expr.text = .ok (ofCall (quotientBy x)) := by
  have hy : WellFormed (.symbol "y") := .symbol (isName_of_all rfl rfl rfl)
  have hop : "/" ∈ ["-", "/", "&", "^"] := by decide
  have hwf : WellFormed (ofCall (quotientBy x)).expr :=
    .sides (by simp) hy (List.forall_mem_singleton.mpr (.binary hop .number .number))
  have hnumbers : ∀ e ∈ [Expr.number 1, Expr.number x], e.Legible :=
    List.forall_mem_cons.mpr ⟨Expr.legible_number_iff.mpr (by decide),
      List.forall_mem_singleton.mpr (Expr.legible_number_iff.mpr hx)⟩
  have hcall : (quotientBy x).closure.expr.Legible :=
    Expr.legible_call_iff.mpr ⟨by simp [quotientBy, Function.binary], hnumbers⟩
  have hlegible : (ofCall (quotientBy x)).expr.Legible :=
    Expr.legible_call_iff.mpr ⟨by simp, List.forall_mem_cons.mpr
      ⟨Expr.legible_symbol "y", List.forall_mem_singleton.mpr hcall⟩⟩
  rw [ofText_text_of_legible hwf hlegible]
  rfl

/-- The captured calls of `y ~ 1 / 0` and `y ~ 1 / -0` agree, and for every row their values are the
two infinities. -/
theorem evaluate_reciprocals : ∃ f g c d, ofText .builtins "y ~ 1 / 0" = .ok f ∧
    ofText .builtins "y ~ 1 / -0" = .ok g ∧ c ∈ f.capturedCalls ∧ d ∈ g.capturedCalls ∧
    (c.term == d.term) = true ∧ ∀ row, ∃ x y, c.closure.evaluate row = .ok x ∧
      d.closure.evaluate row = .ok y ∧ Double.text x = "inf".toList ∧
      Double.text y = "-inf".toList := by
  refine ⟨ofCall (quotientBy 0), ofCall (quotientBy (-0)), quotientBy 0, quotientBy (-0), ?_, ?_,
    mem_capturedCalls_ofCall _, mem_capturedCalls_ofCall _, by decide, ?_⟩
  · have htext : (ofCall (quotientBy 0)).expr.text = "y ~ 1 / 0" := by decide +kernel
    rw [← htext]
    exact ofText_quotientBy (by decide)
  · have htext : (ofCall (quotientBy (-0))).expr.text = "y ~ 1 / -0" := by decide +kernel
    rw [← htext]
    exact ofText_quotientBy (by decide)
  · intro row
    exact ⟨1 / 0, 1 / -0, rfl, rfl, by decide, by decide⟩

end Formula

end ModelFormula
