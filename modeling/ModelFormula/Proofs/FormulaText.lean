import ModelFormula.Proofs.TermText
import ModelFormula.Scope.Builtin

/-!
# Printed formulas read back

A formula prints as its expression does, so its text is read as the expression that the text of its
expression is read as.

* `Formula.ofText_text` — **what the text of a formula is read as;**
* `Formula.ofText_text_iff_legible` — **the text of a formula reads back as an equal formula just
  if the formula is legible.**

An overflowing literal is read as an infinity, which prints as a name; and a literal `-0` in
parentheses loses them when it is the base of a power.  Neither text reads back.
-/

set_option autoImplicit false

namespace ModelFormula

namespace Formula

variable {S : Scope}

/-! ### What is read back -/

/-- **The text of a formula is read as the expression that the text of its expression is.** -/
theorem ofText_text {e : Expr} {f : Formula} (hwf : WellFormed e) (h : ofExpr S e = .ok f) :
    ofText S f.text = ofExpr S e.asRead := by
  rw [text_eq hwf.infixOperators h, ofText, Expr.ofText, Expr.parse_text hwf]

/-- A legible formula agrees with itself. -/
theorem agrees_self {e : Expr} {f : Formula} (hwf : WellFormed e) (h : ofExpr S e = .ok f)
    (hlegible : e.Legible) : (f == f) = true := by
  have hexpr : (f.expr == f.expr) = true := by
    rw [(lowers_of_ofExpr h).1]
    exact Expr.agrees_self hwf hlegible
  have hsides := Term.agrees_self_of_lowers hwf hlegible _ (lowers_normalized h)
  simp only [normalized, Term.agrees, Term.agreesAll, Bool.and_true, Bool.and_eq_true] at hsides
  change (f.expr == f.expr && f.lhs.agrees f.lhs && f.rhs.agrees f.rhs) = true
  rw [hexpr, hsides.2.1, hsides.2.2]
  rfl

/-- A formula that is read back agrees with the one printed only if that one is legible. -/
theorem legible_of_agrees {e : Expr} {f g : Formula} (hwf : WellFormed e) (hf : f.expr = e)
    (hg : ofExpr S e.asRead = .ok g) (hagrees : (g == f) = true) : e.Legible := by
  have hexpr := (lowers_of_ofExpr hg).1
  change (g.expr == f.expr && g.lhs == f.lhs && g.rhs == f.rhs) = true at hagrees
  rw [Bool.and_eq_true, Bool.and_eq_true, hexpr, hf] at hagrees
  exact (Expr.agrees_asRead_iff hwf).mp hagrees.1.1

/-- **The text of a formula reads back as an equal formula just if the formula is legible.** -/
theorem ofText_text_iff_legible (S : Scope) (input : String) (f : Formula)
    (h : ofText S input = .ok f) :
    (∃ g, ofText S f.text = .ok g ∧ (g == f) = true) ↔ f.expr.Legible := by
  obtain ⟨hwf, hf⟩ := ofText_eq_ok h
  constructor
  · rintro ⟨g, hg, hagrees⟩
    rw [ofText_text hwf hf] at hg
    exact legible_of_agrees hwf rfl hg hagrees
  · intro hlegible
    rw [text_eq hwf.infixOperators hf, ofText_text_of_legible hwf hlegible]
    exact ⟨f, hf, agrees_self hwf hf hlegible⟩

/-! ### Two formulas -/

theorem legible_columns : (Expr.call "~" [.symbol "y", .symbol "x"]).Legible :=
  Expr.legible_call_iff.mpr ⟨by simp, List.forall_mem_cons.mpr
    ⟨Expr.legible_symbol "y", List.forall_mem_singleton.mpr (Expr.legible_symbol "x")⟩⟩

theorem ofText_columns (S : Scope) : ofText S "y ~ x" =
    .ok ⟨.call "~" [.symbol "y", .symbol "x"], .column "y", .column "x"⟩ := by
  have hy : WellFormed (.symbol "y") := .symbol (isName_of_all rfl rfl rfl)
  have hx : WellFormed (.symbol "x") := .symbol (isName_of_all rfl rfl rfl)
  have hwf : WellFormed (.call "~" [.symbol "y", .symbol "x"]) :=
    .sides (by simp) hy (List.forall_mem_singleton.mpr hx)
  have htext : (Expr.call "~" [.symbol "y", .symbol "x"]).text = "y ~ x" := by decide
  rw [← htext, ofText_text_of_legible hwf legible_columns]
  rfl

/-- A formula of two columns reads back. -/
theorem ofText_text_columns : ∃ f, ofText .builtins "y ~ x" = .ok f ∧
    ∃ g, ofText .builtins f.text = .ok g ∧ (g == f) = true := by
  refine ⟨_, ofText_columns .builtins, ?_⟩
  exact (ofText_text_iff_legible .builtins "y ~ x" _ (ofText_columns .builtins)).mpr legible_columns

theorem ofText_overflow (S : Scope) : ofText S "y ~ 1e999" =
    .ok ⟨.call "~" [.symbol "y", .number Double.infinity], .column "y",
      .constant Double.infinity⟩ := by
  -- this is no printed text, so its derivation is written out
  have hname : IsName "y" := isName_of_all rfl rfl rfl
  have hy : Grammar.Atom "y ~ 1e999".toList (.symbol "y") " ~ 1e999".toList :=
    .symbol (Grammar.gap_refl _) (Expr.name_append hname " ~ 1e999".toList)
  have hnumber : Grammar.Atom " 1e999".toList (.number Double.infinity) [] :=
    .number (Grammar.gap_space "1e999".toList) ⟨rfl, stops_cons _ rfl⟩
  have hsides : Grammar.Sides " ~ 1e999".toList [.number Double.infinity] [] :=
    .last (Grammar.gap_space "~ 1e999".toList) hnumber.sum
  have htilde : Grammar.Derives "y ~ 1e999" (.call "~" [.symbol "y", .number Double.infinity]) :=
    ⟨[], .between hy.sum hsides, by simp⟩
  rw [ofText_of_parse (Grammar.parse_of_derives htilde)]
  rfl

/-- A formula with an overflowing literal does not read back. -/
theorem ofText_text_overflow : ∃ f, ofText .builtins "y ~ 1e999" = .ok f ∧
    ¬∃ g, ofText .builtins f.text = .ok g ∧ (g == f) = true := by
  refine ⟨_, ofText_overflow .builtins, ?_⟩
  rintro ⟨g, hg, hagrees⟩
  obtain ⟨hwf, hf⟩ := ofText_eq_ok (ofText_overflow .builtins)
  rw [ofText_text hwf hf] at hg
  have hlegible := legible_of_agrees hwf rfl hg hagrees
  have hfinite := hlegible.1 Double.infinity (by simp)
  exact absurd hfinite (by decide)

end Formula

end ModelFormula
