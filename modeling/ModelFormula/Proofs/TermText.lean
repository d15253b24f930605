import ModelFormula.Proofs.Lowering
import ModelFormula.Scope.Builtin

/-!
# Terms print as expressions do

An expression decides on parentheses by the names of its operators, a term by the formula operators
that it keeps and by the calls that it has captured.  Both come to the same text.

* `Expr.InfixOperators` — every formula operator stands between operands, as it does in **all that
  is read** (`WellFormed.infixOperators`);
* `Term.SameText` — a term and an expression with the same text and the same parentheses;
* `Term.sameText_of_lowers` — a term has the text of the expression it was made of, by induction on
  both together;
* `Term.text_of_ofExpr` — **the two ways of printing agree**, and so a formula prints as the
  expression it was made of.

A formula operator with a single operand is an applied call for an expression, `+(a)`, and nothing
but its operand for a term.
-/

set_option autoImplicit false

namespace ModelFormula

/-! ### Formula operators between operands -/

namespace Expr

/-- Every formula operator has two operands or more to stand between. -/
def InfixOperators (e : Expr) : Prop :=
  ∀ op args, .call op args ∈ e.nodes → op ∈ ["+", "&", "*", "~"] → 2 ≤ args.length

theorem infixOperators_call_iff {op : String} {args : List Expr} :
    (call op args).InfixOperators ↔
      (op ∈ ["+", "&", "*", "~"] → 2 ≤ args.length) ∧ ∀ e ∈ args, e.InfixOperators := by
  constructor
  · intro h
    refine ⟨h op args (mem_nodes_self _), ?_⟩
    intro e he f ds hmem
    exact h f ds (mem_nodes_of_mem he hmem)
  · rintro ⟨hop, hargs⟩ f ds hmem
    rcases mem_nodes_call_iff.mp hmem with heq | ⟨e, he, hmem⟩
    · cases heq
      exact hop
    · exact hargs e he f ds hmem

end Expr

/-- A formula operator of a well-formed expression has two operands or more. -/
theorem WellFormed.two_le_length {op : String} {args : List Expr} (h : WellFormed (.call op args))
    (hop : op ∈ ["+", "&", "*", "~"]) : 2 ≤ args.length := by
  cases h with
  | applied hname _ =>
      have hprec := hname.precedence
      simp only [List.mem_cons, List.not_mem_nil, or_false] at hop
      rcases hop with rfl | rfl | rfl | rfl <;> cases hprec
  | escape _ => exact absurd hop (by decide)
  | minus _ _ => exact absurd hop (by decide)
  | binary _ _ _ => exact Nat.le_refl 2
  | run _ hlen _ => exact hlen
  | sides hes _ _ => exact two_le_length_cons hes
  | oneSided hes _ => exact two_le_length_cons hes

theorem WellFormed.infixOperators {e : Expr} (h : WellFormed e) : e.InfixOperators := by
  refine WellFormed.inductionCalls ?symbol ?number ?absent ?call h
  case symbol =>
    intro name _ op args hmem
    simp at hmem
  case number =>
    intro x op args hmem
    simp at hmem
  case absent =>
    intro op args hmem
    simp at hmem
  case call =>
    intro op args hwf ih
    exact Expr.infixOperators_call_iff.mpr ⟨hwf.two_le_length, ih⟩

/-! ### Texts -/

namespace Term

variable {S : Scope}

/-- A term prints as an expression, and under the formula operators it is put in parentheses where
the expression is. -/
def SameText (e : Expr) (t : Term) : Prop :=
  t.chars = e.chars ∧ ∀ p ≤ 2, needsParens p t = e.needsParens p

theorem map_operand_eq {p : Nat} (hp : p ≤ 2) {es : List Expr} {ts : List Term}
    (h : List.Forall₂ SameText es ts) : ts.map (operand p) = es.map (Expr.operand p) := by
  induction h with
  | nil => rfl
  | cons hsame _ ih =>
      rw [List.map_cons, List.map_cons, ih, operand, Expr.operand, hsame.1, hsame.2 p hp]

theorem sameText_op {o : FormulaOp} {args : List Expr} {ts : List Term} (hlen : 2 ≤ args.length)
    (h : List.Forall₂ SameText args ts) : SameText (.call o.symbol args) (.op o ts) := by
  have hprec := o.precedence_symbol
  have hstrength : o.strength ≤ 2 := by cases o <;> decide
  constructor
  · rw [chars_op, Expr.chars_of_between (Layout.of_precedence hprec hlen),
      map_operand_eq hstrength h]
  · intro p _
    rw [Expr.needsParens, if_pos hlen, hprec]
    rfl

theorem needsParens_captured {p : Nat} {c : Closure} {ts : List Term} :
    needsParens p (.captured c ts) =
      (strength? (.captured c ts)).any fun own => decide (own ≤ p) := by
  unfold needsParens
  cases strength? (.captured c ts) with
  | none => rfl
  | some own => rfl

/-- A captured call prints as it was written; no leading operator is put in parentheses under a
formula operator. -/
theorem sameText_captured {f : Function} {args : List Expr} {ts : List Term} :
    SameText (.call f.name args) (.captured ⟨f, args, S⟩ ts) := by
  constructor
  · rw [chars]
    rfl
  · intro p hp
    rw [needsParens_captured, strength?, Expr.needsParens]
    by_cases hlen : 2 ≤ args.length
    · rw [if_pos hlen, if_pos hlen]
    · -- leading operators are put in parentheses from `^` on, which is no formula operator
      have hthree : ¬3 ≤ p := by omega
      rw [if_neg hlen, if_neg hlen, decide_eq_false hthree]
      rfl

/-- A term has the text of the expression it was made of. -/
theorem sameText_of_lowers {e : Expr} {t : Term} (h : Lowers S e t) :
    e.InfixOperators → SameText e t := by
  refine Lowers.induction ?symbol ?number ?absent ?op ?captured h
  case symbol =>
    intro name _
    exact ⟨by rw [chars, Expr.chars_symbol], fun _ _ => rfl⟩
  case number =>
    intro value _
    exact ⟨by rw [chars, Expr.chars_number], fun _ _ => rfl⟩
  case absent =>
    intro _
    exact ⟨by rw [chars, Expr.chars_absent], fun _ _ => rfl⟩
  case op =>
    intro o args ts ih hoperators
    obtain ⟨hop, hargs⟩ := Expr.infixOperators_call_iff.mp hoperators
    have hsame : List.Forall₂ SameText args ts :=
      ((List.forall₂_and_left _ _).mpr ⟨hargs, ih⟩).imp fun _ _ hand => hand.2 hand.1
    exact sameText_op (hop o.symbol_mem) hsame
  case captured =>
    -- the text of a captured call does not depend on the terms of its arguments
    intro f args ts _ _ _ _ _
    exact sameText_captured

theorem text_of_lowers {e : Expr} {t : Term} (hoperators : e.InfixOperators) (h : Lowers S e t) :
    t.text = e.text := by
  rw [text, (sameText_of_lowers h hoperators).1, Expr.text]

end Term

/-- A formula prints as the expression it was made of. -/
theorem Formula.text_eq {S : Scope} {e : Expr} {f : Formula} (hoperators : e.InfixOperators)
    (h : ofExpr S e = .ok f) : f.text = e.text :=
  Term.text_of_lowers hoperators (lowers_normalized h)

namespace Term

/-- **A term prints as the expression it was made of** if every formula operator stands between
operands.  That is so in all that is read, and thus a formula that is read prints as its
expression. -/
theorem text_of_ofExpr (S : Scope) :
    (∀ e t, e.InfixOperators → ofExpr S e = .ok t → t.text = e.text) ∧
      (∀ input e, Expr.parse input = .ok e → e.InfixOperators) ∧
      ∀ input f, Formula.ofText S input = .ok f → f.text = f.expr.text := by
  refine ⟨?_, ?_, ?_⟩
  · intro e t hoperators ht
    exact text_of_lowers hoperators (lowers_of_ofExpr ht)
  · intro input e h
    exact (wellFormed_of_parse h).infixOperators
  · intro input f h
    obtain ⟨hwf, hf⟩ := Formula.ofText_eq_ok h
    exact Formula.text_eq hwf.infixOperators hf

/-- The expression `~ (a - b) & (-1)`. -/
def groupedDifference : Expr :=
  .call "~" [.absent, .call "&" [.call "-" [.symbol "a", .symbol "b"], .number (-1.0)]]

theorem groupedDifference_text : groupedDifference.text = "~ (a - b) & (-1)" := by
  decide +kernel

theorem parse_groupedDifference : Expr.parse "~ (a - b) & (-1)" = .ok groupedDifference := by
  have hside : ∀ e ∈ [Expr.symbol "a", .symbol "b"], WellFormed e ∧ e.Legible :=
    List.forall_mem_cons.mpr ⟨⟨.symbol (isName_of_all rfl rfl rfl), Expr.legible_symbol "a"⟩,
      List.forall_mem_singleton.mpr
        ⟨.symbol (isName_of_all rfl rfl rfl), Expr.legible_symbol "b"⟩⟩
  have hdifference : WellFormed (.call "-" [.symbol "a", .symbol "b"]) :=
    .binary (by decide) (hside _ (by simp)).1 (hside _ (by simp)).1
  have hwf : WellFormed groupedDifference :=
    .oneSided (by simp) (List.forall_mem_singleton.mpr (.binary (by decide) hdifference .number))
  have hone : (Expr.number (-1.0)).Legible := Expr.legible_number_iff.mpr rfl
  have hlegible : groupedDifference.Legible := by
    simp [groupedDifference, Expr.legible_call_iff, Expr.legible_symbol, Expr.legible_absent, hone]
  rw [← groupedDifference_text, Expr.parse_text hwf, Expr.asRead_eq_self hwf hlegible]

/-- In `~ (a - b) & (-1)` the difference is a captured call and the number a constant; both keep
their parentheses, as they do in the expression. -/
theorem text_groupedDifference :
    groupedDifference.InfixOperators ∧
      (∃ t, ofExpr .builtins groupedDifference = .ok t ∧ t.text = "~ (a - b) & (-1)") ∧
      ∃ f, Formula.ofText .builtins "~ (a - b) & (-1)" = .ok f ∧ f.text = f.expr.text := by
  obtain ⟨hterm, hread, hformula⟩ := text_of_ofExpr .builtins
  have hoperators := hread _ _ parse_groupedDifference
  refine ⟨hoperators, ⟨_, rfl, ?_⟩, ?_⟩
  · rw [← groupedDifference_text]
    exact hterm groupedDifference _ hoperators rfl
  · obtain ⟨f, hf⟩ : ∃ f, Formula.ofText .builtins "~ (a - b) & (-1)" = .ok f :=
      ⟨_, Formula.ofText_of_parse parse_groupedDifference⟩
    exact ⟨f, hf, hformula _ f hf⟩

end Term

end ModelFormula
