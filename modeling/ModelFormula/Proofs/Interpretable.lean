import ModelFormula.Proofs.Lowering
import ModelFormula.Scope.Builtin

/-!
# Built formulas can be evaluated

What is checked when a call is captured is what the evaluation of the call relies on later: every
head below it is defined, and nothing absent is reached.

* `Scope.SelfContained` — no function of a scope reports a fault of the expression, as the built-in
  ones do not (`Scope.selfContained_builtins`);
* `Scope.exists_of_evalAll_eq_error`, `Scope.cases_of_applyTo_eq_error` — where an error comes from;
* `Scope.Covers` — every call below an expression is defined;
* `Term.captured_of_lowers` — what holds of every captured call of a term, **inner calls
  included**;
* `Formula.capturedCalls_interpretable` — **no captured call of a formula meets an undefined
  function or an absent side.**
-/

set_option autoImplicit false

namespace ModelFormula

/-! ### Errors and their origin -/

/-- The body of a function reports neither an undefined function nor something without a value. -/
def Function.SelfContained (f : Function) : Prop :=
  ∀ values what,
    f.body values ≠ .error (.undefinedFunction what) ∧ f.body values ≠ .error (.notEvaluable what)

/-- The bodies of all functions of a scope report no such fault. -/
def Scope.SelfContained (S : Scope) : Prop :=
  ∀ name f, S.resolve name = some f → f.SelfContained

namespace Scope

variable {S : Scope} {row : Row}

/-- The first operand that fails is why a list of operands has no values. -/
theorem exists_of_evalAll_eq_error {es : List Expr} {err : EvalError}
    (h : S.evalAll row es = .error err) : ∃ e ∈ es, S.eval row e = .error err := by
  induction es with
  | nil =>
      rw [evalAll_nil] at h
      cases h
  | cons e es ih =>
      rw [evalAll] at h
      split at h
      · rename_i he
        cases h
        exact ⟨e, List.mem_cons_self, he⟩
      · split at h
        · rename_i hes
          cases h
          obtain ⟨d, hd, herr⟩ := ih hes
          exact ⟨d, List.mem_cons_of_mem _ hd, herr⟩
        · cases h

/-- A function applied to operands fails as an operand does, in its body, or for the number of its
arguments. -/
theorem cases_of_applyTo_eq_error {f : Function} {args : List Expr} {err : EvalError}
    (h : S.applyTo row f args = .error err) :
    (∃ e ∈ args, S.eval row e = .error err) ∨ (∃ values, f.body values = .error err) ∨
      ∃ expected actual, err = .arity f.name expected actual := by
  rw [applyTo] at h
  split at h
  · rename_i values _
    rw [Function.apply] at h
    split at h
    · split at h
      · exact .inr (.inl ⟨values, h⟩)
      · cases h
        exact .inr (.inr ⟨_, _, rfl⟩)
    · exact .inr (.inl ⟨values, h⟩)
  · rename_i hall
    cases h
    exact .inl (exists_of_evalAll_eq_error hall)

theorem applyTo_ne_error {f : Function} {args : List Expr} {err : EvalError}
    (harity : ∀ name expected actual, err ≠ .arity name expected actual)
    (hbody : ∀ values, f.body values ≠ .error err)
    (hargs : ∀ e ∈ args, S.eval row e ≠ .error err) : S.applyTo row f args ≠ .error err := by
  intro h
  rcases cases_of_applyTo_eq_error h with ⟨e, he, herr⟩ | ⟨values, herr⟩ | ⟨_, _, herr⟩
  · exact hargs e he herr
  · exact hbody values herr
  · exact harity _ _ _ herr

/-! ### Expressions whose calls are defined -/

/-- Every call in an expression is defined. -/
def Covers (S : Scope) (e : Expr) : Prop :=
  ∀ op args, .call op args ∈ e.nodes → S.defines op = true

theorem Covers.resolve {op : String} {args : List Expr} (h : S.Covers (.call op args)) :
    ∃ f, S.resolve op = some f :=
  Option.isSome_iff_exists.mp (h op args (Expr.mem_nodes_self _))

theorem Covers.forall_mem {op : String} {args : List Expr} (h : S.Covers (.call op args)) :
    ∀ e ∈ args, S.Covers e := by
  intro e he g es hg
  exact h g es (Expr.mem_nodes_of_mem he hg)

/-- Where no undefined head is found, every call is defined. -/
theorem covers_of_firstUndefined? {es : List Expr} (h : S.firstUndefined? es = none) :
    ∀ e ∈ es, S.Covers e := by
  intro e he op args hmem
  have hhead : op ∈ (Expr.nodesAll es).filterMap Expr.head? := by
    rw [List.mem_filterMap, Expr.nodesAll_eq_flatMap]
    exact ⟨.call op args, List.mem_flatMap.mpr ⟨e, he, hmem⟩, rfl⟩
  have hdefined := List.find?_eq_none.mp h op hhead
  simpa using hdefined

/-- An expression whose calls are all defined meets no undefined function. -/
theorem eval_ne_undefinedFunction (hS : S.SelfContained) {e : Expr} (h : WellFormed e) :
    S.Covers e → ∀ what, S.eval row e ≠ .error (.undefinedFunction what) := by
  refine WellFormed.inductionCalls ?symbol ?number ?absent ?call h
  case symbol =>
    intro name _ _ what herr
    rw [eval] at herr
    split at herr <;> cases herr
  case number =>
    intro x _ what herr
    rw [eval_number] at herr
    cases herr
  case absent =>
    intro _ what herr
    rw [eval_absent] at herr
    cases herr
  case call =>
    intro op args _ ih hcovers what
    obtain ⟨f, hf⟩ := hcovers.resolve
    rw [eval_call_of_resolve hf]
    refine applyTo_ne_error (fun _ _ _ => by simp) (fun values => (hS op f hf values what).1) ?_
    intro e he
    exact ih e he (hcovers.forall_mem e he) what

/-- A well-formed expression whose calls are all defined, `~` not among them, has nothing absent
that could be evaluated. -/
theorem eval_ne_notEvaluable (hS : S.SelfContained) (htilde : S.defines "~" = false) {e : Expr}
    (h : WellFormed e) (hcovers : S.Covers e) :
    ∀ what, S.eval row e ≠ .error (.notEvaluable what) := by
  -- the induction also passes through the absent side of a tilde, which is not well-formed
  have hall : WellFormed e → S.Covers e → ∀ what, S.eval row e ≠ .error (.notEvaluable what) := by
    refine WellFormed.inductionCalls ?symbol ?number ?absent ?call h
    case symbol =>
      intro name _ _ _ what herr
      rw [eval] at herr
      split at herr <;> cases herr
    case number =>
      intro x _ _ what herr
      rw [eval_number] at herr
      cases herr
    case absent =>
      intro hwf
      cases hwf
    case call =>
      intro op args hwf ih _ hcovers what
      obtain ⟨f, hf⟩ := hcovers.resolve
      -- where `~` is not defined no call of it is, and no other call has an absent operand
      have hop : op ≠ "~" := by
        rintro rfl
        rw [defines, hf] at htilde
        cases htilde
      rw [eval_call_of_resolve hf]
      refine applyTo_ne_error (fun _ _ _ => by simp) (fun values => (hS op f hf values what).2) ?_
      intro e he
      exact ih e he (hwf.forall_mem hop e he) (hcovers.forall_mem e he) what
  exact hall h hcovers

end Scope

/-! ### Captured calls -/

/-- A call captured in a scope: its head is a function of the scope and no formula operator, and
its operands are well-formed and hold only calls that the scope defines. -/
structure CapturedIn (S : Scope) (c : CapturedCall) : Prop where
  scope_eq : c.closure.scope = S
  resolve_eq : S.resolve c.closure.function.name = some c.closure.function
  wellFormed : ∀ e ∈ c.closure.args, WellFormed e
  covers : ∀ e ∈ c.closure.args, S.Covers e

theorem Term.forall_mem_capturedCallsAll {ts : List Term} {Q : CapturedCall → Prop}
    (h : ∀ t ∈ ts, ∀ c ∈ t.capturedCalls, Q c) : ∀ c ∈ Term.capturedCallsAll ts, Q c := by
  intro c hc
  rw [Term.capturedCallsAll_eq_flatMap] at hc
  obtain ⟨t, ht, hc⟩ := List.mem_flatMap.mp hc
  exact h t ht c hc

/-- **Every captured call of the term of an expression is captured in the scope of the term.** -/
theorem Term.captured_of_lowers {S : Scope} {e : Expr} (h : WellFormed e) :
    ∀ t, Term.Lowers S e t → ∀ c ∈ t.capturedCalls, CapturedIn S c := by
  refine WellFormed.inductionCalls ?symbol ?number ?absent ?call h
  case symbol =>
    intro name _ t ht c hc
    rw [Term.eq_of_lowers_symbol ht, Term.capturedCalls] at hc
    cases hc
  case number =>
    intro x t ht c hc
    rw [Term.eq_of_lowers_number ht, Term.capturedCalls] at hc
    cases hc
  case absent =>
    intro t ht c hc
    rw [Term.eq_of_lowers_absent ht, Term.capturedCalls] at hc
    cases hc
  case call =>
    intro op args hwf ih t ht c hc
    obtain ⟨ts, hts, hcases⟩ := Term.cases_of_lowers_call ht
    have hbelow : ∀ d ∈ Term.capturedCallsAll ts, CapturedIn S d :=
      Term.forall_mem_capturedCallsAll
        (Term.forall_mem_of_forall₂ (Term.forall₂_of_lowers hts ih))
    rcases hcases with ⟨o, -, rfl⟩ | ⟨f, hop, hf, hdefined, rfl⟩
    · rw [Term.capturedCalls] at hc
      exact hbelow c hc
    · rw [Term.capturedCalls, List.mem_cons] at hc
      rcases hc with rfl | hc
      · -- a formula operator is not captured, so nothing absent stands directly below the call
        have htilde : op ≠ "~" := by
          rintro rfl
          rw [show FormulaOp.ofSymbol? "~" = some .tilde from FormulaOp.ofSymbol?_symbol .tilde]
            at hop
          cases hop
        exact {
          scope_eq := rfl
          resolve_eq := by rw [Scope.name_of_resolve hf]; exact hf
          wellFormed := hwf.forall_mem htilde
          covers := Scope.covers_of_firstUndefined? hdefined }
      · exact hbelow c hc

/-! ### Built-in functions -/

theorem Function.FailsByArity.selfContained {f : Function} (h : f.FailsByArity) :
    f.SelfContained :=
  fun values _ => ⟨h.body_ne (by simp) values, h.body_ne (by simp) values⟩

theorem Scope.selfContained_builtins : Scope.builtins.SelfContained :=
  fun _ _ hf => (Builtin.failsByArity hf).selfContained

/-! ### Formulas -/

namespace Formula

/-- **No captured call of a formula meets an undefined function**, nor, where `~` is not defined,
an absent side; the built-in functions are what is asked of a scope. -/
theorem capturedCalls_interpretable :
    Scope.builtins.SelfContained ∧
      ∀ (S : Scope) (input : String) (f : Formula), S.SelfContained → ofText S input = .ok f →
        ∀ c ∈ f.normalized.capturedCalls, ∀ row : Row,
          (∀ name, c.closure.evaluate row ≠ .error (.undefinedFunction name)) ∧
          (S.defines "~" = false →
            ∀ what, c.closure.evaluate row ≠ .error (.notEvaluable what)) := by
  refine ⟨Scope.selfContained_builtins, ?_⟩
  intro S input f hS hinput c hc row
  obtain ⟨hwf, hf⟩ := ofText_eq_ok hinput
  have hcaptured := Term.captured_of_lowers hwf _ (lowers_normalized hf) c hc
  have hbody := hS _ _ hcaptured.resolve_eq
  rw [Closure.evaluate, hcaptured.scope_eq]
  constructor
  · intro name
    refine Scope.applyTo_ne_error (fun _ _ _ => by simp) (fun values => (hbody values name).1) ?_
    intro e he
    exact Scope.eval_ne_undefinedFunction hS (hcaptured.wellFormed e he) (hcaptured.covers e he)
      name
  · intro htilde what
    refine Scope.applyTo_ne_error (fun _ _ _ => by simp) (fun values => (hbody values what).2) ?_
    intro e he
    exact Scope.eval_ne_notEvaluable hS htilde (hcaptured.wellFormed e he) (hcaptured.covers e he)
      what

/-- The formula of `y ~ log(x)` with the built-in functions. -/
def logarithm : Formula where
  expr := .call "~" [.symbol "y", .call "log" [.symbol "x"]]
  lhs := .column "y"
  rhs := .captured ⟨.unary "log" Float.log, [.symbol "x"], .builtins⟩ [.column "x"]

theorem ofText_logarithm : ofText .builtins "y ~ log(x)" = .ok logarithm := by
  have hx : ∀ e ∈ [Expr.symbol "x"], WellFormed e ∧ e.Legible := List.forall_mem_singleton.mpr
    ⟨.symbol (isName_of_all rfl rfl rfl), Expr.legible_symbol "x"⟩
  have hcall : WellFormed (.call "log" [.symbol "x"]) ∧ (Expr.call "log" [.symbol "x"]).Legible :=
    ⟨.applied (isName_of_all rfl rfl rfl) fun e he => (hx e he).1,
      Expr.legible_call_iff.mpr ⟨by simp, fun e he => (hx e he).2⟩⟩
  have hwf : WellFormed logarithm.expr :=
    .sides (by simp) (.symbol (isName_of_all rfl rfl rfl)) (List.forall_mem_singleton.mpr hcall.1)
  have hlegible : logarithm.expr.Legible := Expr.legible_call_iff.mpr ⟨by simp,
    List.forall_mem_cons.mpr ⟨Expr.legible_symbol "y", List.forall_mem_singleton.mpr hcall.2⟩⟩
  have htext : logarithm.expr.text = "y ~ log(x)" := by decide
  rw [← htext, ofText_text_of_legible hwf hlegible]
  rfl

/-- The only captured call of `y ~ log(x)` can be evaluated for every row. -/
theorem capturedCalls_logarithm :
    ∃ f, ofText .builtins "y ~ log(x)" = .ok f ∧ f.normalized.capturedCalls ≠ [] ∧
      ∀ c ∈ f.normalized.capturedCalls, ∀ row : Row,
        (∀ name, c.closure.evaluate row ≠ .error (.undefinedFunction name)) ∧
        ∀ what, c.closure.evaluate row ≠ .error (.notEvaluable what) := by
  refine ⟨logarithm, ofText_logarithm, ?_, ?_⟩
  · simp [logarithm, normalized, Term.capturedCalls, Term.capturedCallsAll]
  · intro c hc row
    obtain ⟨hbuiltins, hevaluates⟩ := capturedCalls_interpretable
    obtain ⟨hundefined, htilde⟩ :=
      hevaluates .builtins _ logarithm hbuiltins ofText_logarithm c hc row
    exact ⟨hundefined, htilde (by decide)⟩

end Formula

end ModelFormula
