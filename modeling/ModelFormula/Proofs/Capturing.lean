import ModelFormula.Proofs.Mentioned

/-!
# Capturing a call

A captured call is made of an expression and of terms for its arguments.  Three things are asked
for, one after the other: that the expression is a call, that there is a term for each argument, and
that the operator of the call and those of the calls inside it are defined, a call before the calls
in it.  The terms are counted and kept, and no value depends on them.

* `Scope.firstUndefined?_call` — the operator of a call is looked up before those inside it;
* `CapturedCall.capture_of_undefined` — the first operator that is not defined is reported;
* `CapturedCall.capture_of_covers` — a call is captured if all its operators are defined;
* `CapturedCall.capture_replaced` — as many other terms make the same call of them;
* `CapturedCall.capture_outcome` — **what capturing an expression gives, in every case.**
-/

set_option autoImplicit false

namespace ModelFormula

/-! ### The operators of a call -/

namespace Scope

variable {S : Scope}

/-- The operator of a call is looked up before those of the calls inside it. -/
theorem firstUndefined?_call {op : String} {args : List Expr} :
    S.firstUndefined? [.call op args] =
      if S.defines op then S.firstUndefined? args else some op := by
  rw [firstUndefined?, Expr.nodesAll_cons, Expr.nodes_call, Expr.nodesAll_nil, List.append_nil,
    List.filterMap_cons_some (Expr.head?_call op args), List.find?_cons]
  cases S.defines op <;> rfl

/-- The first undefined operator of an expression stands behind defined ones only. -/
theorem firstUndefined?_of_operators {e : Expr} {before after : List String} {name : String}
    (he : e.operators = before ++ name :: after) (hbefore : ∀ o ∈ before, S.defines o = true)
    (hname : S.defines name = false) : S.firstUndefined? [e] = some name := by
  refine firstUndefined?_eq_some_iff.mpr ⟨before, after, ?_, hbefore, hname⟩
  rw [Expr.nodesAll_cons, Expr.nodesAll_nil, List.append_nil]
  exact he

theorem covers_iff_operators {e : Expr} :
    S.Covers e ↔ ∀ o ∈ e.operators, S.defines o = true := by
  constructor
  · intro h o ho
    obtain ⟨args, hmem⟩ := Expr.mem_operators_iff.mp ho
    exact h o args hmem
  · intro h op args hmem
    exact h op (Expr.mem_operators_iff.mpr ⟨args, hmem⟩)

end Scope

/-! ### Capturing -/

namespace CapturedCall

section

variable {S : Scope} {op : String} {args : List Expr} {lowered : List Term}

/-- The first operator that is not defined is reported, with the whole call. -/
theorem capture_of_undefined {name : String} (hlen : lowered.length = args.length)
    (h : S.firstUndefined? [.call op args] = some name) :
    capture S (.call op args) lowered = .error (.unresolved name (.call op args)) := by
  rw [Scope.firstUndefined?_call, Scope.defines] at h
  rw [capture_of_length_eq hlen]
  cases hop : S.resolve op with
  | none =>
      rw [hop, Option.isSome_none, if_neg Bool.false_ne_true, Option.some.injEq] at h
      rw [h]
  | some f =>
      rw [hop, Option.isSome_some, if_pos rfl] at h
      rw [h]

/-- A call is captured if all its operators are defined. -/
theorem capture_of_covers (hlen : lowered.length = args.length) (h : S.Covers (.call op args)) :
    ∃ f, S.resolve op = some f ∧
      capture S (.call op args) lowered = .ok ⟨⟨f, args, S⟩, lowered⟩ := by
  obtain ⟨hop, hargs⟩ := Scope.covers_call_iff.mp h
  obtain ⟨f, hf⟩ := Option.isSome_iff_exists.mp hop
  refine ⟨f, hf, ?_⟩
  rw [capture_of_length_eq hlen, hf, hargs]

/-- As many other terms make the same call of them, or are refused with the same error. -/
theorem capture_replaced (e : Expr) {others : List Term} (h : others.length = lowered.length) :
    capture S e others = (capture S e lowered).map fun c => ⟨c.closure, others⟩ := by
  cases e with
  | symbol name => rfl
  | number value => rfl
  | absent => rfl
  | call op args =>
      by_cases hlen : lowered.length = args.length
      · rw [capture_of_length_eq hlen, capture_of_length_eq (h.trans hlen)]
        cases S.resolve op with
        | none => rfl
        | some f => cases S.firstUndefined? args <;> rfl
      · rw [capture_of_length_ne hlen, capture_of_length_ne (by rwa [h]), h]
        rfl

end

/-- **What capturing an expression gives, in every case.**  What is no call is refused, and so is
another number of terms than of arguments.  Then the first operator that is not defined is reported,
that of the call itself first.  If there is none, the captured call is that of the expression: it
has its variables, each once and by first appearance, it evaluates as the expression does, and it
keeps the terms, though it would evaluate in the same way with any other terms, as many. -/
theorem capture_outcome (S : Scope) (e : Expr) (lowered : List Term) :
    (e.isCall = false →
      capture S e lowered = .error (.malformed e .notCall) ∧
        (FormulaError.malformed e .notCall).message =
          "malformed formula `" ++ e.text ++ "`: " ++ "expected a function call") ∧
    ∀ op args, e = .call op args →
      (lowered.length ≠ args.length →
        capture S e lowered = .error (.malformed e (.loweredCount args.length lowered.length)) ∧
          (FormulaError.malformed e (.loweredCount args.length lowered.length)).message =
            "malformed formula `" ++ e.text ++ "`: " ++
              ("expected " ++ toString args.length ++ " lowered arguments, got " ++
                toString lowered.length)) ∧
      (lowered.length = args.length →
        (∀ before name after, e.operators = before ++ name :: after →
          (∀ o ∈ before, S.defines o = true) → S.defines name = false →
          capture S e lowered = .error (.unresolved name e) ∧
            (FormulaError.unresolved name e).message =
              "function `" ++ name ++ "` in `" ++ e.text ++ "` is not defined in scope") ∧
        ((∀ o ∈ e.operators, S.defines o = true) →
          ∃ c, capture S e lowered = .ok c ∧ c.closure.expr = e ∧
            c.closure.freeVariables = (e.nodes.filterMap Expr.symbol?).eraseDups ∧
            c.lowered = lowered ∧ (∀ row, c.closure.evaluate row = S.eval row e) ∧
            ∀ others : List Term, others.length = lowered.length →
              ∃ d, capture S e others = .ok d ∧ d.lowered = others ∧
                (∀ row, d.closure.evaluate row = c.closure.evaluate row) ∧
                ∀ values, d.closure.evaluateAt values = c.closure.evaluateAt values)) := by
  refine ⟨fun hcall => ⟨capture_of_not_call hcall, rfl⟩, ?_⟩
  rintro op args rfl
  refine ⟨fun hlen => ⟨capture_of_length_ne hlen, rfl⟩, ?_⟩
  intro hlen
  constructor
  · intro before name after he hbefore hname
    have hfirst := Scope.firstUndefined?_of_operators he hbefore hname
    exact ⟨capture_of_undefined hlen hfirst, rfl⟩
  · intro hdefined
    obtain ⟨f, hf, hcapture⟩ := capture_of_covers hlen (Scope.covers_iff_operators.mpr hdefined)
    obtain ⟨hexpr, hevaluate⟩ := Reproduces.of_resolve hf args lowered
    refine ⟨_, hcapture, hexpr, Closure.freeVariables_of_capture hcapture, rfl, hevaluate, ?_⟩
    intro others hothers
    refine ⟨⟨⟨f, args, S⟩, others⟩, ?_, rfl, fun _ => rfl, fun _ => rfl⟩
    rw [capture_replaced _ hothers, hcapture]
    rfl

/-- The expression `exp(g(b) + f(a))`. -/
def twoUndefined : Expr :=
  .call "exp" [.call "+" [.call "g" [.symbol "b"], .call "f" [.symbol "a"]]]

/-- Among the built-in functions neither `a` nor `log(a)` without a term is captured, and of what
`exp(g(b) + f(a))` lacks it is `g` that is reported.  The difference of `b` and `log(a)` is captured
with its two variables, and evaluates in the same way with other terms than its own. -/
theorem capture_outcome_builtins :
    capture .builtins (.symbol "a") [] = .error (.malformed (.symbol "a") .notCall) ∧
      capture .builtins (.call "log" [.symbol "a"]) [] =
        .error (.malformed (.call "log" [.symbol "a"]) (.loweredCount 1 0)) ∧
      capture .builtins twoUndefined [.column "b"] = .error (.unresolved "g" twoUndefined) ∧
      ∃ c d, capture .builtins (.call "-" [.symbol "b", .call "log" [.symbol "a"]])
            [.column "b", .column "a"] = .ok c ∧
        capture .builtins (.call "-" [.symbol "b", .call "log" [.symbol "a"]])
            [.absent, .constant 1] = .ok d ∧
        c.closure.freeVariables = ["b", "a"] ∧
        ∀ row, d.closure.evaluate row = c.closure.evaluate row := by
  refine ⟨?notCall, ?count, ?undefined, ?captured⟩
  case notCall => exact ((capture_outcome .builtins (.symbol "a") []).1 rfl).1
  case count =>
    have hcount := (capture_outcome .builtins (.call "log" [.symbol "a"]) []).2 _ _ rfl
    exact (hcount.1 (by decide)).1
  case undefined =>
    have hcall := (capture_outcome .builtins twoUndefined [.column "b"]).2 _ _ rfl
    exact ((hcall.2 rfl).1 ["exp", "+"] "g" ["f"] rfl (by decide) (by decide)).1
  case captured =>
    have hcall := (capture_outcome .builtins (.call "-" [.symbol "b", .call "log" [.symbol "a"]])
      [.column "b", .column "a"]).2 _ _ rfl
    have hdefined : ∀ o ∈ (Expr.call "-" [.symbol "b", .call "log" [.symbol "a"]]).operators,
        Scope.builtins.defines o = true := by decide
    obtain ⟨c, hc, -, hvariables, -, -, hothers⟩ := (hcall.2 rfl).2 hdefined
    obtain ⟨d, hd, -, hevaluate, -⟩ := hothers [.absent, .constant 1] rfl
    exact ⟨c, d, hc, hd, hvariables, hevaluate⟩

end CapturedCall

end ModelFormula
