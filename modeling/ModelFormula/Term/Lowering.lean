import ModelFormula.Formula.Error
import ModelFormula.Term.Basic

/-!
# From expressions to terms

Formula operators keep their structure.  Any other call is captured: its function, and that of
every call inside its arguments, must be defined in the scope at hand, and the scope is kept.

* `CapturedCall.capture` — captures a call, given its arguments as terms;
* `Term.lower` — the term of an expression; arguments come before the call they belong to;
* `Term.ofExpr` — **the term of an expression without escape markers**, which are reported before
  anything else.
-/

set_option autoImplicit false

namespace ModelFormula

/-- The first operator, in the order of `Expr.nodes`, that a scope does not define. -/
def Scope.firstUndefined? (S : Scope) (es : List Expr) : Option String :=
  ((Expr.nodesAll es).filterMap Expr.head?).find? fun op => !S.defines op

/-- Captures a call, given its arguments as terms.  Its head is looked up first, then the calls
inside its arguments. -/
def CapturedCall.capture (S : Scope) (e : Expr) (lowered : List Term) :
    Except FormulaError CapturedCall :=
  match e.requireCall with
  | .error err => .error err
  | .ok (op, args) =>
    if lowered.length = args.length then
      match S.resolve op with
      | none => .error (.unresolved op e)
      | some f =>
        match S.firstUndefined? args with
        | some name => .error (.unresolved name e)
        | none => .ok ⟨⟨f, args, S⟩, lowered⟩
    else .error (.malformed e (.loweredCount args.length lowered.length))

namespace CapturedCall

variable {S : Scope} {lowered : List Term}

theorem capture_of_not_call {e : Expr} (h : e.isCall = false) :
    capture S e lowered = .error (.malformed e .notCall) := by
  cases e with
  | call op args => cases h
  | symbol name => rfl
  | number value => rfl
  | absent => rfl

theorem capture_of_length_ne {op : String} {args : List Expr}
    (h : lowered.length ≠ args.length) :
    capture S (.call op args) lowered =
      .error (.malformed (.call op args) (.loweredCount args.length lowered.length)) := by
  simp only [capture, Expr.requireCall, Expr.asCall?, if_neg h]

theorem capture_of_length_eq {op : String} {args : List Expr} (h : lowered.length = args.length) :
    capture S (.call op args) lowered =
      match S.resolve op with
      | none => .error (.unresolved op (.call op args))
      | some f =>
        match S.firstUndefined? args with
        | some name => .error (.unresolved name (.call op args))
        | none => .ok ⟨⟨f, args, S⟩, lowered⟩ := by
  simp only [capture, Expr.requireCall, Expr.asCall?, if_pos h]

/-- A captured call holds the function of its head, and every call below it is defined. -/
theorem eq_of_capture {e : Expr} {c : CapturedCall} (h : capture S e lowered = .ok c) :
    ∃ op args f, e = .call op args ∧ S.resolve op = some f ∧ S.firstUndefined? args = none ∧
      c = ⟨⟨f, args, S⟩, lowered⟩ := by
  cases e with
  | call op args =>
      by_cases hlen : lowered.length = args.length
      · rw [capture_of_length_eq hlen] at h
        split at h
        · cases h
        · rename_i f hf
          split at h
          · cases h
          · rename_i hdefined
            cases h
            exact ⟨op, args, f, rfl, hf, hdefined, rfl⟩
      · rw [capture_of_length_ne hlen] at h
        cases h
  | symbol name => cases h
  | number value => cases h
  | absent => cases h

end CapturedCall

namespace Term

mutual
/-- The term of an expression. -/
def lower (S : Scope) : Expr → Except FormulaError Term
  | .absent => .ok .absent
  | .symbol name => .ok (.column name)
  | .number value => .ok (.constant value)
  | .call head args =>
    -- a fault inside an argument is reported before one of the call itself
    match lowerAll S args with
    | .error err => .error err
    | .ok lowered =>
      match FormulaOp.ofSymbol? head with
      | some o => .ok (.op o lowered)
      | none =>
        match CapturedCall.capture S (.call head args) lowered with
        | .ok call => .ok call.term
        | .error err => .error err

/-- The terms of a list of expressions, from left to right. -/
def lowerAll (S : Scope) : List Expr → Except FormulaError (List Term)
  | [] => .ok []
  | e :: es =>
    match lower S e with
    | .error err => .error err
    | .ok t =>
      match lowerAll S es with
      | .error err => .error err
      | .ok ts => .ok (t :: ts)
end

/-- The term of an expression without escape markers. -/
def ofExpr (S : Scope) (e : Expr) : Except FormulaError Term :=
  match e.requireUnescaped with
  | .error err => .error err
  | .ok () => lower S e

@[simp] theorem lower_absent (S : Scope) : lower S .absent = .ok .absent := by rw [lower]
@[simp] theorem lower_symbol (S : Scope) (name : String) :
    lower S (.symbol name) = .ok (.column name) := by rw [lower]
@[simp] theorem lower_number (S : Scope) (value : Float) :
    lower S (.number value) = .ok (.constant value) := by rw [lower]
@[simp] theorem lowerAll_nil (S : Scope) : lowerAll S [] = .ok [] := by rw [lowerAll]

/-- There is one term for each expression. -/
theorem length_of_lowerAll {S : Scope} {es : List Expr} {ts : List Term}
    (h : lowerAll S es = .ok ts) : ts.length = es.length := by
  induction es generalizing ts with
  | nil => simp_all
  | cons e es ih =>
      rw [lowerAll] at h
      split at h
      · simp at h
      · split at h
        · simp at h
        · rename_i hes
          simp only [Except.ok.injEq] at h
          rw [← h, List.length_cons, List.length_cons, ih hes]

end Term

end ModelFormula
