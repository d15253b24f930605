import ModelFormula.Proofs.Interpretable

/-!
# Which fault is reported

An expression may be at fault in many places at once.  Escape markers are looked for first, calls
before their arguments; then every ordinary call is captured, arguments before the call they belong
to, and what is missing for one call is looked for in the first order again.

* `Expr.postorder` — every subexpression, a call **after** its arguments;
* `Expr.isOrdinary` — a call of anything but a formula operator;
* `Scope.Resolves` — all that an ordinary call and the calls inside it need is defined;
* `Scope.fault?` — the fault of one ordinary call;
* `Term.reported_lower` — lowering reports **the first fault in post-order**;
* `Term.ofExpr_outcome` — **when an expression has a term, and which fault is reported when it has
  none.**
-/

set_option autoImplicit false

namespace ModelFormula

/-! ### Post-order -/

namespace Expr

mutual
/-- Every subexpression, a call after its arguments, arguments left to right. -/
def postorder : Expr → List Expr
  | .call op args => postorderAll args ++ [.call op args]
  | .symbol name => [.symbol name]
  | .number value => [.number value]
  | .absent => [.absent]

/-- Every subexpression of a list of expressions, one expression after the other. -/
def postorderAll : List Expr → List Expr
  | [] => []
  | e :: es => postorder e ++ postorderAll es
end

theorem postorderAll_perm {es : List Expr} (h : ∀ e ∈ es, e.postorder.Perm e.nodes) :
    (postorderAll es).Perm (nodesAll es) := by
  induction es with
  | nil => rw [postorderAll, nodesAll_nil]
  | cons e es ih =>
      rw [postorderAll, nodesAll_cons]
      exact (h e List.mem_cons_self).append (ih fun d hd => h d (List.mem_cons_of_mem _ hd))

/-- Both orders visit the same subexpressions, each as often. -/
theorem postorder_perm (e : Expr) : e.postorder.Perm e.nodes := by
  induction e using inductionCalls with
  | symbol name => rw [postorder, nodes_symbol]
  | number value => rw [postorder, nodes_number]
  | absent => rw [postorder, nodes_absent]
  | call op args ih =>
      rw [postorder, nodes_call]
      exact (List.perm_append_singleton _ _).trans ((postorderAll_perm ih).cons _)

/-! ### Ordinary calls -/

/-- Whether an expression is a call, but not one of a formula operator. -/
def isOrdinary : Expr → Bool
  | .call op _ => decide (op ∉ ["+", "&", "*", "~"])
  | _ => false

theorem isOrdinary_call_iff {op : String} {args : List Expr} :
    (call op args).isOrdinary = true ↔ FormulaOp.ofSymbol? op = none := by
  have hsymbols : FormulaOp.all.map FormulaOp.symbol = ["+", "&", "*", "~"] := rfl
  rw [isOrdinary, decide_eq_true_iff, ← hsymbols, FormulaOp.ofSymbol?, List.find?_eq_none]
  simp

end Expr

/-! ### The fault of one call -/

namespace Scope

variable {S : Scope}

/-- If an expression is an ordinary call, then it and every call inside it are defined. -/
def Resolves (S : Scope) (c : Expr) : Prop := c.isOrdinary = true → S.Covers c

/-- The name that is missing for a call: that of its own operator, or the first one inside its
arguments, a call before the calls in it. -/
def Lacks (S : Scope) (op : String) (args : List Expr) (name : String) : Prop :=
  (S.defines op = false ∧ name = op) ∨
    (S.defines op = true ∧ ∃ before after,
      (Expr.nodesAll args).filterMap Expr.head? = before ++ name :: after ∧
        (∀ o ∈ before, S.defines o = true) ∧ S.defines name = false)

/-- The fault of an ordinary call, if a function is missing for it. -/
def fault? (S : Scope) : Expr → Option FormulaError
  | .call op args =>
    if (Expr.call op args).isOrdinary then
      (if S.defines op then S.firstUndefined? args else some op).map
        fun name => .unresolved name (.call op args)
    else none
  | _ => none

theorem firstUndefined?_eq_some_iff {es : List Expr} {name : String} :
    S.firstUndefined? es = some name ↔ ∃ before after,
      (Expr.nodesAll es).filterMap Expr.head? = before ++ name :: after ∧
        (∀ o ∈ before, S.defines o = true) ∧ S.defines name = false := by
  rw [firstUndefined?, List.find?_eq_some_iff_append]
  constructor
  · rintro ⟨hname, before, after, hheads, hbefore⟩
    exact ⟨before, after, hheads, by simpa using hbefore, by simpa using hname⟩
  · rintro ⟨before, after, hheads, hbefore, hname⟩
    exact ⟨by simpa using hname, before, after, hheads, by simpa using hbefore⟩

/-- A call is covered if its operator is defined and no undefined operator is found inside it. -/
theorem covers_call_iff {op : String} {args : List Expr} :
    S.Covers (.call op args) ↔ S.defines op = true ∧ S.firstUndefined? args = none := by
  constructor
  · intro h
    refine ⟨h op args (Expr.mem_nodes_self _), List.find?_eq_none.mpr ?_⟩
    intro o ho
    obtain ⟨d, hd, hhead⟩ := List.mem_filterMap.mp ho
    cases d with
    | call f ds =>
        cases hhead
        have hmem : Expr.call o ds ∈ (Expr.call op args).nodes := by
          rw [Expr.nodes_call]
          exact List.mem_cons_of_mem _ hd
        simp [h o ds hmem]
    | symbol _ => cases hhead
    | number _ => cases hhead
    | absent => cases hhead
  · rintro ⟨hop, hargs⟩ f ds hmem
    rcases Expr.mem_nodes_call_iff.mp hmem with heq | ⟨e, he, hd⟩
    · cases heq
      exact hop
    · exact covers_of_firstUndefined? hargs e he f ds hd

/-- A call is at fault just if it does not resolve. -/
theorem fault?_eq_none_iff {c : Expr} : S.fault? c = none ↔ S.Resolves c := by
  cases c with
  | symbol _ => simp [fault?, Resolves, Expr.isOrdinary]
  | number _ => simp [fault?, Resolves, Expr.isOrdinary]
  | absent => simp [fault?, Resolves, Expr.isOrdinary]
  | call op args =>
      rw [fault?, Resolves, covers_call_iff]
      by_cases hordinary : (Expr.call op args).isOrdinary = true
      · rw [if_pos hordinary, Option.map_eq_none_iff]
        cases hop : S.defines op <;> simp [hordinary]
      · simp [hordinary]

/-- A call that does not resolve is at fault for the name that is missing for it. -/
theorem exists_lacks_of_not_resolves {c : Expr} (h : ¬S.Resolves c) :
    ∃ op args name, c = .call op args ∧ S.Lacks op args name ∧
      S.fault? c = some (.unresolved name c) := by
  obtain ⟨err, herr⟩ := Option.ne_none_iff_exists'.mp (mt fault?_eq_none_iff.mp h)
  cases c with
  | symbol _ => cases herr
  | number _ => cases herr
  | absent => cases herr
  | call op args =>
      rw [fault?] at herr
      split at herr
      · rename_i hordinary
        obtain ⟨name, hname, rfl⟩ := Option.map_eq_some_iff.mp herr
        refine ⟨op, args, name, rfl, ?_, ?_⟩
        · cases hop : S.defines op with
          | false =>
              rw [hop, if_neg Bool.false_ne_true, Option.some.injEq] at hname
              exact Or.inl ⟨hop, hname.symm⟩
          | true =>
              rw [hop, if_pos rfl] at hname
              exact Or.inr ⟨hop, firstUndefined?_eq_some_iff.mp hname⟩
        · rw [fault?, if_pos hordinary, hname, Option.map_some]
      · cases herr

end Scope

/-! ### The fault of an expression -/

namespace Term

variable {S : Scope}

/-- The error of an outcome, if it is one. -/
def reported {α : Type} : Except FormulaError α → Option FormulaError
  | .ok _ => none
  | .error err => some err

/-- Capturing an ordinary call, given one term for each argument, reports the fault of the call. -/
theorem reported_capture {op : String} {args : List Expr} {ts : List Term}
    (hordinary : (Expr.call op args).isOrdinary = true) (hlen : ts.length = args.length) :
    reported (CapturedCall.capture S (.call op args) ts) = S.fault? (.call op args) := by
  rw [CapturedCall.capture_of_length_eq hlen, Scope.fault?, if_pos hordinary, Scope.defines]
  cases S.resolve op with
  | none => rfl
  | some f =>
      cases S.firstUndefined? args with
      | none => rfl
      | some name => rfl

theorem reported_lowerAll {es : List Expr}
    (h : ∀ e ∈ es, reported (lower S e) = e.postorder.findSome? S.fault?) :
    reported (lowerAll S es) = (Expr.postorderAll es).findSome? S.fault? := by
  induction es with
  | nil =>
      rw [lowerAll_nil, Expr.postorderAll]
      rfl
  | cons e es ih =>
      have he := h e List.mem_cons_self
      have hes := ih fun d hd => h d (List.mem_cons_of_mem _ hd)
      rw [lowerAll, Expr.postorderAll, List.findSome?_append, ← he, ← hes]
      cases lower S e with
      | error err => rfl
      | ok t => cases lowerAll S es <;> rfl

/-- **Lowering reports the first fault in post-order.** -/
theorem reported_lower (e : Expr) : reported (lower S e) = e.postorder.findSome? S.fault? := by
  induction e using Expr.inductionCalls with
  | symbol name =>
      rw [lower_symbol, Expr.postorder]
      rfl
  | number value =>
      rw [lower_number, Expr.postorder]
      rfl
  | absent =>
      rw [lower_absent, Expr.postorder]
      rfl
  | call op args ih =>
      rw [lower, Expr.postorder, List.findSome?_append, ← reported_lowerAll ih]
      cases hargs : lowerAll S args with
      | error err => rfl
      | ok ts =>
          -- no argument is at fault, so what is reported is the fault of the call itself
          simp only [reported, Option.none_or, List.findSome?_singleton]
          cases hop : FormulaOp.ofSymbol? op with
          | some o =>
              have hspecial : ¬(Expr.call op args).isOrdinary = true := by
                simp [Expr.isOrdinary_call_iff, hop]
              rw [Scope.fault?, if_neg hspecial]
          | none =>
              have hordinary : (Expr.call op args).isOrdinary = true :=
                Expr.isOrdinary_call_iff.mpr hop
              rw [← reported_capture hordinary (length_of_lowerAll hargs)]
              cases CapturedCall.capture S (.call op args) ts <;> rfl

theorem exists_ok_iff_reported {α : Type} {outcome : Except FormulaError α} :
    (∃ x, outcome = .ok x) ↔ reported outcome = none := by
  cases outcome <;> simp [reported]

theorem eq_error_iff_reported {α : Type} {outcome : Except FormulaError α} {err : FormulaError} :
    outcome = .error err ↔ reported outcome = some err := by
  cases outcome <;> simp [reported]

/-- An expression without escape markers has the term that it is lowered to. -/
theorem ofExpr_of_unescaped {e : Expr} (h : e.firstEscape? = none) : ofExpr S e = lower S e := by
  rw [ofExpr, Expr.requireUnescaped_eq, h]
  rfl

/-- Everything has a term just if all ordinary calls resolve. -/
theorem exists_lower_eq_ok_iff {e : Expr} :
    (∃ t, lower S e = .ok t) ↔ ∀ c ∈ e.nodes, S.Resolves c := by
  rw [exists_ok_iff_reported, reported_lower, List.findSome?_eq_none_iff]
  constructor
  · intro h c hc
    exact Scope.fault?_eq_none_iff.mp (h c (e.postorder_perm.mem_iff.mpr hc))
  · intro h c hc
    exact Scope.fault?_eq_none_iff.mpr (h c (e.postorder_perm.mem_iff.mp hc))

/-- The first call in post-order that does not resolve is the one that is reported. -/
theorem lower_eq_error_of_first {e c : Expr} {before after : List Expr} {err : FormulaError}
    (he : e.postorder = before ++ c :: after) (hbefore : ∀ d ∈ before, S.Resolves d)
    (hfault : S.fault? c = some err) : lower S e = .error err := by
  rw [eq_error_iff_reported, reported_lower, he, List.findSome?_eq_some_iff]
  exact ⟨before, c, after, rfl, hfault, fun d hd => Scope.fault?_eq_none_iff.mpr (hbefore d hd)⟩

/-- **When an expression has a term, and which fault is reported when it has none**: the first
escape marker, a call before its arguments; or else, for the first call after its arguments that
does not resolve, the name that is missing for it. -/
theorem ofExpr_outcome (S : Scope) (e : Expr) :
    (∀ d, e.nodes.find? Expr.isEscape = some d →
      ofExpr S e = .error (.escaped d) ∧
      (FormulaError.escaped d).message =
        "unsupported syntax: `" ++ d.text ++ "` contains an escape marker") ∧
    (e.nodes.find? Expr.isEscape = none →
      ((∃ t, ofExpr S e = .ok t) ↔ ∀ c ∈ e.nodes, S.Resolves c) ∧
      ∀ before c after, e.postorder = before ++ c :: after →
        (∀ d ∈ before, S.Resolves d) → ¬S.Resolves c →
        ∃ op args name, c = .call op args ∧ S.Lacks op args name ∧
          ofExpr S e = .error (.unresolved name c) ∧
          (FormulaError.unresolved name c).message =
            "function `" ++ name ++ "` in `" ++ c.text ++ "` is not defined in scope") := by
  constructor
  · intro d hd
    refine ⟨?_, rfl⟩
    rw [ofExpr, Expr.requireUnescaped_eq, Expr.firstEscape?, hd]
    rfl
  · intro hunescaped
    rw [ofExpr_of_unescaped hunescaped]
    refine ⟨exists_lower_eq_ok_iff, ?_⟩
    intro before c after he hbefore hc
    obtain ⟨op, args, name, rfl, hlacks, hfault⟩ := Scope.exists_lacks_of_not_resolves hc
    exact ⟨op, args, name, rfl, hlacks, lower_eq_error_of_first he hbefore hfault, rfl⟩

/-- In `f($a)` the marker is reported, though nothing is defined; in `exp(a ~ b)` the tilde, which
no built-in function stands for, is what the call of `exp` lacks. -/
theorem ofExpr_faults :
    ofExpr .empty (.call "f" [.call "$" [.symbol "a"]]) =
        .error (.escaped (.call "$" [.symbol "a"])) ∧
      ofExpr .builtins (.call "exp" [.call "~" [.symbol "a", .symbol "b"]]) =
        .error (.unresolved "~" (.call "exp" [.call "~" [.symbol "a", .symbol "b"]])) := by
  constructor
  · exact ((ofExpr_outcome .empty (.call "f" [.call "$" [.symbol "a"]])).1
      (.call "$" [.symbol "a"]) (by simp [Expr.isEscape, Expr.isCallTo, Expr.escapeOp])).1
  · have htilde : Scope.builtins.defines "~" = false := by decide
    obtain ⟨-, hfirst⟩ :=
      (ofExpr_outcome .builtins (.call "exp" [.call "~" [.symbol "a", .symbol "b"]])).2
        (by simp [Expr.isEscape, Expr.isCallTo, Expr.escapeOp])
    obtain ⟨op, args, name, hc, hlacks, herr, -⟩ :=
      hfirst [.symbol "a", .symbol "b", .call "~" [.symbol "a", .symbol "b"]]
        (.call "exp" [.call "~" [.symbol "a", .symbol "b"]]) []
        (by simp [Expr.postorder, Expr.postorderAll])
        (by simp [Scope.Resolves, Expr.isOrdinary])
        (by
          intro hresolves
          have hcovers := hresolves (by decide)
          have hdefined := hcovers "~" [.symbol "a", .symbol "b"] (by simp)
          rw [htilde] at hdefined
          cases hdefined)
    cases hc
    rw [herr]
    rcases hlacks with ⟨hexp, -⟩ | ⟨-, before, after, hheads, hbefore, hname⟩
    · exact absurd hexp (by decide)
    · simp only [Expr.nodesAll_cons, Expr.nodes_call, Expr.nodes_symbol, Expr.nodesAll_nil,
        List.filterMap_cons, List.filterMap_nil, Expr.head?_call, Expr.head?_symbol,
        List.append_nil, List.cons_append, List.nil_append] at hheads
      cases before with
      | nil =>
          cases hheads
          rfl
      | cons o before => simp at hheads

end Term

end ModelFormula
