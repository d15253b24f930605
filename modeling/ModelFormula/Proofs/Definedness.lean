import ModelFormula.Proofs.Coincidence
import ModelFormula.Proofs.Outcomes

/-!
# When an expression has a value

No built-in function looks at the values it is given before it fails: only their number counts.
So it can be told from the names that a row binds, and from the shape of an expression, whether the
expression has a value.

* `Function.Accepts` — a function has a value for so many arguments, whatever they are;
* `Scope.Evaluable` — what is asked of each subexpression;
* `Scope.exists_eval_iff` — in a scope of functions that fail by number only, **an expression has a
  value just if each of its subexpressions is evaluable**;
* `Builtin.accepts_iff` — how many arguments each built-in function takes;
* `Scope.eval_builtins_outcome` — **among the built-in functions, whether there is a value does not
  depend on the values of the variables.**
-/

set_option autoImplicit false

namespace ModelFormula

/-! ### Functions that fail by number -/

/-- Whether a function fails, and with which error, depends on the number of its arguments only. -/
def Function.FailsByNumber (f : Function) : Prop := f.Respects fun _ _ => True

/-- A function has a value for any arguments of a number. -/
def Function.Accepts (f : Function) (n : Nat) : Prop :=
  ∀ values, values.length = n → ∃ x, f.apply values = .ok x

/-- Where values are not compared, lists of one length are related. -/
theorem forall₂_true_iff {α β : Type} {xs : List α} {ys : List β} :
    List.Forall₂ (fun _ _ => True) xs ys ↔ xs.length = ys.length := by
  rw [List.forall₂_iff_get]
  exact and_iff_left fun _ _ _ => trivial

theorem Function.FailsByNumber.exists_apply_iff {f : Function} (hf : f.FailsByNumber)
    (values : List Float) : (∃ x, f.apply values = .ok x) ↔ f.Accepts values.length := by
  constructor
  · rintro ⟨x, hx⟩ others hlen
    have hsame := hf values others (forall₂_true_iff.mpr hlen.symm)
    rw [hx] at hsame
    generalize f.apply others = outcome at hsame ⊢
    cases hsame with
    | @ok _ y _ => exact ⟨y, rfl⟩
  · intro h
    exact h values rfl

namespace Scope

variable {S : Scope} {row : Row}

/-- All functions of a scope fail by the number of their arguments. -/
def FailsByNumber (S : Scope) : Prop := ∀ name f, S.resolve name = some f → f.FailsByNumber

/-- A scope has a function for a name that has a value for any arguments of a number. -/
def Accepts (S : Scope) (name : String) (n : Nat) : Prop :=
  ∃ f, S.resolve name = some f ∧ f.Accepts n

/-- What is asked of a subexpression alone: a variable must be bound, nothing may be absent, and a
call must have as many arguments as its function takes. -/
def Evaluable (S : Scope) (row : Row) : Expr → Prop
  | .call op args => S.Accepts op args.length
  | .symbol name => ∃ x, row.get? name = some x
  | .number _ => True
  | .absent => False

/-! ### Expressions with a value -/

/-- Operands have values together just if each has its own. -/
theorem evalAll_eq_ok_iff {es : List Expr} {values : List Float} :
    S.evalAll row es = .ok values ↔
      List.Forall₂ (fun e x => S.eval row e = .ok x) es values := by
  induction es generalizing values with
  | nil =>
      rw [evalAll_nil, List.forall₂_nil_left_iff, Except.ok.injEq]
      exact eq_comm
  | cons e es ih =>
      rw [evalAll, List.forall₂_cons_left_iff]
      constructor
      · intro h
        split at h
        · cases h
        · rename_i x hx
          split at h
          · cases h
          · rename_i others hothers
            cases h
            exact ⟨x, others, hx, ih.mp hothers, rfl⟩
      · rintro ⟨x, others, hx, hothers, rfl⟩
        have hall := ih.mpr hothers
        simp only [hx, hall]

theorem exists_evalAll_iff {es : List Expr} :
    (∃ values, S.evalAll row es = .ok values) ↔ ∀ e ∈ es, ∃ x, S.eval row e = .ok x := by
  constructor
  · rintro ⟨values, h⟩
    exact exists_eval_of_evalAll h
  · intro h
    induction es with
    | nil => exact ⟨[], evalAll_nil S row⟩
    | cons e es ih =>
        obtain ⟨⟨x, hx⟩, hes⟩ := List.forall_mem_cons.mp h
        obtain ⟨values, hvalues⟩ := ih hes
        exact ⟨x :: values, evalAll_eq_ok_iff.mpr (.cons hx (evalAll_eq_ok_iff.mp hvalues))⟩

theorem applyTo_eq_ok_iff {f : Function} {args : List Expr} {x : Float} :
    S.applyTo row f args = .ok x ↔
      ∃ values, S.evalAll row args = .ok values ∧ f.apply values = .ok x := by
  rw [applyTo]
  cases S.evalAll row args <;> simp

/-- A call has a value just if its operands have one and are as many as its function takes. -/
theorem exists_eval_call_iff (hS : S.FailsByNumber) {op : String} {args : List Expr} :
    (∃ x, S.eval row (.call op args) = .ok x) ↔
      S.Accepts op args.length ∧ ∀ e ∈ args, ∃ x, S.eval row e = .ok x := by
  cases hop : S.resolve op with
  | none =>
      rw [eval_call_of_resolve_eq_none hop]
      simp [Accepts, hop]
  | some f =>
      have haccepts : S.Accepts op args.length ↔ f.Accepts args.length := by
        simp [Accepts, hop]
      rw [eval_call_of_resolve hop, haccepts, ← exists_evalAll_iff]
      constructor
      · rintro ⟨x, hx⟩
        obtain ⟨values, hvalues, hvalue⟩ := applyTo_eq_ok_iff.mp hx
        have hlen := (evalAll_eq_ok_iff.mp hvalues).length_eq
        rw [hlen]
        exact ⟨((hS op f hop).exists_apply_iff values).mp ⟨x, hvalue⟩, values, hvalues⟩
      · rintro ⟨hf, values, hvalues⟩
        have hlen := (evalAll_eq_ok_iff.mp hvalues).length_eq
        obtain ⟨x, hx⟩ := hf values hlen.symm
        exact ⟨x, applyTo_eq_ok_iff.mpr ⟨values, hvalues, hx⟩⟩

/-- **An expression has a value just if each of its subexpressions is evaluable.** -/
theorem exists_eval_iff (hS : S.FailsByNumber) (e : Expr) :
    (∃ x, S.eval row e = .ok x) ↔ ∀ d ∈ e.nodes, S.Evaluable row d := by
  induction e using Expr.inductionCalls with
  | symbol name =>
      rw [Expr.nodes_symbol, List.forall_mem_singleton, Evaluable, eval]
      cases row.get? name <;> simp
  | number value => simp [Evaluable]
  | absent => simp [Evaluable]
  | call op args ih =>
      rw [exists_eval_call_iff hS, Expr.nodes_call, List.forall_mem_cons,
        Expr.nodesAll_eq_flatMap, List.forall_mem_flatMap, Evaluable]
      exact and_congr_right fun _ => forall₂_congr ih

end Scope

/-! ### The number of arguments -/

/-- A function of a fixed number of arguments accepts this number and no other, if its body does not
fail on so many. -/
theorem Function.accepts_iff_of_arity {f : Function} {k n : Nat} (harity : f.arity = some k)
    (hbody : ∀ values, values.length = k → ∃ x, f.body values = .ok x) :
    f.Accepts n ↔ n = k := by
  constructor
  · intro h
    obtain ⟨x, hx⟩ := h (List.replicate n 0) List.length_replicate
    rw [apply, harity] at hx
    dsimp only at hx
    split at hx
    · rename_i hlen
      rw [hlen, List.length_replicate]
    · cases hx
  · rintro rfl values hlen
    obtain ⟨x, hx⟩ := hbody values hlen
    refine ⟨x, ?_⟩
    rw [apply, harity, hlen]
    exact (if_pos rfl).trans hx

theorem Function.accepts_unary_iff {name : String} {g : Float → Float} {n : Nat} :
    (Function.unary name g).Accepts n ↔ n = 1 := by
  refine accepts_iff_of_arity rfl ?_
  intro values hlen
  obtain ⟨x, rfl⟩ := List.length_eq_one_iff.mp hlen
  exact ⟨g x, rfl⟩

theorem Function.accepts_binary_iff {name : String} {g : Float → Float → Float} {n : Nat} :
    (Function.binary name g).Accepts n ↔ n = 2 := by
  refine accepts_iff_of_arity rfl ?_
  intro values hlen
  obtain ⟨x, y, rfl⟩ := List.length_eq_two.mp hlen
  exact ⟨g x y, rfl⟩

namespace Builtin

theorem accepts_variadic (name : String) (g : List Float → Float) (n : Nat) :
    (variadic name g).Accepts n :=
  fun values _ => ⟨g values, rfl⟩

theorem accepts_minus_iff {n : Nat} : minus.Accepts n ↔ n = 1 ∨ n = 2 := by
  constructor
  · intro h
    obtain ⟨x, hx⟩ := h (List.replicate n 0) List.length_replicate
    match n, hx with
    | 0, hx => cases hx
    | 1, _ => exact .inl rfl
    | 2, _ => exact .inr rfl
    | n + 3, hx => cases hx
  · rintro (rfl | rfl) values hlen
    · obtain ⟨x, rfl⟩ := List.length_eq_one_iff.mp hlen
      exact ⟨-x, rfl⟩
    · obtain ⟨x, y, rfl⟩ := List.length_eq_two.mp hlen
      exact ⟨x - y, rfl⟩

/-! ### Built-in functions -/

/-- The names of the built-in functions. -/
def names : List String :=
  ["+", "-", "*", "/", "^", "&", "log", "exp", "sqrt", "abs", "sin", "cos"]

theorem exists_resolve {name : String} (h : name ∈ names) :
    ∃ f, Scope.builtins.resolve name = some f := by
  have hall : ∀ name ∈ names, (Scope.builtins.resolve name).isSome = true := by decide
  exact Option.isSome_iff_exists.mp (hall name h)

/-- No built-in function looks at its arguments before it fails. -/
theorem failsByNumber : Scope.builtins.FailsByNumber := by
  intro name f hf
  cases family_of_resolve hf with
  | variadic g _ => exact respects_variadic name fun _ _ _ => trivial
  | minus _ => exact respects_minus (fun _ _ _ => trivial) fun _ _ _ _ _ _ => trivial
  | binary g _ => exact Function.respects_binary name fun _ _ _ _ _ _ => trivial
  | unary g _ => exact Function.respects_unary name fun _ _ _ => trivial

/-- How many arguments each of the built-in functions takes. -/
theorem accepts_iff {name : String} {n : Nat} :
    Scope.builtins.Accepts name n ↔
      name ∈ names ∧ (name ∈ ["/", "^"] → n = 2) ∧ (name = "-" → n = 1 ∨ n = 2) ∧
        (name ∈ ["log", "exp", "sqrt", "abs", "sin", "cos"] → n = 1) := by
  constructor
  · rintro ⟨f, hf, hn⟩
    cases family_of_resolve hf with
    | variadic g hname =>
        have hothers : ∀ name ∈ ["+", "*", "&"], name ∈ names ∧ name ∉ ["/", "^"] ∧ name ≠ "-" ∧
            name ∉ ["log", "exp", "sqrt", "abs", "sin", "cos"] := by decide
        obtain ⟨hmem, hbinary, hminus, hunary⟩ := hothers name hname
        exact ⟨hmem, (absurd · hbinary), (absurd · hminus), (absurd · hunary)⟩
    | minus hname =>
        subst hname
        exact ⟨by decide, by simp, fun _ => accepts_minus_iff.mp hn, by simp⟩
    | binary g hname =>
        have hothers : ∀ name ∈ ["/", "^"], name ∈ names ∧ name ≠ "-" ∧
            name ∉ ["log", "exp", "sqrt", "abs", "sin", "cos"] := by decide
        obtain ⟨hmem, hminus, hunary⟩ := hothers name hname
        exact ⟨hmem, fun _ => Function.accepts_binary_iff.mp hn, (absurd · hminus),
          (absurd · hunary)⟩
    | unary g hname =>
        have hothers : ∀ name ∈ ["log", "exp", "sqrt", "abs", "sin", "cos"], name ∈ names ∧
            name ∉ ["/", "^"] ∧ name ≠ "-" := by decide
        obtain ⟨hmem, hbinary, hminus⟩ := hothers name hname
        exact ⟨hmem, (absurd · hbinary), (absurd · hminus),
          fun _ => Function.accepts_unary_iff.mp hn⟩
  · rintro ⟨hmem, hbinary, hminus, hunary⟩
    obtain ⟨f, hf⟩ := exists_resolve hmem
    refine ⟨f, hf, ?_⟩
    cases family_of_resolve hf with
    | variadic g _ => exact accepts_variadic name g n
    | minus hname => exact accepts_minus_iff.mpr (hminus hname)
    | binary g hname => exact Function.accepts_binary_iff.mpr (hbinary hname)
    | unary g hname => exact Function.accepts_unary_iff.mpr (hunary hname)

end Builtin

namespace Scope

/-- Rows that bind the same names are related wherever values are not compared. -/
theorem optionRel_true {a b : Option Float} (h : a.isSome = b.isSome) :
    Option.Rel (fun _ _ => True) a b := by
  cases a with
  | none =>
      cases b with
      | none => exact .none
      | some y => cases h
  | some x =>
      cases b with
      | none => cases h
      | some y => exact .some trivial

/-- **Among the built-in functions, whether an expression has a value does not depend on the values
of its variables.**  Rows that bind the same names give it a value, or the same error; and it has a
value just if all its variables are bound, nothing in it is absent, and every call in it is one of a
built-in function with as many arguments as that takes. -/
theorem eval_builtins_outcome (e : Expr) :
    (∀ r s : Row, (∀ name, (r.get? name).isSome = (s.get? name).isSome) →
      SameOutcome (fun _ _ => True) (builtins.eval r e) (builtins.eval s e)) ∧
    ∀ row : Row, (∃ x, builtins.eval row e = .ok x) ↔
      (∀ name, .symbol name ∈ e.nodes → ∃ x, row.get? name = some x) ∧ .absent ∉ e.nodes ∧
      ∀ op args, .call op args ∈ e.nodes →
        op ∈ ["+", "-", "*", "/", "^", "&", "log", "exp", "sqrt", "abs", "sin", "cos"] ∧
        (op ∈ ["/", "^"] → args.length = 2) ∧
        (op = "-" → args.length = 1 ∨ args.length = 2) ∧
        (op ∈ ["log", "exp", "sqrt", "abs", "sin", "cos"] → args.length = 1) := by
  constructor
  · intro r s hrows
    refine sameOutcome_eval (Expr.alike_refl (fun _ => trivial) e) ?_ ?_
    · intro op args _ f hf
      exact Builtin.failsByNumber op f hf
    · intro name _
      exact optionRel_true (hrows name)
  · intro row
    rw [exists_eval_iff Builtin.failsByNumber]
    constructor
    · intro h
      refine ⟨fun name hname => h _ hname, fun habsent => h _ habsent, ?_⟩
      intro op args hcall
      exact Builtin.accepts_iff.mp (h _ hcall)
    · rintro ⟨hsymbols, habsent, hcalls⟩ d hd
      cases d with
      | call op args => exact Builtin.accepts_iff.mpr (hcalls op args hd)
      | symbol name => exact hsymbols name hd
      | number value => trivial
      | absent => exact absurd hd habsent

/-- The quotient of `1` by `x` has a value where `x` is `0` and where it is `2`, as it must have one
for both or for neither. -/
theorem eval_builtins_reciprocal :
    (∃ x, builtins.eval (.ofPairs [("x", 0)]) (.call "/" [.number 1, .symbol "x"]) = .ok x) ∧
      SameOutcome (fun _ _ => True)
        (builtins.eval (.ofPairs [("x", 0)]) (.call "/" [.number 1, .symbol "x"]))
        (builtins.eval (.ofPairs [("x", 2)]) (.call "/" [.number 1, .symbol "x"])) := by
  obtain ⟨hrows, hvalue⟩ := eval_builtins_outcome (.call "/" [.number 1, .symbol "x"])
  refine ⟨(hvalue _).mpr ⟨?_, ?_, ?_⟩, hrows _ _ ?_⟩
  · intro name hname
    obtain rfl : name = "x" := by simpa using hname
    exact ⟨0, rfl⟩
  · simp
  · intro op args hcall
    obtain ⟨rfl, rfl⟩ : op = "/" ∧ args = [.number 1, .symbol "x"] := by simpa using hcall
    exact ⟨by decide, by decide, by decide, by decide⟩
  · intro name
    by_cases hname : name = "x"
    · subst hname
      rfl
    · simp [Row.ofPairs, Row.get?, List.lookup_cons, beq_eq_false_iff_ne.mpr hname]

end Scope

end ModelFormula
