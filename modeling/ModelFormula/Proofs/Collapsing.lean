import ModelFormula.Proofs.Grammar.Chains
import ModelFormula.Proofs.Mentioned
import ModelFormula.Proofs.Neutral
import ModelFormula.Proofs.Substitution

/-!
# Collapsed chains

Parentheses around the first operands of a sum make another tree, and no other value: a sum is
taken from left to right, and what it starts from is neutral.  So is a product.

* `Builtin.foldl_cons_foldl` — a fold goes on where an inner one ends;
* `Scope.eval_collapsed` — **a chain inside a chain of the same operator has the value of one
  chain**, and fails as it does;
* `Scope.Equates` — two expressions with the same value whose captured calls have the same values;
* `Scope.Equates.call`, `Scope.Equates.subst` — **a congruence**, by induction on the expression
  around them;
* `Scope.collapsing_law` — the same for values, texts and captured calls.
-/

set_option autoImplicit false

namespace ModelFormula

/-! ### Values -/

namespace Builtin

/-- A fold from a neutral start goes on where an inner one ends. -/
theorem foldl_cons_foldl {f : Float → Float → Float} {start : Float} (h : ∀ x, f start x = x)
    (us vs : List Float) : (us.foldl f start :: vs).foldl f start = (us ++ vs).foldl f start := by
  rw [List.foldl_cons, h, List.foldl_append]

theorem sum_cons_sum (us vs : List Float) : sum (sum us :: vs) = sum (us ++ vs) :=
  foldl_cons_foldl Double.minusZero_add us vs

theorem product_cons_product (us vs : List Float) :
    product (product us :: vs) = product (us ++ vs) :=
  foldl_cons_foldl Double.one_mul us vs

/-- The operators of sums and products take any number of values, and go on with the outcome of an
inner one. -/
theorem exists_variadic {op : String} (h : op ∈ ["+", "*", "&"]) :
    ∃ f : List Float → Float, Scope.builtins.resolve op = some (variadic op f) ∧
      ∀ us vs, f (f us :: vs) = f (us ++ vs) := by
  simp only [List.mem_cons, List.not_mem_nil, or_false] at h
  rcases h with rfl | rfl | rfl
  · exact ⟨sum, rfl, sum_cons_sum⟩
  · exact ⟨product, rfl, product_cons_product⟩
  · exact ⟨product, rfl, product_cons_product⟩

end Builtin

namespace Scope

variable {S : Scope} {row : Row}

/-- Of two lists, one after the other, the first failure is that of the first list, if it has
one. -/
theorem evalAll_append (xs ys : List Expr) :
    S.evalAll row (xs ++ ys) =
      (do let us ← S.evalAll row xs
          let vs ← S.evalAll row ys
          .ok (us ++ vs)) := by
  induction xs with
  | nil =>
      rw [List.nil_append, evalAll_nil]
      cases S.evalAll row ys <;> rfl
  | cons x xs ih =>
      rw [List.cons_append, evalAll, evalAll, ih]
      cases S.eval row x with
      | error err => rfl
      | ok u =>
          cases S.evalAll row xs with
          | error err => rfl
          | ok us => cases S.evalAll row ys <;> rfl

/-- **A chain inside a chain of the same operator has the value of one chain**, or fails as it
does. -/
theorem eval_collapsed {op : String} {f : List Float → Float}
    (hop : S.resolve op = some (Builtin.variadic op f))
    (hf : ∀ us vs, f (f us :: vs) = f (us ++ vs)) (xs ys : List Expr) :
    S.eval row (.call op (.call op xs :: ys)) = S.eval row (.call op (xs ++ ys)) := by
  have happly : ∀ values, (Builtin.variadic op f).apply values = .ok (f values) := fun _ => rfl
  rw [eval_call_of_resolve hop, eval_call_of_resolve hop, applyTo, applyTo, evalAll_append, evalAll,
    eval_call_of_resolve hop, applyTo]
  cases S.evalAll row xs with
  | error err => rfl
  | ok us =>
      simp only [happly]
      cases S.evalAll row ys with
      | error err => rfl
      | ok vs => exact congrArg Except.ok (hf us vs)

/-- The values of the ordinary calls in an expression, or why they have none. -/
def callOutcomes (S : Scope) (row : Row) (e : Expr) : List (Except EvalError Float) :=
  (e.nodes.filter Expr.isOrdinary).map (S.eval row)

theorem callOutcomes_call (op : String) (args : List Expr) :
    S.callOutcomes row (.call op args) =
      (if (Expr.call op args).isOrdinary then [S.eval row (.call op args)] else []) ++
        args.flatMap (S.callOutcomes row) := by
  have hargs : ((Expr.nodesAll args).filter Expr.isOrdinary).map (S.eval row) =
      args.flatMap (S.callOutcomes row) := by
    rw [Expr.nodesAll_eq_flatMap, List.filter_flatMap, List.map_flatMap]
    rfl
  rw [callOutcomes, Expr.nodes_call, List.filter_cons, ← hargs]
  split <;> rfl

end Scope

/-! ### Expressions that a scope does not tell apart -/

namespace Scope

/-- Two expressions with the same value, which have the same names called in them and whose ordinary
calls have the same values. -/
structure Equates (S : Scope) (d e : Expr) : Prop where
  eval_eq : ∀ row, S.eval row d = S.eval row e
  mem_operators_iff : ∀ f, f ∈ d.operators ↔ f ∈ e.operators
  mem_mentioned_iff : ∀ f, f ∈ d.mentioned ↔ f ∈ e.mentioned
  callOutcomes_eq : ∀ row, S.callOutcomes row d = S.callOutcomes row e

variable {S : Scope}

theorem equates_refl (e : Expr) : S.Equates e e where
  eval_eq _ := rfl
  mem_operators_iff _ := Iff.rfl
  mem_mentioned_iff _ := Iff.rfl
  callOutcomes_eq _ := rfl

/-- Calls whose arguments are not told apart are not told apart. -/
theorem Equates.call {g h : Expr → Expr} {args : List Expr} (op : String)
    (hargs : ∀ e ∈ args, S.Equates (g e) (h e)) :
    S.Equates (.call op (args.map g)) (.call op (args.map h)) := by
  have heval : ∀ row, S.eval row (.call op (args.map g)) = S.eval row (.call op (args.map h)) := by
    intro row
    have hvalues := evalAll_map_congr fun e he => (hargs e he).eval_eq row
    cases hop : S.resolve op with
    | none => rw [eval_call_of_resolve_eq_none hop, eval_call_of_resolve_eq_none hop]
    | some f => rw [eval_call_of_resolve hop, eval_call_of_resolve hop, applyTo, applyTo, hvalues]
  have hoperators : ∀ f, f ∈ (Expr.call op (args.map g)).operators ↔
      f ∈ (Expr.call op (args.map h)).operators := by
    intro f
    simp only [Expr.operators_call, List.flatMap_map, List.mem_cons, List.mem_flatMap]
    refine or_congr Iff.rfl (exists_congr fun e => and_congr_right fun he => ?_)
    exact (hargs e he).mem_operators_iff f
  have hordinary : (Expr.call op (args.map g)).isOrdinary =
      (Expr.call op (args.map h)).isOrdinary := rfl
  refine ⟨heval, hoperators, ?mentioned, ?outcomes⟩
  case mentioned =>
    intro f
    simp only [Expr.mentioned_call, List.flatMap_map, List.mem_append, List.mem_flatMap]
    refine or_congr ?_ (exists_congr fun e => and_congr_right fun he => ?_)
    · rw [hordinary]
      split
      · exact hoperators f
      · exact Iff.rfl
    · exact (hargs e he).mem_mentioned_iff f
  case outcomes =>
    intro row
    rw [callOutcomes_call, callOutcomes_call, heval, hordinary, List.flatMap_map, List.flatMap_map,
      List.flatMap_congr fun e he => (hargs e he).callOutcomes_eq row]

/-- **Nothing around them tells two such expressions apart.** -/
theorem Equates.subst {d e : Expr} (h : S.Equates d e) (n : Expr) (x : String) :
    S.Equates (n.subst x d) (n.subst x e) := by
  induction n using Expr.inductionCalls with
  | symbol name =>
      rw [Expr.subst_symbol, Expr.subst_symbol]
      split
      · exact h
      · exact equates_refl _
  | number value =>
      rw [Expr.subst_number, Expr.subst_number]
      exact equates_refl _
  | absent =>
      rw [Expr.subst_absent, Expr.subst_absent]
      exact equates_refl _
  | call op args ih =>
      rw [Expr.subst_call, Expr.subst_call]
      exact .call op ih

/-- A chain inside a chain of the same operator and one chain are not told apart. -/
theorem equates_collapsed {op : String} {f : List Float → Float} {o : FormulaOp}
    (hsymbol : FormulaOp.ofSymbol? op = some o) (hop : S.resolve op = some (Builtin.variadic op f))
    (hf : ∀ us vs, f (f us :: vs) = f (us ++ vs)) (xs ys : List Expr) :
    S.Equates (.call op (.call op xs :: ys)) (.call op (xs ++ ys)) := by
  -- a formula operator is not captured, so there are the same captured calls on both sides
  have hspecial : ∀ args, (Expr.call op args).isOrdinary = false := by
    intro args
    rw [← Bool.not_eq_true, Expr.isOrdinary_call_iff, hsymbol]
    nofun
  refine ⟨fun row => eval_collapsed hop hf xs ys, ?operators, ?mentioned, ?outcomes⟩
  case operators =>
    intro name
    simp [Expr.operators_call]
  case mentioned =>
    intro name
    simp [Expr.mentioned_call, hspecial]
  case outcomes =>
    intro row
    simp [callOutcomes_call, hspecial]

/-- Two expressions that make no difference inside any other: in the place of a variable they give
it the same value, and let it have a term, and then the captured calls of both terms have the same
values one by one. -/
structure Inseparable (S : Scope) (d e : Expr) : Prop where
  eval_eq : ∀ (n : Expr) (x : String) (row : Row),
    S.eval row (n.subst x d) = S.eval row (n.subst x e)
  exists_ok_iff : ∀ (n : Expr) (x : String), (∃ t, Term.ofExpr S (n.subst x d) = .ok t) ↔
    ∃ u, Term.ofExpr S (n.subst x e) = .ok u
  evaluate_eq : ∀ (n : Expr) (x : String) (t u : Term), Term.ofExpr S (n.subst x d) = .ok t →
    Term.ofExpr S (n.subst x e) = .ok u → ∀ row,
      t.capturedCalls.map (fun c => c.closure.evaluate row) =
        u.capturedCalls.map fun c => c.closure.evaluate row

/-- The captured calls of a term have the values of the ordinary calls of its expression. -/
theorem map_evaluate_capturedCalls {e : Expr} {t : Term} (h : Term.ofExpr S e = .ok t)
    (row : Row) : t.capturedCalls.map (fun c => c.closure.evaluate row) = S.callOutcomes row e :=
  map_eq_of_forall₂ (Term.reproduces_of_lowers e t (Term.lowers_of_ofExpr h))
    fun _ _ hc => hc.evaluate_eq row

theorem Equates.inseparable {d e : Expr} (h : S.Equates d e) : S.Inseparable d e where
  eval_eq n x row := (h.subst n x).eval_eq row
  exists_ok_iff n x := by
    have hn := h.subst n x
    rw [Term.exists_ofExpr_iff, Term.exists_ofExpr_iff]
    refine and_congr (not_congr (hn.mem_operators_iff _)) (forall_congr' fun f => ?_)
    rw [hn.mem_mentioned_iff]
  evaluate_eq n x t u ht hu row := by
    rw [map_evaluate_capturedCalls ht, map_evaluate_capturedCalls hu]
    exact (h.subst n x).callOutcomes_eq row

/-! ### Trees and texts -/

/-- A sum of a sum is another tree than one sum of the same operands. -/
theorem collapsed_ne {op : String} {xs ys : List Expr} (h : 2 ≤ xs.length) :
    Expr.call op (.call op xs :: ys) ≠ .call op (xs ++ ys) := by
  intro heq
  injection heq with _ hargs
  have hlen := congrArg List.length hargs
  rw [List.length_cons, List.length_append] at hlen
  omega

/-- **Collapsing a chain changes the tree and no value.**  In a scope that has the built-in `+`, `*`
and `&`, a call of one of them whose first argument is a call of the same has the value, or the
error, of one call with all arguments.  So texts of operands, the first of them in parentheses, are
read as another tree than without the parentheses, and the two trees are inseparable. -/
theorem collapsing_law (S : Scope) (hS : builtins.Agree S ["+", "*", "&"]) :
    (∀ op ∈ ["+", "*", "&"], ∀ (row : Row) (xs ys : List Expr),
      S.eval row (.call op (.call op xs :: ys)) = S.eval row (.call op (xs ++ ys))) ∧
    ∀ (level : Level) (op : String) (sep : String) (inner outer : List String)
      (es fs : List Expr), op = level.collapsing.toString →
      Grammar.Separates level.collapsing sep.toList → 2 ≤ inner.length → outer ≠ [] →
      List.Forall₂ (fun s e => Expr.IsOperand level s.toList e) inner es →
      List.Forall₂ (fun s e => Expr.IsOperand level s.toList e) outer fs →
      Expr.parse (sep.intercalate (("(" ++ sep.intercalate inner ++ ")") :: outer)) =
          .ok (.call op (.call op es :: fs)) ∧
        Expr.parse (sep.intercalate (inner ++ outer)) = .ok (.call op (es ++ fs)) ∧
        Expr.call op (.call op es :: fs) ≠ .call op (es ++ fs) ∧
        S.Inseparable (.call op (.call op es :: fs)) (.call op (es ++ fs)) := by
  refine ⟨?values, ?texts⟩
  case values =>
    intro op hop row xs ys
    obtain ⟨f, hf, hflat⟩ := Builtin.exists_variadic hop
    exact eval_collapsed ((hS op hop).symm.trans hf) hflat xs ys
  case texts =>
    rintro level _ sep inner outer es fs rfl hsep hlen hne hinner houter
    have hop : level.collapsing.toString ∈ ["+", "*", "&"] := by cases level <;> decide
    obtain ⟨o, ho⟩ : ∃ o, FormulaOp.ofSymbol? level.collapsing.toString = some o := by
      cases level
      · exact ⟨.sum, rfl⟩
      · exact ⟨.expand, rfl⟩
    obtain ⟨f, hf, hflat⟩ := Builtin.exists_variadic hop
    have hgroup := Expr.isOperand_group hsep hinner hlen
    have hpositive := List.length_pos_iff.mpr hne
    refine ⟨?nested, ?flat, ?trees, ?inseparable⟩
    case nested =>
      refine Expr.parse_intercalate hsep (.cons hgroup houter) ?_
      rw [List.length_cons]
      omega
    case flat =>
      refine Expr.parse_intercalate hsep (List.rel_append hinner houter) ?_
      rw [List.length_append]
      omega
    case trees =>
      refine collapsed_ne ?_
      rwa [← hinner.length_eq]
    case inseparable =>
      exact (equates_collapsed ho ((hS _ hop).symm.trans hf) hflat es fs).inseparable

/-- The built-in functions with another one under the name of the logarithm. -/
def otherLogarithm : Scope := builtins.insert (.unary "log" Float.exp)

/-- The trees of `(a + b) + c` and of `a + b + c` cannot be told apart, whatever `log` stands for.
-/
theorem collapsing_law_sum : builtins.Agree otherLogarithm ["+", "*", "&"] ∧
    Expr.parse "(a + b) + c" =
      .ok (.call "+" [.call "+" [.symbol "a", .symbol "b"], .symbol "c"]) ∧
    Expr.parse "a + b + c" = .ok (.call "+" [.symbol "a", .symbol "b", .symbol "c"]) ∧
    otherLogarithm.Inseparable (.call "+" [.call "+" [.symbol "a", .symbol "b"], .symbol "c"])
      (.call "+" [.symbol "a", .symbol "b", .symbol "c"]) := by
  have hagree : builtins.Agree otherLogarithm ["+", "*", "&"] := agree_insert (by decide)
  have hsep : Grammar.Separates '+' " + ".toList :=
    ⟨[' '], Grammar.gap_space _, Grammar.gap_space _⟩
  have hc : IsName "c" := isName_of_all rfl rfl rfl
  have hinner : List.Forall₂ (fun s e => Expr.IsOperand .sum s.toList e) ["a", "b"]
      [.symbol "a", .symbol "b"] :=
    .cons (Expr.isOperand_symbol Expr.isName_a .sum)
      (.cons (Expr.isOperand_symbol Expr.isName_b .sum) .nil)
  have houter : List.Forall₂ (fun s e => Expr.IsOperand .sum s.toList e) ["c"] [.symbol "c"] :=
    .cons (Expr.isOperand_symbol hc .sum) .nil
  obtain ⟨-, htexts⟩ := collapsing_law otherLogarithm hagree
  obtain ⟨hnested, hflat, -, hsame⟩ := htexts .sum "+" " + " ["a", "b"] ["c"] _ _ rfl hsep
    (by decide) (by decide) hinner houter
  exact ⟨hagree, hnested, hflat, hsame⟩

end Scope

end ModelFormula
