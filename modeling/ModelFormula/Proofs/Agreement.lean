import ModelFormula.Proofs.Faults

/-!
# When two formulas agree

Two formulas are compared by their expressions and by the terms of both sides, and a captured call
is compared by its function, its variables, the call as it was written and the terms of its
arguments.  Most of this says the same thing again: what the scopes add to the expressions is the
number of arguments of each function.

* `Expr.freeVariables_of_agrees` — expressions that agree have the same variables;
* `Scope.SameArities` — two scopes have functions of the same arity for ordinary calls;
* `Term.agrees_iff_of_lowers` — **terms agree just if their expressions do and the scopes have
  functions of the same arities**, by induction on the first expression and its term;
* `Formula.agrees_iff_exprs` — the same for formulas.

Numbers are compared as numbers, so that neither relation is reflexive.
-/

set_option autoImplicit false

namespace ModelFormula

/-! ### Expressions that agree -/

namespace Expr

/-- Only a call agrees with a call. -/
theorem exists_of_agrees_call {op : String} {args : List Expr} {e : Expr}
    (h : (call op args).agrees e = true) :
    ∃ args', e = .call op args' ∧ agreesAll args args' = true := by
  cases e with
  | call op' args' =>
      rw [agrees_call, Bool.and_eq_true, beq_iff_eq] at h
      obtain ⟨rfl, hargs⟩ := h
      exact ⟨args', rfl, hargs⟩
  | symbol name => simp [agrees] at h
  | number value => simp [agrees] at h
  | absent => simp [agrees] at h

theorem symbols_of_agreesAll {es es' : List Expr}
    (h : ∀ e ∈ es, ∀ e', e.agrees e' = true → e.nodes.filterMap symbol? =
      e'.nodes.filterMap symbol?) (hagrees : agreesAll es es' = true) :
    (nodesAll es).filterMap symbol? = (nodesAll es').filterMap symbol? := by
  induction es generalizing es' with
  | nil =>
      cases es' with
      | nil => rfl
      | cons e' es' => simp [agreesAll] at hagrees
  | cons e es ih =>
      cases es' with
      | nil => simp [agreesAll] at hagrees
      | cons e' es' =>
          rw [agreesAll, Bool.and_eq_true] at hagrees
          rw [nodesAll_cons, nodesAll_cons, List.filterMap_append, List.filterMap_append,
            h e List.mem_cons_self e' hagrees.1,
            ih (fun d hd => h d (List.mem_cons_of_mem _ hd)) hagrees.2]

theorem symbols_of_agrees (e : Expr) : ∀ e', e.agrees e' = true →
    e.nodes.filterMap symbol? = e'.nodes.filterMap symbol? := by
  induction e using inductionCalls with
  | symbol name =>
      intro e' h
      cases e' with
      | symbol name' =>
          rw [agrees, beq_iff_eq] at h
          rw [h]
      | _ => simp [agrees] at h
  | number value =>
      intro e' h
      cases e' with
      | number value' => rfl
      | _ => simp [agrees] at h
  | absent =>
      intro e' h
      cases e' with
      | absent => rfl
      | _ => simp [agrees] at h
  | call op args ih =>
      intro e' h
      obtain ⟨args', rfl, hargs⟩ := exists_of_agrees_call h
      rw [nodes_call, nodes_call, List.filterMap_cons_none (symbol?_call _ _),
        List.filterMap_cons_none (symbol?_call _ _)]
      exact symbols_of_agreesAll ih hargs

/-- Expressions that agree have the same variables, in the same order. -/
theorem freeVariables_of_agrees {e e' : Expr} (h : e.agrees e' = true) :
    e.freeVariables = e'.freeVariables := by
  rw [freeVariables, freeVariables, symbols_of_agrees e e' h]

end Expr

/-! ### Scopes with the same arities -/

namespace Scope

variable {S T : Scope}

/-- Two scopes have functions of the same arity for a name. -/
def SameArity (S T : Scope) (name : String) : Prop :=
  ∃ f g, S.resolve name = some f ∧ T.resolve name = some g ∧ f.arity = g.arity

/-- Two scopes have functions of the same arity for every ordinary call of a list. -/
def SameArities (S T : Scope) (es : List Expr) : Prop :=
  ∀ op args, .call op args ∈ es → (Expr.call op args).isOrdinary = true → S.SameArity T op

theorem sameArities_of_leaf {e : Expr} (h : e.head? = none) : S.SameArities T [e] := by
  intro op args hmem
  rw [← List.mem_singleton.mp hmem] at h
  cases h

theorem sameArities_append_iff {xs ys : List Expr} :
    S.SameArities T (xs ++ ys) ↔ S.SameArities T xs ∧ S.SameArities T ys := by
  constructor
  · intro h
    exact ⟨fun op args hmem => h op args (List.mem_append_left _ hmem),
      fun op args hmem => h op args (List.mem_append_right _ hmem)⟩
  · rintro ⟨hxs, hys⟩ op args hmem
    rcases List.mem_append.mp hmem with hmem | hmem
    · exact hxs op args hmem
    · exact hys op args hmem

/-- For a call, its own head counts if it is ordinary, and then all that is inside it. -/
theorem sameArities_call_iff {op : String} {args : List Expr} :
    S.SameArities T (Expr.call op args).nodes ↔
      ((Expr.call op args).isOrdinary = true → S.SameArity T op) ∧
        S.SameArities T (Expr.nodesAll args) := by
  rw [Expr.nodes_call, ← List.singleton_append, sameArities_append_iff]
  refine and_congr_left fun _ => ?_
  constructor
  · intro h
    exact h op args (List.mem_singleton_self _)
  · intro h f ds hmem
    cases List.mem_singleton.mp hmem
    exact h

/-- The functions of two scopes agree on a name just if they have the same arity: both are found
under that name. -/
theorem sameArity_iff_of_resolve {name : String} {f g : Function} (hf : S.resolve name = some f)
    (hg : T.resolve name = some g) : S.SameArity T name ↔ (f == g) = true := by
  have hname : f.name = g.name := (name_of_resolve hf).trans (name_of_resolve hg).symm
  change _ ↔ (f.name == g.name && f.arity == g.arity) = true
  rw [hname, beq_self_eq_true, Bool.true_and, beq_iff_eq, SameArity, hf, hg]
  simp

/-- A scope has the arities of its own functions. -/
theorem sameArity_self {name : String} {f : Function} (h : S.resolve name = some f) :
    S.SameArity S name :=
  ⟨f, f, h, h, rfl⟩

end Scope

/-! ### Terms that agree -/

theorem FormulaOp.symbol_inj {o p : FormulaOp} : o.symbol = p.symbol ↔ o = p := by
  constructor
  · intro h
    have ho := ofSymbol?_symbol o
    rw [h, ofSymbol?_symbol, Option.some.injEq] at ho
    exact ho.symm
  · rintro rfl
    rfl

/-- Two captured calls of one name agree as closures just if their functions and their arguments do:
the variables of the calls add nothing. -/
theorem Closure.agrees_iff {c d : Closure} :
    c.agrees d = true ↔ (c.function == d.function) = true ∧ c.expr.agrees d.expr = true := by
  change (c.function == d.function && c.freeVariables == d.freeVariables && c.expr.agrees d.expr)
    = true ↔ _
  rw [Bool.and_eq_true, Bool.and_eq_true]
  constructor
  · rintro ⟨⟨hfunction, -⟩, hexpr⟩
    exact ⟨hfunction, hexpr⟩
  · rintro ⟨hfunction, hexpr⟩
    exact ⟨⟨hfunction, beq_iff_eq.mpr (Expr.freeVariables_of_agrees hexpr)⟩, hexpr⟩

namespace Term

variable {S T : Scope}

/-- What agreement of the terms of two expressions comes down to. -/
def AgreesAs (S T : Scope) (e : Expr) (t : Term) : Prop :=
  ∀ e' t', Lowers T e' t' →
    (t.agrees t' = true ↔ e.agrees e' = true ∧ S.SameArities T e.nodes)

theorem agreesAll_iff {es : List Expr} {ts : List Term} (h : List.Forall₂ (AgreesAs S T) es ts)
    {es' : List Expr} {ts' : List Term} (h' : List.Forall₂ (Lowers T) es' ts') :
    agreesAll ts ts' = true ↔
      Expr.agreesAll es es' = true ∧ S.SameArities T (Expr.nodesAll es) := by
  induction h generalizing es' ts' with
  | nil =>
      cases h' with
      | nil => simp [agreesAll, Expr.agreesAll, Scope.SameArities]
      | cons _ _ => simp [agreesAll, Expr.agreesAll]
  | cons he _ ih =>
      cases h' with
      | nil => simp [agreesAll, Expr.agreesAll]
      | cons he' hes' =>
          rw [agreesAll, Expr.agreesAll, Bool.and_eq_true, Bool.and_eq_true, he _ _ he', ih hes',
            Expr.nodesAll_cons, Scope.sameArities_append_iff]
          exact and_and_and_comm

/-- An expression beside its term, by their outermost constructors. -/
inductive Beside (S : Scope) : Expr → Term → Prop
  | symbol (name : String) : Beside S (.symbol name) (.column name)
  | number (value : Float) : Beside S (.number value) (.constant value)
  | absent : Beside S .absent .absent
  | op (o : FormulaOp) {args : List Expr} {ts : List Term} :
      List.Forall₂ (Lowers S) args ts → Beside S (.call o.symbol args) (.op o ts)
  | captured (f : Function) {args : List Expr} {ts : List Term} :
      FormulaOp.ofSymbol? f.name = none → S.resolve f.name = some f →
      List.Forall₂ (Lowers S) args ts →
      Beside S (.call f.name args) (.captured ⟨f, args, S⟩ ts)

theorem Lowers.beside {e : Expr} {t : Term} (h : Lowers S e t) : Beside S e t := by
  cases e with
  | symbol name =>
      rw [eq_of_lowers_symbol h]
      exact .symbol name
  | number value =>
      rw [eq_of_lowers_number h]
      exact .number value
  | absent =>
      rw [eq_of_lowers_absent h]
      exact .absent
  | call op args =>
      obtain ⟨ts, hts, ⟨o, ho, rfl⟩ | ⟨f, hop, hf, -, rfl⟩⟩ := cases_of_lowers_call h
      · obtain rfl := FormulaOp.symbol_of_ofSymbol? ho
        exact .op o hts
      · obtain rfl := Scope.name_of_resolve hf
        exact .captured f hop hf hts

/-- A formula operator is no name of a function that is captured. -/
theorem symbol_ne_of_ofSymbol? {o : FormulaOp} {name : String}
    (h : FormulaOp.ofSymbol? name = none) : o.symbol ≠ name := by
  rintro rfl
  rw [FormulaOp.ofSymbol?_symbol] at h
  cases h

/-- A leaf agrees with a leaf of its own kind only, and the scopes have no part in it. -/
theorem agreesAs_leaf {e : Expr} {t : Term} (hnodes : e.nodes = [e]) (hleaf : e.head? = none)
    (h : ∀ e' t', Beside T e' t' → t.agrees t' = e.agrees e') : AgreesAs S T e t := by
  intro e' t' ht'
  rw [h e' t' ht'.beside, hnodes, and_iff_left (Scope.sameArities_of_leaf hleaf)]

theorem agreesAs_column (name : String) : AgreesAs S T (.symbol name) (.column name) := by
  refine agreesAs_leaf (Expr.nodes_symbol name) rfl ?_
  intro e' t' h
  cases h <;> simp [agrees, Expr.agrees]

theorem agreesAs_constant (value : Float) : AgreesAs S T (.number value) (.constant value) := by
  refine agreesAs_leaf (Expr.nodes_number value) rfl ?_
  intro e' t' h
  cases h <;> simp [agrees, Expr.agrees]

theorem agreesAs_absent : AgreesAs S T .absent .absent := by
  refine agreesAs_leaf Expr.nodes_absent rfl ?_
  intro e' t' h
  cases h <;> simp [agrees, Expr.agrees]

/-- An operator agrees with a call of the same symbol whose operands agree. -/
theorem agreesAs_op {o : FormulaOp} {args : List Expr} {ts : List Term}
    (h : List.Forall₂ (AgreesAs S T) args ts) : AgreesAs S T (.call o.symbol args) (.op o ts) := by
  have hspecial : ¬(Expr.call o.symbol args).isOrdinary = true := by
    simp [Expr.isOrdinary_call_iff, FormulaOp.ofSymbol?_symbol]
  intro e' t' ht'
  rw [Scope.sameArities_call_iff, and_iff_right fun hordinary => absurd hordinary hspecial]
  cases ht'.beside with
  | symbol _ => simp [agrees, Expr.agrees]
  | number _ => simp [agrees, Expr.agrees]
  | absent => simp [agrees, Expr.agrees]
  | op p hts' =>
      rw [agrees, Expr.agrees_call, Bool.and_eq_true, Bool.and_eq_true, decide_eq_true_iff,
        beq_iff_eq, FormulaOp.symbol_inj, agreesAll_iff h hts', and_assoc]
  | captured g hop _ _ => simp [agrees, Expr.agrees_call, symbol_ne_of_ofSymbol? hop]

/-- A captured call agrees with a call of the same name whose function has the same arity and whose
arguments agree. -/
theorem agreesAs_captured {f : Function} {args : List Expr} {ts : List Term}
    (hop : FormulaOp.ofSymbol? f.name = none) (hf : S.resolve f.name = some f)
    (h : List.Forall₂ (AgreesAs S T) args ts) :
    AgreesAs S T (.call f.name args) (.captured ⟨f, args, S⟩ ts) := by
  have hordinary : (Expr.call f.name args).isOrdinary = true := Expr.isOrdinary_call_iff.mpr hop
  intro e' t' ht'
  rw [Scope.sameArities_call_iff, imp_iff_right hordinary]
  cases ht'.beside with
  | symbol _ => simp [agrees, Expr.agrees]
  | number _ => simp [agrees, Expr.agrees]
  | absent => simp [agrees, Expr.agrees]
  | op p _ => simp [agrees, Expr.agrees_call, (symbol_ne_of_ofSymbol? (o := p) hop).symm]
  | captured g _ hg hts' =>
      rw [agrees, Bool.and_eq_true, Closure.agrees_iff, agreesAll_iff h hts']
      simp only [Closure.expr, Expr.agrees_call, Bool.and_eq_true, beq_iff_eq]
      constructor
      · rintro ⟨⟨hfunction, hname, hargs⟩, -, harities⟩
        rw [← hname] at hg
        exact ⟨⟨hname, hargs⟩, (Scope.sameArity_iff_of_resolve hf hg).mpr hfunction, harities⟩
      · rintro ⟨⟨hname, hargs⟩, harity, harities⟩
        rw [← hname] at hg
        have hfunction := (Scope.sameArity_iff_of_resolve hf hg).mp harity
        exact ⟨⟨hfunction, hname, hargs⟩, hargs, harities⟩

/-- **Terms agree just if their expressions do and the scopes have functions of the same arities**
for all ordinary calls. -/
theorem agrees_iff_of_lowers {e e' : Expr} {t t' : Term} (h : Lowers S e t)
    (h' : Lowers T e' t') :
    t.agrees t' = true ↔ e.agrees e' = true ∧ S.SameArities T e.nodes := by
  refine Lowers.induction (motive := AgreesAs S T) ?symbol ?number ?absent ?op ?captured h e' t' h'
  case symbol =>
    intro name
    exact agreesAs_column name
  case number =>
    intro value
    exact agreesAs_constant value
  case absent =>
    exact agreesAs_absent
  case op =>
    intro o args ts ih
    exact agreesAs_op ih
  case captured =>
    intro f args ts hop hf _ ih
    exact agreesAs_captured hop hf ih

/-- In a term every ordinary call has a function in its scope. -/
theorem sameArities_self {e : Expr} {t : Term} (h : Lowers S e t) : S.SameArities S e.nodes := by
  intro op args hmem hordinary
  have hresolves := exists_lower_eq_ok_iff.mp ⟨t, h⟩ _ hmem hordinary
  obtain ⟨f, hf⟩ := hresolves.resolve
  exact Scope.sameArity_self hf

end Term

/-! ### Formulas that agree -/

namespace Formula

variable {S T : Scope}

/-- Two formulas agree if their expressions do and both sides joined again. -/
theorem beq_iff_normalized {f g : Formula} :
    (f == g) = true ↔
      (f.expr == g.expr) = true ∧ f.normalized.agrees g.normalized = true := by
  change (f.expr == g.expr && f.lhs.agrees g.lhs && f.rhs.agrees g.rhs) = true ↔ _
  simp [normalized, Term.agrees, Term.agreesAll, and_assoc]

/-- **Two formulas agree just if their expressions do and their scopes have functions of the same
arities** for all ordinary calls in them; in one scope, just if their expressions do. -/
theorem agrees_iff_exprs (S T : Scope) (e e' : Expr) (f g : Formula) (hf : ofExpr S e = .ok f)
    (hg : ofExpr T e' = .ok g) :
    ((f == g) = true ↔
      (f.expr == g.expr) = true ∧ ∀ op args, .call op args ∈ f.expr.nodes →
        (Expr.call op args).isOrdinary = true →
        ∃ φ ψ, S.resolve op = some φ ∧ T.resolve op = some ψ ∧ φ.arity = ψ.arity) ∧
      (S = T → ((f == g) = true ↔ (f.expr == g.expr) = true)) := by
  have hterm := Term.agrees_iff_of_lowers (lowers_normalized hf) (lowers_normalized hg)
  have hfexpr := (lowers_of_ofExpr hf).1
  have hgexpr := (lowers_of_ofExpr hg).1
  have hiff : (f == g) = true ↔
      (f.expr == g.expr) = true ∧ S.SameArities T f.expr.nodes := by
    rw [beq_iff_normalized, hterm, hfexpr, hgexpr]
    exact and_self_left
  refine ⟨hiff, ?_⟩
  rintro rfl
  rw [hiff, hfexpr]
  exact and_iff_left (Term.sameArities_self (lowers_normalized hf))

/-- The formula `y ~ log(x)` agrees with itself, but not with the one built where a function of any
number of arguments shadows the logarithm. -/
theorem agrees_iff_exprs_shadowed : ∃ f g, ofExpr .builtins logarithm.expr = .ok f ∧
    ofExpr (Scope.builtins.insert (Builtin.variadic "log" Builtin.sum)) logarithm.expr = .ok g ∧
    (f.expr == g.expr) = true ∧ (f == f) = true ∧ ¬(f == g) = true := by
  obtain ⟨f, hf⟩ : ∃ f, ofExpr .builtins logarithm.expr = .ok f := ⟨_, rfl⟩
  obtain ⟨g, hg⟩ : ∃ g, ofExpr (Scope.builtins.insert (Builtin.variadic "log" Builtin.sum))
      logarithm.expr = .ok g := ⟨_, rfl⟩
  have hself : (logarithm.expr == logarithm.expr) = true := by decide
  have hfexpr := (lowers_of_ofExpr hf).1
  have hgexpr := (lowers_of_ofExpr hg).1
  obtain ⟨-, hsame⟩ := agrees_iff_exprs _ _ _ _ f f hf hf
  obtain ⟨hother, -⟩ := agrees_iff_exprs _ _ _ _ f g hf hg
  refine ⟨f, g, hf, hg, by rw [hfexpr, hgexpr, hself], ?_, ?_⟩
  · rw [hsame rfl, hfexpr, hself]
  · intro hagrees
    have hlog : Expr.call "log" [.symbol "x"] ∈ f.expr.nodes := by
      rw [hfexpr]
      simp [logarithm]
    obtain ⟨φ, ψ, hφ, hψ, harity⟩ := (hother.mp hagrees).2 _ _ hlog (by decide)
    cases hφ
    cases hψ
    cases harity

end Formula

end ModelFormula
