import ModelFormula.Proofs.Columns
import ModelFormula.Proofs.Json.Trees

/-!
# The functions that an expression mentions

A scope is consulted for ordinary calls and for the calls inside them, and for nothing else: a
formula operator that stands in no ordinary call is never looked up.  Two scopes that have the same
functions under the names of these calls cannot be told apart by an expression.

* `Expr.operators`, `Expr.mentioned` — the operators of all calls of an expression, and of those
  that are looked up;
* `Term.exists_ofExpr_iff` — an expression has a term if all that it mentions is defined;
* `Scope.Agree` — two scopes have the same functions under some names;
* `Scope.eval_eq_of_agree` — the value of an expression depends on its operators alone;
* `Term.lower_eq_map` — a term, and a fault, **depend on the mentioned functions alone**, up to the
  scope that is kept;
* `Scope.Interchangeable` — two scopes that an expression does not tell apart;
* `Scope.interchangeable_of_agree` — **scopes that agree on what an expression mentions are
  interchangeable**, among them a scope and any change of it under other names.
-/

set_option autoImplicit false

namespace ModelFormula

/-! ### Names -/

namespace Expr

/-- The operators of the calls of an expression. -/
def operators (e : Expr) : List String := e.nodes.filterMap head?

/-- The operators of the ordinary calls of an expression and of the calls inside them. -/
def mentioned (e : Expr) : List String := (e.nodes.filter isOrdinary).flatMap operators

theorem mem_operators_iff {e : Expr} {op : String} :
    op ∈ e.operators ↔ ∃ args, .call op args ∈ e.nodes := by
  rw [operators, List.mem_filterMap]
  constructor
  · rintro ⟨d, hd, hop⟩
    cases d with
    | call f args =>
        cases hop
        exact ⟨args, hd⟩
    | symbol name => cases hop
    | number value => cases hop
    | absent => cases hop
  · rintro ⟨args, hd⟩
    exact ⟨_, hd, rfl⟩

theorem mem_mentioned_iff {e : Expr} {op : String} :
    op ∈ e.mentioned ↔ ∃ c ∈ e.nodes, c.isOrdinary = true ∧ op ∈ c.operators := by
  rw [mentioned, List.mem_flatMap]
  simp only [List.mem_filter, and_assoc]

theorem operators_call (op : String) (args : List Expr) :
    (call op args).operators = op :: args.flatMap operators := by
  rw [operators, nodes_call, List.filterMap_cons_some (head?_call op args), nodesAll_eq_flatMap,
    List.filterMap_flatMap]
  rfl

theorem mentioned_call (op : String) (args : List Expr) :
    (call op args).mentioned =
      (if (call op args).isOrdinary then (call op args).operators else []) ++
        args.flatMap mentioned := by
  have hargs : ((nodesAll args).filter isOrdinary).flatMap operators = args.flatMap mentioned := by
    rw [nodesAll_eq_flatMap, List.filter_flatMap, List.flatMap_assoc]
    rfl
  rw [mentioned, nodes_call, List.filter_cons, ← hargs]
  split <;> rfl

/-- What is called inside an argument is called inside the call. -/
theorem mem_operators_call {op f : String} {args : List Expr} {e : Expr} (he : e ∈ args)
    (h : f ∈ e.operators) : f ∈ (call op args).operators := by
  rw [operators_call]
  exact List.mem_cons_of_mem _ (List.mem_flatMap_of_mem he h)

theorem mem_operators_self (op : String) (args : List Expr) :
    op ∈ (call op args).operators := by
  rw [operators_call]
  exact List.mem_cons_self

/-- What an argument mentions, the call mentions. -/
theorem mem_mentioned_call {op f : String} {args : List Expr} {e : Expr} (he : e ∈ args)
    (h : f ∈ e.mentioned) : f ∈ (call op args).mentioned := by
  rw [mentioned_call]
  exact List.mem_append_right _ (List.mem_flatMap_of_mem he h)

/-- An ordinary call inside an expression has all its operators mentioned. -/
theorem mem_mentioned_of_mem_nodes {c e : Expr} {f : String} (hc : c ∈ e.nodes)
    (hordinary : c.isOrdinary = true) (hf : f ∈ c.operators) : f ∈ e.mentioned :=
  mem_mentioned_iff.mpr ⟨c, hc, hordinary, hf⟩

theorem firstEscape?_eq_none_iff {e : Expr} : e.firstEscape? = none ↔ escapeOp ∉ e.operators := by
  rw [firstEscape?, List.find?_eq_none, operators, List.mem_filterMap]
  simp [isEscape, isCallTo]

end Expr

/-- An expression has a term if it has no escape marker and all that it mentions is defined. -/
theorem Term.exists_ofExpr_iff {S : Scope} {e : Expr} :
    (∃ t, Term.ofExpr S e = .ok t) ↔
      Expr.escapeOp ∉ e.operators ∧ ∀ f ∈ e.mentioned, S.defines f = true := by
  have hlower : (∃ t, lower S e = .ok t) ↔ ∀ f ∈ e.mentioned, S.defines f = true := by
    rw [exists_lower_eq_ok_iff]
    constructor
    · intro h f hf
      obtain ⟨c, hc, hordinary, hcalled⟩ := Expr.mem_mentioned_iff.mp hf
      obtain ⟨args, hmem⟩ := Expr.mem_operators_iff.mp hcalled
      exact h c hc hordinary f args hmem
    · intro h c hc hordinary f args hmem
      have hcalled : f ∈ c.operators := Expr.mem_operators_iff.mpr ⟨args, hmem⟩
      exact h f (Expr.mem_mentioned_of_mem_nodes hc hordinary hcalled)
  rw [← hlower, ← Expr.firstEscape?_eq_none_iff]
  constructor
  · rintro ⟨t, ht⟩
    exact ⟨firstEscape?_of_ofExpr ht, t, lowers_of_ofExpr ht⟩
  · rintro ⟨hescape, t, ht⟩
    exact ⟨t, (ofExpr_of_unescaped hescape).trans ht⟩

/-! ### Agreeing scopes -/

namespace Scope

variable {S T : Scope}

/-- Two scopes have the same functions, or the same gaps, under some names. -/
def Agree (S T : Scope) (names : List String) : Prop :=
  ∀ name ∈ names, S.resolve name = T.resolve name

theorem Agree.of_subset {names sub : List String} (h : S.Agree T names) (hsub : sub ⊆ names) :
    S.Agree T sub :=
  fun name hname => h name (hsub hname)

theorem Agree.defines_eq {names : List String} (h : S.Agree T names) {name : String}
    (hname : name ∈ names) : T.defines name = S.defines name := by
  rw [defines, defines, h name hname]

/-- A scope without the functions of one name. -/
def without (S : Scope) (name : String) : Scope := ⟨S.functions.filter fun f => f.name != name⟩

theorem resolve_without {name other : String} (h : other ≠ name) :
    (S.without name).resolve other = S.resolve other := by
  rw [resolve, resolve, without, List.find?_filter]
  refine List.find?_congr fun f _ => ?_
  by_cases hf : f.name = other
  · simp [hf, h]
  · simp [hf]

theorem agree_insert {f : Function} {names : List String} (h : f.name ∉ names) :
    S.Agree (S.insert f) names := by
  intro name hname
  have hne : f.name ≠ name := fun heq => h (heq ▸ hname)
  rw [resolve_insert, if_neg hne]

theorem agree_without {name : String} {names : List String} (h : name ∉ names) :
    S.Agree (S.without name) names := by
  intro other hother
  have hne : other ≠ name := fun heq => h (heq ▸ hother)
  rw [resolve_without hne]

/-! ### Values -/

/-- The value of an expression depends on the functions of its operators alone. -/
theorem eval_eq_of_agree (row : Row) (e : Expr) :
    S.Agree T e.operators → S.eval row e = T.eval row e := by
  induction e using Expr.inductionCalls with
  | symbol name =>
      intro _
      rw [eval, eval]
  | number value =>
      intro _
      rw [eval_number, eval_number]
  | absent =>
      intro _
      rw [eval_absent, eval_absent]
  | call op args ih =>
      intro h
      have hargs : ∀ e ∈ args, S.eval row e = T.eval row e := fun e he =>
        ih e he (h.of_subset fun _ => Expr.mem_operators_call he)
      have hresolve := h op (Expr.mem_operators_self op args)
      cases hop : S.resolve op with
      | none =>
          rw [eval_call_of_resolve_eq_none hop, eval_call_of_resolve_eq_none (hresolve ▸ hop)]
      | some f =>
          rw [eval_call_of_resolve hop, eval_call_of_resolve (hresolve ▸ hop),
            applyTo_congr f hargs]

/-- What a call lacks inside its arguments depends on the operators in them alone. -/
theorem firstUndefined?_eq_of_agree {es : List Expr}
    (h : ∀ e ∈ es, S.Agree T e.operators) : T.firstUndefined? es = S.firstUndefined? es := by
  rw [firstUndefined?, firstUndefined?]
  refine List.find?_congr fun op hop => ?_
  obtain ⟨d, hd, hhead⟩ := List.mem_filterMap.mp hop
  rw [Expr.nodesAll_eq_flatMap, List.mem_flatMap] at hd
  obtain ⟨e, he, hd⟩ := hd
  rw [(h e he).defines_eq (List.mem_filterMap.mpr ⟨d, hd, hhead⟩)]

end Scope

/-! ### Captured calls in another scope -/

/-- A captured call that looks the functions of its arguments up in a given scope. -/
def CapturedCall.inScope (S : Scope) (c : CapturedCall) : CapturedCall :=
  ⟨{ c.closure with scope := S }, c.lowered.map (Term.inScope S)⟩

namespace Term

theorem capturedCallsAll_inScopeAll {S : Scope} {ts : List Term}
    (h : ∀ t ∈ ts, (t.inScope S).capturedCalls = t.capturedCalls.map (CapturedCall.inScope S)) :
    capturedCallsAll (inScopeAll S ts) =
      (capturedCallsAll ts).map (CapturedCall.inScope S) := by
  rw [inScopeAll_eq_map, capturedCallsAll_eq_flatMap, capturedCallsAll_eq_flatMap,
    List.flatMap_map, List.map_flatMap]
  exact List.flatMap_congr h

/-- The captured calls of a term in another scope are those of the term, each in that scope. -/
theorem capturedCalls_inScope (S : Scope) (t : Term) :
    (t.inScope S).capturedCalls = t.capturedCalls.map (CapturedCall.inScope S) := by
  induction t using inductionArgs with
  | column name => rw [inScope, capturedCalls, List.map_nil]
  | constant value => rw [inScope, capturedCalls, List.map_nil]
  | absent => rw [inScope, capturedCalls, List.map_nil]
  | op o args ih => rw [inScope, capturedCalls, capturedCalls, capturedCallsAll_inScopeAll ih]
  | captured call lowered ih =>
      rw [inScope, capturedCalls, capturedCalls, capturedCallsAll_inScopeAll ih, List.map_cons,
        CapturedCall.inScope, inScopeAll_eq_map]

theorem strength?_inScope (S : Scope) (t : Term) : (t.inScope S).strength? = t.strength? := by
  cases t <;> rw [inScope] <;> rfl

theorem needsParens_inScope (S : Scope) (p : Nat) (t : Term) :
    needsParens p (t.inScope S) = needsParens p t := by
  have hstrength := strength?_inScope S t
  unfold needsParens
  rw [hstrength]
  cases t <;> simp only [inScope]

/-- A term prints alike in all scopes. -/
theorem chars_inScope (S : Scope) (t : Term) : (t.inScope S).chars = t.chars := by
  induction t using inductionArgs with
  | column name => rw [inScope]
  | constant value => rw [inScope]
  | absent => rw [inScope]
  | captured call lowered _ =>
      rw [inScope, chars, chars]
      rfl
  | op o args ih =>
      rw [inScope, chars_op, chars_op, inScopeAll_eq_map, List.map_map]
      congr 1
      refine List.map_congr_left fun t ht => ?_
      rw [Function.comp_apply, operand, operand, needsParens_inScope, ih t ht]

theorem text_inScope (S : Scope) (t : Term) : (t.inScope S).text = t.text := by
  rw [text, text, chars_inScope]

/-! ### Lowering -/

variable {S T : Scope}

theorem lowerAll_eq_map {es : List Expr}
    (h : ∀ e ∈ es, lower T e = (lower S e).map (inScope T)) :
    lowerAll T es = (lowerAll S es).map (inScopeAll T) := by
  induction es with
  | nil =>
      rw [lowerAll_nil, lowerAll_nil, Except.map, inScopeAll]
  | cons e es ih =>
      have he := h e List.mem_cons_self
      have hes := ih fun d hd => h d (List.mem_cons_of_mem _ hd)
      rw [lowerAll, lowerAll, he, hes]
      cases lower S e with
      | error err => rfl
      | ok t =>
          cases lowerAll S es with
          | error err => rfl
          | ok ts => simp only [Except.map, inScopeAll]

/-- Capturing depends on the operators of the call alone, and keeps the scope. -/
theorem capture_eq_map {op : String} {args : List Expr} (ts : List Term)
    (h : S.Agree T (Expr.call op args).operators) :
    CapturedCall.capture T (.call op args) (ts.map (inScope T)) =
      (CapturedCall.capture S (.call op args) ts).map (CapturedCall.inScope T) := by
  have hop := h op (Expr.mem_operators_self op args)
  have hargs : T.firstUndefined? args = S.firstUndefined? args :=
    Scope.firstUndefined?_eq_of_agree fun e he => h.of_subset fun _ => Expr.mem_operators_call he
  have hmap : (ts.map (inScope T)).length = ts.length := List.length_map _
  by_cases hlen : ts.length = args.length
  · rw [CapturedCall.capture_of_length_eq hlen,
      CapturedCall.capture_of_length_eq (hmap.trans hlen), ← hop, hargs]
    cases S.resolve op with
    | none => rfl
    | some f =>
        cases S.firstUndefined? args with
        | none => rfl
        | some name => rfl
  · rw [CapturedCall.capture_of_length_ne hlen,
      CapturedCall.capture_of_length_ne (by rwa [hmap]), hmap]
    rfl

/-- **The term of an expression depends on the functions that it mentions alone**, and so does the
fault that is reported, but for the scope that the captured calls keep. -/
theorem lower_eq_map (e : Expr) :
    S.Agree T e.mentioned → lower T e = (lower S e).map (inScope T) := by
  induction e using Expr.inductionCalls with
  | symbol name =>
      intro _
      rw [lower_symbol, lower_symbol, Except.map, inScope]
  | number value =>
      intro _
      rw [lower_number, lower_number, Except.map, inScope]
  | absent =>
      intro _
      rw [lower_absent, lower_absent, Except.map, inScope]
  | call op args ih =>
      intro h
      have hargs := lowerAll_eq_map fun e he =>
        ih e he (h.of_subset fun _ => Expr.mem_mentioned_call he)
      rw [lower, lower, hargs]
      cases lowerAll S args with
      | error err => rfl
      | ok ts =>
          simp only [Except.map]
          cases hop : FormulaOp.ofSymbol? op with
          | some o => simp only [inScope]
          | none =>
              -- only here is a scope asked for anything
              have hordinary : (Expr.call op args).isOrdinary = true :=
                Expr.isOrdinary_call_iff.mpr hop
              have hcall : S.Agree T (Expr.call op args).operators := h.of_subset fun _ =>
                Expr.mem_mentioned_of_mem_nodes (Expr.mem_nodes_self _) hordinary
              simp only [inScopeAll_eq_map, capture_eq_map ts hcall]
              cases CapturedCall.capture S (.call op args) ts with
              | error err => rfl
              | ok c =>
                  simp only [Except.map, CapturedCall.term, CapturedCall.inScope, inScope,
                    inScopeAll_eq_map]

theorem ofExpr_eq_map {e : Expr} (h : S.Agree T e.mentioned) :
    ofExpr T e = (ofExpr S e).map (inScope T) := by
  rw [ofExpr, ofExpr]
  cases e.requireUnescaped with
  | error err => rfl
  | ok u => exact lower_eq_map e h

end Term

/-! ### Interchangeable scopes -/

/-- A captured call and the same call in another scope: the function, the arguments and the values
are the same. -/
structure CapturedCall.Alike (c d : CapturedCall) : Prop where
  closure_eq : d.closure = { c.closure with scope := d.closure.scope }
  lowered_eq : d.lowered = c.lowered.map (Term.inScope d.closure.scope)
  evaluate_eq : ∀ row, d.closure.evaluate row = c.closure.evaluate row
  evaluateAt_eq : ∀ values, d.closure.evaluateAt values = c.closure.evaluateAt values

/-- Two terms that show nothing of the scopes they were made in. -/
structure Term.Alike (t u : Term) : Prop where
  columns_eq : u.columns = t.columns
  text_eq : u.text = t.text
  document_eq : u.document = t.document
  calls : List.Forall₂ CapturedCall.Alike t.capturedCalls u.capturedCalls

/-- Two scopes that an expression does not tell apart: the same fault, or two terms alike. -/
structure Scope.Interchangeable (S T : Scope) (e : Expr) : Prop where
  error_iff : ∀ err, Term.ofExpr T e = .error err ↔ Term.ofExpr S e = .error err
  exists_ok_iff : (∃ u, Term.ofExpr T e = .ok u) ↔ ∃ t, Term.ofExpr S e = .ok t
  alike : ∀ t u, Term.ofExpr S e = .ok t → Term.ofExpr T e = .ok u → t.Alike u

section

variable {S T : Scope}

/-- Every call captured from an expression is alike in another scope that agrees on what the
expression mentions. -/
theorem Term.alike_of_captured {e : Expr} {t : Term} (h : Term.Lowers S e t)
    (hagree : S.Agree T e.mentioned) :
    ∀ c ∈ t.capturedCalls, c.Alike (c.inScope T) := by
  intro c hc
  have hexpr : c.closure.expr ∈ e.nodes.filter Expr.isOrdinary := by
    rw [← Term.map_expr_capturedCalls h]
    exact List.mem_map_of_mem hc
  obtain ⟨hmem, hordinary⟩ := List.mem_filter.mp hexpr
  have hscope := (Term.resolve_of_captured h c hc).1
  have hevaluate : ∀ row, (c.inScope T).closure.evaluate row = c.closure.evaluate row := by
    intro row
    rw [Closure.evaluate, Closure.evaluate, hscope]
    refine (Scope.applyTo_congr _ fun d hd => Scope.eval_eq_of_agree row d ?_).symm
    exact hagree.of_subset fun f hf =>
      Expr.mem_mentioned_of_mem_nodes hmem hordinary (Expr.mem_operators_call hd hf)
  refine ⟨rfl, rfl, hevaluate, ?_⟩
  intro values
  rw [Closure.evaluateAt, Closure.evaluateAt, hevaluate]
  rfl

theorem Term.alike_inScope {e : Expr} {t : Term} (h : Term.Lowers S e t)
    (hagree : S.Agree T e.mentioned) (hT : Term.Lowers T e (t.inScope T)) :
    t.Alike (t.inScope T) where
  columns_eq := (Term.columns_of_lowers hT).trans (Term.columns_of_lowers h).symm
  text_eq := Term.text_inScope T t
  document_eq := Term.document_eq_of_lowers hT h
  calls := by
    rw [Term.capturedCalls_inScope, List.forall₂_map_right_iff, List.forall₂_same]
    exact Term.alike_of_captured h hagree

theorem Scope.interchangeable_of_mentioned {e : Expr} (h : S.Agree T e.mentioned) :
    S.Interchangeable T e := by
  have hmap := Term.ofExpr_eq_map h
  refine ⟨?_, ?_, ?_⟩
  · intro err
    rw [hmap]
    cases Term.ofExpr S e <;> simp [Except.map]
  · rw [hmap]
    cases Term.ofExpr S e <;> simp [Except.map]
  · intro t u ht hu
    have hu' := hu
    rw [hmap, ht] at hu'
    cases hu'
    exact Term.alike_inScope (Term.lowers_of_ofExpr ht) h (Term.lowers_of_ofExpr hu)

end

/-- **Only the functions that an expression mentions matter.**  Scopes that agree on them give it
the same fault, or terms with the same columns, text and document whose captured calls have the
same values.  So nothing changes when a function of a name that is not mentioned is defined,
shadowed or taken away; and an operator that stands in no ordinary call is not mentioned. -/
theorem Scope.interchangeable_of_agree (e : Expr) :
    (∀ S T : Scope, S.Agree T e.mentioned → S.Interchangeable T e) ∧
    (∀ (S : Scope) (f : Function), f.name ∉ e.mentioned → S.Interchangeable (S.insert f) e) ∧
    ∀ (S : Scope) (op : String),
      (∀ c ∈ e.nodes, c.isOrdinary = true → op ∉ c.operators) →
        S.Interchangeable (S.without op) e := by
  refine ⟨?_, ?_, ?_⟩
  · intro S T h
    exact Scope.interchangeable_of_mentioned h
  · intro S f hf
    exact Scope.interchangeable_of_mentioned (Scope.agree_insert hf)
  · intro S op hop
    refine Scope.interchangeable_of_mentioned (Scope.agree_without ?_)
    intro hmem
    obtain ⟨c, hc, hordinary, hcalled⟩ := Expr.mem_mentioned_iff.mp hmem
    exact hop c hc hordinary hcalled

/-- The built-in functions that `log(a - exp(b)) + c` mentions. -/
def Scope.fewFunctions : Scope :=
  ⟨[.unary "exp" Float.exp, Builtin.minus, .unary "log" Float.log]⟩

/-- For `log(a - exp(b)) + c` three functions are as good as all that are built in, another square
root makes no difference, and no sum need be defined. -/
theorem Scope.interchangeable_nestedCalls :
    (∃ t, Term.ofExpr .builtins Term.nestedCalls = .ok t) ∧
      Scope.builtins.Interchangeable .fewFunctions Term.nestedCalls ∧
      Scope.builtins.Interchangeable (Scope.builtins.insert (.unary "sqrt" Float.exp))
        Term.nestedCalls ∧
      Scope.builtins.Interchangeable (Scope.builtins.without "+") Term.nestedCalls := by
  have hmentioned : Term.nestedCalls.mentioned = ["log", "-", "exp", "-", "exp", "exp"] := rfl
  have hagree : Scope.builtins.Agree .fewFunctions ["log", "-", "exp"] :=
    List.forall_mem_cons.mpr
      ⟨rfl, List.forall_mem_cons.mpr ⟨rfl, List.forall_mem_singleton.mpr rfl⟩⟩
  obtain ⟨hscopes, hinsert, hwithout⟩ := Scope.interchangeable_of_agree Term.nestedCalls
  refine ⟨⟨_, rfl⟩, ?_, ?_, ?_⟩
  · refine hscopes _ _ (hagree.of_subset ?_)
    rw [hmentioned]
    decide
  · refine hinsert _ (.unary "sqrt" Float.exp) ?_
    rw [hmentioned]
    decide
  · refine hwithout _ "+" fun c hc hordinary hcalled => ?_
    have hplus := Expr.mem_mentioned_of_mem_nodes hc hordinary hcalled
    rw [hmentioned] at hplus
    exact absurd hplus (by decide)

end ModelFormula
