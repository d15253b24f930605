import ModelFormula.Json.Encoding
import ModelFormula.Proofs.Json.Spacing
import ModelFormula.Proofs.Lowering
import ModelFormula.Scope.Builtin

/-!
# Expressions and formulas as JSON

An expression is told by its document, and so is a formula: of the scope that it was built in only
names of functions are shown, and those are in the expression already.

* `Expr.document_inj` — distinct expressions have distinct documents;
* `Term.document_eq_of_lowers` — **the terms of one expression have one document**, whatever the
  scopes, by induction on the expression and one of its terms;
* `Expr.finite_document`, `Term.finite_document` — the documents of finite numbers are finite;
* `Formula.texts_identify` — **the texts of expressions and formulas tell them apart**, on one line
  as well as with each element on a line of its own.
-/

set_option autoImplicit false

namespace ModelFormula

/-! ### Expressions -/

namespace Expr

/-- Every number in an expression is finite. -/
def Finite (e : Expr) : Prop := ∀ x, .number x ∈ e.nodes → Double.isFinite x = true

theorem Finite.of_mem {op : String} {args : List Expr} {e : Expr} (h : (call op args).Finite)
    (he : e ∈ args) : e.Finite :=
  fun x hx => h x (mem_nodes_of_mem he hx)

theorem documents_eq_map (es : List Expr) : documents es = es.map document := by
  induction es with
  | nil => rw [documents, List.map_nil]
  | cons e es ih => rw [documents, ih, List.map_cons]

theorem documents_inj {es es' : List Expr}
    (h : ∀ e ∈ es, ∀ e', e.document = e'.document → e = e')
    (hdocuments : documents es = documents es') : es = es' := by
  induction es generalizing es' with
  | nil =>
      cases es' with
      | nil => rfl
      | cons e' es' => rw [documents, documents] at hdocuments; cases hdocuments
  | cons e es ih =>
      obtain ⟨he, hes⟩ := List.forall_mem_cons.mp h
      cases es' with
      | nil => rw [documents, documents] at hdocuments; cases hdocuments
      | cons e' es' =>
          rw [documents, documents, List.cons.injEq] at hdocuments
          rw [he e' hdocuments.1, ih hes hdocuments.2]

theorem eq_of_document_eq (e : Expr) : ∀ e', e.document = e'.document → e = e' := by
  induction e using inductionCalls with
  | symbol name =>
      intro e' h
      cases e' with
      | symbol name' => simpa [document] using h
      | _ => simp [document] at h
  | number value =>
      intro e' h
      cases e' with
      | number value' => simpa [document] using h
      | _ => simp [document] at h
  | absent =>
      intro e' h
      cases e' with
      | absent => rfl
      | _ => simp [document] at h
  | call op args ih =>
      intro e' h
      cases e' with
      | call op' args' =>
          have hfields : op = op' ∧ documents args = documents args' := by
            simpa [document] using h
          rw [hfields.1, documents_inj ih hfields.2]
      | _ => simp [document] at h

/-- Distinct expressions have distinct documents. -/
theorem document_inj {e e' : Expr} : e.document = e'.document ↔ e = e' := by
  constructor
  · exact eq_of_document_eq e e'
  · rintro rfl
    rfl

end Expr

/-! ### Terms -/

namespace Term

variable {S T : Scope}

/-- All terms of an expression in a scope have the document of a given one. -/
def SameDocument (T : Scope) (e : Expr) (t : Term) : Prop :=
  ∀ t', Lowers T e t' → t.document = t'.document

theorem documents_eq_map (ts : List Term) : documents ts = ts.map document := by
  induction ts with
  | nil => rw [documents, List.map_nil]
  | cons t ts ih => rw [documents, ih, List.map_cons]

theorem documents_eq_of_sameDocument {es : List Expr} {ts ts' : List Term}
    (h : List.Forall₂ (SameDocument T) es ts) (h' : List.Forall₂ (Lowers T) es ts') :
    documents ts = documents ts' := by
  induction h generalizing ts' with
  | nil =>
      cases h' with
      | nil => rfl
  | cons ht _ ih =>
      cases h' with
      | cons ht' hts' => rw [documents, documents, ht _ ht', ih hts']

/-- **The terms of one expression have one document, whatever the scopes.** -/
theorem document_eq_of_lowers {e : Expr} {t t' : Term} (h : Lowers S e t) (h' : Lowers T e t') :
    t.document = t'.document := by
  refine Lowers.induction (motive := SameDocument T) ?symbol ?number ?absent ?op ?captured h t' h'
  case symbol =>
    intro name t' ht'
    rw [eq_of_lowers_symbol ht']
  case number =>
    intro value t' ht'
    rw [eq_of_lowers_number ht']
  case absent =>
    intro t' ht'
    rw [eq_of_lowers_absent ht']
  case op =>
    intro o args ts ih t' ht'
    obtain ⟨ts', hts', ⟨p, hp, rfl⟩ | ⟨g, hop, -, -, -⟩⟩ := cases_of_lowers_call ht'
    · rw [FormulaOp.ofSymbol?_symbol, Option.some.injEq] at hp
      rw [document, document, hp, documents_eq_of_sameDocument ih hts']
    · rw [FormulaOp.ofSymbol?_symbol] at hop
      cases hop
  case captured =>
    intro f args ts hop hf _ ih t' ht'
    obtain ⟨ts', hts', ⟨p, hp, -⟩ | ⟨g, -, hg, -, rfl⟩⟩ := cases_of_lowers_call ht'
    · rw [hop] at hp
      cases hp
    · -- both functions have the name of the call, and nothing else of them is shown
      have hname : f.name = g.name := (Scope.name_of_resolve hg).symm
      simp only [document, Closure.freeVariables, Closure.expr, hname,
        documents_eq_of_sameDocument ih hts']

end Term

/-! ### Finite documents -/

/-- An object is finite if the values of its fields are. -/
theorem Document.finite_object {fields : List (String × Document)}
    (h : ∀ d ∈ fields.map Prod.snd, d.Finite) : (object fields).Finite :=
  .object fun field hfield => h field.2 (List.mem_map_of_mem hfield)

theorem Expr.finite_document (e : Expr) : e.Finite → e.document.Finite := by
  induction e using Expr.inductionCalls with
  | symbol name =>
      intro _
      rw [document]
      exact Document.finite_object (by simp [Document.Finite.string])
  | number value =>
      intro h
      have hvalue := h value (by simp)
      rw [document]
      exact Document.finite_object (by simp [Document.Finite.string, Document.Finite.number hvalue])
  | absent =>
      intro _
      rw [document]
      exact Document.finite_object (by simp [Document.Finite.string])
  | call op args ih =>
      intro h
      have hargs : Document.Finite (.array (documents args)) := by
        refine .array ?_
        rw [documents_eq_map, List.forall_mem_map]
        exact fun e he => ih e he (h.of_mem he)
      rw [document]
      exact Document.finite_object (by simp [Document.Finite.string, hargs])

/-- The terms of the operands of a call have finite documents if the call is finite. -/
theorem Term.finite_documents {op : String} {args : List Expr} {ts : List Term}
    (ih : List.Forall₂ (fun (e : Expr) (t : Term) => e.Finite → t.document.Finite) args ts)
    (h : (Expr.call op args).Finite) : (Document.array (documents ts)).Finite := by
  have hargs : List.Forall₂ (fun _ (t : Term) => t.document.Finite) args ts :=
    ((List.forall₂_and_left _ _).mpr ⟨fun e he => h.of_mem he, ih⟩).imp
      fun e t hand => hand.2 hand.1
  refine .array ?_
  rw [documents_eq_map, List.forall_mem_map]
  exact forall_mem_of_forall₂ hargs

/-- The document of a term is finite if the numbers of its expression are. -/
theorem Term.finite_document {S : Scope} {e : Expr} {t : Term} (h : Term.Lowers S e t) :
    e.Finite → t.document.Finite := by
  refine Term.Lowers.induction (motive := fun (e : Expr) (t : Term) => e.Finite → t.document.Finite)
    ?symbol ?number ?absent ?op ?captured h
  case symbol =>
    intro name _
    rw [document]
    exact Document.finite_object (by simp [Document.Finite.string])
  case number =>
    intro value h
    have hvalue := h value (by simp)
    rw [document]
    exact Document.finite_object (by simp [Document.Finite.string, Document.Finite.number hvalue])
  case absent =>
    intro _
    rw [document]
    exact Document.finite_object (by simp [Document.Finite.string])
  case op =>
    intro o args ts ih h
    rw [document]
    exact Document.finite_object (by simp [Document.Finite.string, finite_documents ih h])
  case captured =>
    intro f args ts _ _ _ ih h
    have hnames (names : List String) : (Document.array (names.map .string)).Finite := by
      refine .array ?_
      rw [List.forall_mem_map]
      exact fun name _ => .string name
    have hexpr := (Expr.call f.name args).finite_document h
    rw [document]
    exact Document.finite_object
      (by simp [Document.Finite.string, hnames, Closure.expr, hexpr, finite_documents ih h])

/-! ### Formulas -/

namespace Formula

variable {S T : Scope}

/-- The document of a formula is finite if its numbers are. -/
theorem finite_document {e : Expr} {f : Formula} (h : ofExpr S e = .ok f)
    (hfinite : f.expr.Finite) : f.document.Finite := by
  obtain ⟨hexpr, -, lhs, rhs, rfl, hlhs, hrhs⟩ := lowers_of_ofExpr h
  have hdocument := f.expr.finite_document hfinite
  rw [hexpr] at hfinite
  have hl := Term.finite_document hlhs (hfinite.of_mem (by simp))
  have hr := Term.finite_document hrhs (hfinite.of_mem (by simp))
  exact Document.finite_object (by simp [hdocument, hl, hr])

/-- Formulas have the same document just if they have the same expression: the scopes leave no
trace. -/
theorem document_eq_iff {e e' : Expr} {f g : Formula} (hf : ofExpr S e = .ok f)
    (hg : ofExpr T e' = .ok g) : f.document = g.document ↔ f.expr = g.expr := by
  constructor
  · intro h
    have hexpr : f.expr.document = g.expr.document := by
      simp only [document, Document.object.injEq, List.cons.injEq, Prod.mk.injEq] at h
      exact h.1.2
    exact Expr.document_inj.mp hexpr
  · intro h
    obtain ⟨hfexpr, -, lhs, rhs, rfl, hflhs, hfrhs⟩ := lowers_of_ofExpr hf
    obtain ⟨hgexpr, -, lhs', rhs', rfl, hglhs, hgrhs⟩ := lowers_of_ofExpr hg
    have hsides : Expr.call "~" [lhs, rhs] = .call "~" [lhs', rhs'] := by rw [← hfexpr, h, hgexpr]
    cases hsides
    rw [document, document, h, Term.document_eq_of_lowers hflhs hglhs,
      Term.document_eq_of_lowers hfrhs hgrhs]

/-- **The texts of expressions and formulas of finite numbers tell them apart**, on one line as well
as with each element on a line of its own.  Numbers are the same only if their bits are; of the
scopes that formulas were built in nothing is left in the texts. -/
theorem texts_identify :
    (∀ x y : Float, Expr.number x = .number y ↔ x.toBits = y.toBits) ∧
      (∀ e e' : Expr, e.Finite → e'.Finite →
        (e.document.compact = e'.document.compact ↔ e = e') ∧
        (e.document.pretty = e'.document.pretty ↔ e = e')) ∧
      ∀ (S T : Scope) (e e' : Expr) (f g : Formula), ofExpr S e = .ok f → ofExpr T e' = .ok g →
        f.expr.Finite → g.expr.Finite →
        (f.document.compact = g.document.compact ↔ f.expr = g.expr) ∧
        (f.document.pretty = g.document.pretty ↔ f.expr = g.expr) := by
  refine ⟨?bits, ?expressions, ?formulas⟩
  case bits =>
    intro x y
    rw [Expr.number.injEq]
    constructor
    · rintro rfl
      rfl
    · intro h
      rw [← Double.ofBits_toBits x, h, Double.ofBits_toBits]
  case expressions =>
    intro e e' h h'
    rw [Document.compact_inj (e.finite_document h) (e'.finite_document h'),
      Document.pretty_inj (e.finite_document h) (e'.finite_document h')]
    exact ⟨Expr.document_inj, Expr.document_inj⟩
  case formulas =>
    intro S T e e' f g hf hg h h'
    rw [Document.compact_inj (finite_document hf h) (finite_document hg h'),
      Document.pretty_inj (finite_document hf h) (finite_document hg h')]
    exact ⟨document_eq_iff hf hg, document_eq_iff hf hg⟩

/-- The expression `y ~ log(x)` for a number `x`. -/
def logarithmOf (x : Float) : Expr := .call "~" [.symbol "y", .call "log" [.number x]]

theorem finite_logarithmOf {x : Float} (hx : Double.isFinite x = true) :
    (logarithmOf x).Finite := by
  intro y hy
  have hyx : y = x := by simpa [logarithmOf] using hy
  rw [hyx, hx]

/-- The formulas `y ~ log(0)` and `y ~ log(-0)` have distinct texts; and `y ~ log(0)` has the same
ones where another function has the name of the logarithm. -/
theorem texts_identify_zeros :
    ∃ f g h, ofExpr .builtins (logarithmOf 0.0) = .ok f ∧
      ofExpr .builtins (logarithmOf (-0.0)) = .ok g ∧
      ofExpr (Scope.builtins.insert (Builtin.variadic "log" Builtin.sum)) (logarithmOf 0.0) =
        .ok h ∧
      f.document.compact ≠ g.document.compact ∧ f.document.pretty ≠ g.document.pretty ∧
      f.document.compact = h.document.compact ∧ f.document.pretty = h.document.pretty ∧
      (logarithmOf 0.0).document.compact ≠ (logarithmOf (-0.0)).document.compact := by
  obtain ⟨f, hf⟩ : ∃ f, ofExpr .builtins (logarithmOf 0.0) = .ok f := ⟨_, rfl⟩
  obtain ⟨g, hg⟩ : ∃ g, ofExpr .builtins (logarithmOf (-0.0)) = .ok g := ⟨_, rfl⟩
  obtain ⟨h, hh⟩ : ∃ h, ofExpr (Scope.builtins.insert (Builtin.variadic "log" Builtin.sum))
      (logarithmOf 0.0) = .ok h := ⟨_, rfl⟩
  have hzero : (logarithmOf 0.0).Finite := finite_logarithmOf (by decide)
  have hminus : (logarithmOf (-0.0)).Finite := finite_logarithmOf (by decide)
  have hfexpr := (lowers_of_ofExpr hf).1
  have hgexpr := (lowers_of_ofExpr hg).1
  have hhexpr := (lowers_of_ofExpr hh).1
  obtain ⟨hbits, hexprs, hformulas⟩ := texts_identify
  have hne : logarithmOf 0.0 ≠ logarithmOf (-0.0) := by
    intro heq
    have hnumbers : Expr.number 0.0 = .number (-0.0) := by simpa [logarithmOf] using heq
    exact absurd ((hbits _ _).mp hnumbers) (by decide)
  have hfg := hformulas _ _ _ _ f g hf hg (hfexpr ▸ hzero) (hgexpr ▸ hminus)
  have hfh := hformulas _ _ _ _ f h hf hh (hfexpr ▸ hzero) (hhexpr ▸ hzero)
  rw [hfexpr, hgexpr] at hfg
  rw [hfexpr, hhexpr] at hfh
  exact ⟨f, g, h, hf, hg, hh, fun heq => hne (hfg.1.mp heq), fun heq => hne (hfg.2.mp heq),
    hfh.1.mpr rfl, hfh.2.mpr rfl, fun heq => hne ((hexprs _ _ hzero hminus).1.mp heq)⟩

end Formula

end ModelFormula
