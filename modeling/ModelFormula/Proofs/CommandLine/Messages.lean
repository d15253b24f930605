import ModelFormula.CommandLine.Run
import ModelFormula.Proofs.BothSides
import ModelFormula.Proofs.Grammar.Remainders
import ModelFormula.Proofs.Json.Numbers

/-!
# Messages that control nothing

The log spells the characters that would control a terminal.  No such character is in a name, an
operator or a number that can be read, so in a message about an expression nothing is spelled; what
is quoted from a text that cannot be read is spelled where the text has such characters.

* `Terminal.Inert` — a text without characters that control a terminal, **which is logged as it
  stands** (`Terminal.spelled_of_inert`);
* `Expr.inert_text` — the text of an expression whose names control nothing, as those of every
  expression that is read do (`Expr.inertNames_of_wellFormed`), is inert;
* `Formula.inert_of_ofText` — so is **what is said about a text that makes no formula**, if the text
  is inert or is an expression;
* `CapturedIn.inert` — and **what is said about a captured call without a value.**
-/

set_option autoImplicit false

namespace ModelFormula

/-! ### Texts without control characters -/

namespace Terminal

/-- Whether a character controls a terminal. -/
def isControlling (c : Char) : Bool :=
  ['\x1b', '\x07', '\x08', '\x0c', '\x7f'].contains c
    || (decide (0x80 ≤ c.toNat) && decide (c.toNat ≤ 0x9f))

/-- No character of a text controls a terminal. -/
def Inert (s : String) : Prop := ∀ c ∈ s.toList, isControlling c = false

theorem spelledChar_of_not_isControlling {c : Char} (h : isControlling c = false) :
    spelledChar c = [c] := by
  unfold spelledChar
  split
  case h_6 =>
    refine if_neg fun hrange => ?_
    simp [isControlling, hrange] at h
  all_goals cases h

/-- **What controls nothing is logged as it stands.** -/
theorem spelled_of_inert {s : String} (h : Inert s) : spelled s = s := by
  have hself (cs : List Char) (hcs : ∀ c ∈ cs, isControlling c = false) :
      cs.flatMap spelledChar = cs := by
    induction cs with
    | nil => rfl
    | cons c cs ih =>
        obtain ⟨hc, hcs⟩ := List.forall_mem_cons.mp hcs
        rw [List.flatMap_cons, spelledChar_of_not_isControlling hc, ih hcs, List.singleton_append]
  rw [spelled, hself _ h, String.ofList_toList]

/-- A visible character of ASCII and the space control nothing. -/
theorem isControlling_of_isPlain {c : Char} (h : isPlain c = true) : isControlling c = false := by
  simp only [isPlain, Bool.and_eq_true, decide_eq_true_eq] at h
  rw [isControlling, Bool.or_eq_false_iff]
  constructor
  · rw [List.contains_eq_mem, decide_eq_false_iff_not]
    intro hmem
    simp only [List.mem_cons, List.not_mem_nil, or_false] at hmem
    rcases hmem with rfl | rfl | rfl | rfl | rfl <;> exact absurd h (by decide)
  · rw [Bool.and_eq_false_iff, decide_eq_false_iff_not, decide_eq_false_iff_not]
    omega

theorem inert_of_plain {s : String} (h : s.toList.all isPlain = true) : Inert s :=
  fun c hc => isControlling_of_isPlain (List.all_eq_true.mp h c hc)

theorem inert_ofList {s : List Char} (h : ∀ c ∈ s, isPlain c = true) : Inert (String.ofList s) := by
  rw [Inert, String.toList_ofList]
  exact fun c hc => isControlling_of_isPlain (h c hc)

theorem Inert.append {s t : String} (hs : Inert s) (ht : Inert t) : Inert (s ++ t) := by
  rw [Inert, String.toList_append]
  exact List.forall_mem_append.mpr ⟨hs, ht⟩

end Terminal

open Terminal

/-! ### Names and numbers -/

theorem isPlain_of_isNameRest {c : Char} (h : isNameRest c = true) : isPlain c = true := by
  have hrange := Grammar.range_of_isNameRest h
  simp only [isPlain, Bool.and_eq_true, decide_eq_true_eq]
  omega

theorem isPlain_of_isNumeralChar {c : Char} (h : isNumeralChar c = true) : isPlain c = true := by
  simp only [isNumeralChar, Bool.or_eq_true, beq_iff_eq] at h
  rcases h with (((h | rfl) | rfl) | rfl) | rfl
  · exact isPlain_of_isNameRest (by simp [isNameRest, Char.isAlphanum, h])
  all_goals decide

theorem inert_toString (n : Nat) : Inert (toString n) :=
  inert_ofList fun _ hc => isPlain_of_isNumeralChar (isNumeralChar_of_mem_digits _ hc)

theorem IsName.inert {name : String} (h : IsName name) : Inert name := by
  obtain ⟨c, cs, hname, hc, hcs⟩ := h
  intro d hd
  rw [hname] at hd
  rcases List.mem_cons.mp hd with rfl | hd
  · exact isControlling_of_isPlain (isPlain_of_isNameRest (Grammar.isNameRest_of_isNameStart hc))
  · exact isControlling_of_isPlain (isPlain_of_isNameRest (hcs d hd))

theorem Double.isPlain_of_mem_text (x : Float) : ∀ c ∈ Double.text x, isPlain c = true := by
  have hsign : ∀ c ∈ (if isNegative x then ['-'] else []), isPlain c = true := by
    split
    · exact List.forall_mem_singleton.mpr rfl
    · exact List.forall_mem_nil _
  unfold text
  dsimp only
  split
  · refine List.forall_mem_append.mpr ⟨hsign, fun c hc => ?_⟩
    exact isPlain_of_isNumeralChar (Decimal.isNumeralChar_of_mem_positional _ c hc)
  · split
    · exact List.forall_mem_append.mpr ⟨hsign, List.all_eq_true.mp rfl⟩
    · exact List.all_eq_true.mp rfl

/-! ### Expressions -/

namespace Expr

/-- Names and operators of an expression control nothing. -/
def InertNames (e : Expr) : Prop :=
  ∀ d ∈ e.nodes, ∀ name, d.head? = some name ∨ d.symbol? = some name → Inert name

theorem InertNames.of_mem_nodes {d e : Expr} (h : e.InertNames) (hd : d ∈ e.nodes) :
    d.InertNames :=
  fun c hc => h c (mem_nodes_trans hc hd)

theorem InertNames.of_mem {op : String} {args : List Expr} {e : Expr}
    (h : (call op args).InertNames) (he : e ∈ args) : e.InertNames :=
  h.of_mem_nodes (mem_nodes_of_mem he e.mem_nodes_self)

theorem InertNames.head {op : String} {args : List Expr} (h : (call op args).InertNames) :
    Inert op :=
  h _ (mem_nodes_self _) op (.inl rfl)

theorem InertNames.symbol {name : String} (h : (symbol name).InertNames) : Inert name :=
  h _ (mem_nodes_self _) name (.inr rfl)

theorem inertNames_call {op : String} {args : List Expr} (hop : Inert op)
    (hargs : ∀ e ∈ args, e.InertNames) : (call op args).InertNames := by
  intro d hd name hname
  rcases mem_nodes_call_iff.mp hd with rfl | ⟨e, he, hd⟩
  · rcases hname with hname | hname
    · cases hname
      exact hop
    · cases hname
  · exact hargs e he d hd name hname

/-- The head of a call that can be written controls nothing. -/
theorem inert_head_of_wellFormed {op : String} {args : List Expr} (h : WellFormed (call op args)) :
    Inert op := by
  have hlisted {ops : List String} (hall : ∀ o ∈ ops, o.toList.all isPlain = true)
      (hmem : op ∈ ops) : Inert op := inert_of_plain (hall op hmem)
  cases h with
  | applied hname _ => exact hname.inert
  | escape _ => exact inert_of_plain rfl
  | minus _ _ => exact inert_of_plain rfl
  | binary hop _ _ => exact hlisted (by decide) hop
  | run hop _ _ => exact hlisted (by decide) hop
  | sides _ _ _ => exact inert_of_plain rfl
  | oneSided _ _ => exact inert_of_plain rfl

theorem inertNames_of_wellFormed {e : Expr} (h : WellFormed e) : e.InertNames := by
  have hleaf {d : Expr} (hnodes : d.nodes = [d]) (hd : ∀ name, d.head? = some name ∨
      d.symbol? = some name → Inert name) : d.InertNames := by
    intro c hc
    rw [hnodes, List.mem_singleton] at hc
    rw [hc]
    exact hd
  refine WellFormed.inductionCalls ?symbol ?number ?absent ?call h
  case symbol =>
    intro name hname
    refine hleaf (nodes_symbol name) ?_
    rintro name' (heq | heq)
    · cases heq
    · cases heq
      exact hname.inert
  case number =>
    intro x
    exact hleaf (nodes_number x) (by simp)
  case absent =>
    exact hleaf nodes_absent (by simp)
  case call =>
    intro op args hwf ih
    exact inertNames_call (inert_head_of_wellFormed hwf) ih

/-- A separator and texts that control nothing make one that does not, too. -/
theorem forall_mem_joined {P : Char → Prop} {separator : List Char} {texts : List (List Char)}
    (hseparator : ∀ c ∈ separator, P c) (h : ∀ s ∈ texts, ∀ c ∈ s, P c) :
    ∀ c ∈ joined separator texts, P c := by
  cases texts with
  | nil =>
      intro c hc
      cases hc
  | cons s texts =>
      obtain ⟨hs, htexts⟩ := List.forall_mem_cons.mp h
      rw [joined_cons]
      refine List.forall_mem_append.mpr ⟨hs, fun c hc => ?_⟩
      obtain ⟨t, ht, hc⟩ := List.mem_flatMap.mp hc
      rcases List.mem_append.mp hc with hc | hc
      · exact hseparator c hc
      · exact htexts t ht c hc

theorem forall_mem_operand {P : Char → Prop} (hparens : P '(' ∧ P ')') {e : Expr}
    (h : ∀ c ∈ e.chars, P c) (strength : Nat) : ∀ c ∈ operand strength e, P c := by
  unfold operand
  split
  · exact List.forall_mem_cons.mpr ⟨hparens.1,
      List.forall_mem_append.mpr ⟨h, List.forall_mem_singleton.mpr hparens.2⟩⟩
  · exact h

/-- A call prints as its operator, its operands, blanks, commas and parentheses. -/
theorem forall_mem_chars_call {P : Char → Prop} (hmarks : ∀ c ∈ [' ', ',', '(', ')'], P c)
    {op : String} {args : List Expr} (hop : ∀ c ∈ op.toList, P c)
    (hargs : ∀ e ∈ args, ∀ c ∈ e.chars, P c) : ∀ c ∈ (call op args).chars, P c := by
  have hspace : P ' ' := hmarks _ (by simp)
  have hcomma : P ',' := hmarks _ (by simp)
  have hparens : P '(' ∧ P ')' := ⟨hmarks _ (by simp), hmarks _ (by simp)⟩
  have hoperands (strength : Nat) : ∀ s ∈ args.map (operand strength), ∀ c ∈ s, P c := by
    rw [List.forall_mem_map]
    exact fun e he => forall_mem_operand hparens (hargs e he) strength
  have htexts : ∀ s ∈ args.map chars, ∀ c ∈ s, P c := by
    rw [List.forall_mem_map]
    exact hargs
  rw [chars, charsAll_eq_map, operandsUnder_eq_map]
  split
  · refine List.forall_mem_append.mpr ⟨hop, fun c hc => ?_⟩
    obtain ⟨s, hs, hc⟩ := List.mem_flatten.mp hc
    exact hoperands _ s hs c hc
  · rename_i strength _
    rw [operandsUnder_eq_map, joinedBy]
    have hseparator : ∀ c ∈ ' ' :: op.toList ++ [' '], P c :=
      List.forall_mem_append.mpr
        ⟨List.forall_mem_cons.mpr ⟨hspace, hop⟩, List.forall_mem_singleton.mpr hspace⟩
    exact fun c hc => forall_mem_joined hseparator (hoperands strength) c
      ((List.dropWhile_suffix isBlank).subset hc)
  · have hseparator : ∀ c ∈ [',', ' '], P c :=
      List.forall_mem_cons.mpr ⟨hcomma, List.forall_mem_singleton.mpr hspace⟩
    refine List.forall_mem_append.mpr ⟨hop, List.forall_mem_cons.mpr ⟨hparens.1, ?_⟩⟩
    exact List.forall_mem_append.mpr
      ⟨forall_mem_joined hseparator htexts, List.forall_mem_singleton.mpr hparens.2⟩

/-- **The text of an expression controls nothing if its names do not.** -/
theorem inert_text (e : Expr) : e.InertNames → Inert e.text := by
  have hchars : e.InertNames → ∀ c ∈ e.chars, isControlling c = false := by
    induction e using inductionCalls with
    | symbol name =>
        intro h
        rw [chars_symbol]
        exact h.symbol
    | number value =>
        intro _ c hc
        rw [chars_number] at hc
        exact isControlling_of_isPlain (Double.isPlain_of_mem_text value c hc)
    | absent =>
        intro _
        rw [chars_absent]
        exact List.forall_mem_nil _
    | call op args ih =>
        intro h
        refine forall_mem_chars_call ?_ h.head fun e he => ih e he (h.of_mem he)
        exact fun c hc => isControlling_of_isPlain (List.all_eq_true.mp rfl c hc)
  intro h
  rw [Inert, text, String.toList_ofList]
  exact hchars h

end Expr

/-! ### Formulas -/

theorem ShapeFault.inert_message (fault : ShapeFault) : Inert fault.message := by
  cases fault with
  | notCall => exact inert_of_plain rfl
  | notTilde => exact inert_of_plain rfl
  | sideCount count => exact (inert_of_plain rfl).append (inert_toString count)
  | loweredCount expected actual =>
      exact (((inert_of_plain rfl).append (inert_toString expected)).append
        (inert_of_plain rfl)).append (inert_toString actual)

namespace FormulaError

theorem inert_malformed {e : Expr} (h : e.InertNames) (fault : ShapeFault) :
    Inert (malformed e fault).message :=
  (((inert_of_plain rfl).append (e.inert_text h)).append (inert_of_plain rfl)).append
    fault.inert_message

theorem inert_escaped {e : Expr} (h : e.InertNames) : Inert (escaped e).message :=
  ((inert_of_plain rfl).append (e.inert_text h)).append (inert_of_plain rfl)

theorem inert_unresolved {name : String} {e : Expr} (hname : Inert name) (h : e.InertNames) :
    Inert (unresolved name e).message :=
  ((((inert_of_plain rfl).append hname).append (inert_of_plain rfl)).append
    (e.inert_text h)).append (inert_of_plain rfl)

end FormulaError

theorem ParseFault.inert_expected (what : Expectation) : Inert (expected what).message := by
  cases what <;> exact inert_of_plain rfl

/-- What is quoted of a text that cannot be read is a part of it. -/
theorem ParseError.inert_message {input : String} {err : ParseError} (h : Inert input)
    (herr : Expr.parse input = .error err) :
    Inert (FormulaError.unreadable err).message := by
  obtain ⟨offset, fault⟩ := err
  have hfault : Inert fault.message := by
    cases fault with
    | expected what => exact ParseFault.inert_expected what
    | trailing text =>
        have htext : Inert text := fun c hc => h c ((Expr.trailing_suffix herr).subset hc)
        exact ((inert_of_plain rfl).append htext).append (inert_of_plain rfl)
  exact (((inert_of_plain rfl).append (inert_toString offset)).append
    (inert_of_plain rfl)).append hfault

namespace Formula

variable {S : Scope}

/-- **What is said about an expression that makes no formula controls nothing.** -/
theorem inert_of_ofExpr {e : Expr} {err : FormulaError} (h : e.InertNames)
    (herr : ofExpr S e = .error err) : Inert err.message := by
  by_cases hsides : e.TwoSided
  · obtain ⟨lhs, rhs, rfl⟩ := hsides
    have hterm : Term.ofExpr S (.call "~" [lhs, rhs]) = .error err := by
      rw [← map_normalized_ofExpr, herr]
      rfl
    cases hescape : (Expr.call "~" [lhs, rhs]).firstEscape? with
    | some d =>
        rw [Term.ofExpr_of_escaped hescape] at hterm
        cases hterm
        exact FormulaError.inert_escaped (h.of_mem_nodes (List.mem_of_find?_eq_some hescape))
    | none =>
        rw [Term.ofExpr_of_unescaped hescape] at hterm
        obtain ⟨c, hc, d, hd, name, hhead, rfl⟩ := Term.exists_of_lower_eq_error hterm
        exact FormulaError.inert_unresolved
          (h.of_mem_nodes hc d hd name (.inl hhead)) (h.of_mem_nodes hc)
  · obtain ⟨fault, hfault⟩ := ofExpr_of_not_twoSided (S := S) hsides
    rw [hfault] at herr
    cases herr
    exact FormulaError.inert_malformed h fault

/-- **What is said about a text that makes no formula controls nothing**, if the text does not or is
an expression. -/
theorem inert_of_ofText {input : String} {err : FormulaError}
    (h : Inert input ∨ ∃ e, Expr.parse input = .ok e) (herr : ofText S input = .error err) :
    Inert err.message := by
  cases hparse : Expr.parse input with
  | ok e =>
      rw [ofText_of_parse hparse] at herr
      exact inert_of_ofExpr (Expr.inertNames_of_wellFormed (wellFormed_of_parse hparse)) herr
  | error fault =>
      have hinput : Inert input := by
        rcases h with h | ⟨e, he⟩
        · exact h
        · rw [he] at hparse
          cases hparse
      rw [ofText, Expr.ofText, hparse] at herr
      cases herr
      exact ParseError.inert_message hinput hparse

end Formula

/-! ### Evaluation -/

namespace EvalError

theorem inert_unbound {name : String} (h : Inert name) : Inert (unbound name).message :=
  ((inert_of_plain rfl).append h).append (inert_of_plain rfl)

theorem inert_undefinedFunction {name : String} (h : Inert name) :
    Inert (undefinedFunction name).message :=
  ((inert_of_plain rfl).append h).append (inert_of_plain rfl)

theorem inert_arity {name : String} (h : Inert name) (expected actual : Nat) :
    Inert (arity name expected actual).message :=
  (((((inert_of_plain rfl).append h).append (inert_of_plain rfl)).append
    (inert_toString expected)).append (inert_of_plain rfl)).append (inert_toString actual)

end EvalError

/-- Neither the name of a function nor what its body reports controls anything. -/
structure Function.InertFaults (f : Function) : Prop where
  name : Inert f.name
  body : ∀ values err, f.body values = .error err → Inert err.message

/-- No function of a scope reports anything that controls a terminal. -/
def Scope.InertFaults (S : Scope) : Prop := ∀ name f, S.resolve name = some f → f.InertFaults

namespace Scope

variable {S : Scope} {row : Row}

/-- What is said where a function applied to operands has no value. -/
theorem inert_of_applyTo {f : Function} {args : List Expr} {err : EvalError} (hf : f.InertFaults)
    (hargs : ∀ e ∈ args, ∀ err, S.eval row e = .error err → Inert err.message)
    (h : S.applyTo row f args = .error err) : Inert err.message := by
  rcases cases_of_applyTo_eq_error h with ⟨e, he, herr⟩ | ⟨values, herr⟩ | ⟨_, _, rfl⟩
  · exact hargs e he err herr
  · exact hf.body values err herr
  · exact EvalError.inert_arity hf.name _ _

/-- What is said where an expression has no value. -/
theorem inert_of_eval (hS : S.InertFaults) (e : Expr) : e.InertNames →
    ∀ err, S.eval row e = .error err → Inert err.message := by
  induction e using Expr.inductionCalls with
  | symbol name =>
      intro h err herr
      rw [eval] at herr
      split at herr
      · cases herr
      · cases herr
        exact EvalError.inert_unbound h.symbol
  | number value =>
      intro _ err herr
      rw [eval_number] at herr
      cases herr
  | absent =>
      intro _ err herr
      rw [eval_absent] at herr
      cases herr
      exact inert_of_plain rfl
  | call op args ih =>
      intro h err herr
      cases hf : S.resolve op with
      | none =>
          rw [eval_call_of_resolve_eq_none hf] at herr
          cases herr
          exact EvalError.inert_undefinedFunction h.head
      | some f =>
          rw [eval_call_of_resolve hf] at herr
          exact inert_of_applyTo (hS op f hf) (fun e he => ih e he (h.of_mem he)) herr

theorem inertFaults_empty : Scope.empty.InertFaults := nofun

end Scope

/-- A function with an inert name that fails by the number of its arguments names itself only. -/
theorem Function.FailsByArity.inertFaults {f : Function} (h : f.FailsByArity)
    (hname : Inert f.name) : f.InertFaults where
  name := hname
  body values err herr := by
    obtain ⟨expected, rfl⟩ := h values err herr
    exact EvalError.inert_arity hname _ _

theorem Scope.inertFaults_builtins : Scope.builtins.InertFaults := by
  have hplain : ∀ f ∈ Builtin.all, f.name.toList.all isPlain = true := by decide
  intro name f hf
  exact (Builtin.failsByArity hf).inertFaults
    (inert_of_plain (hplain f (Builtin.mem_all_of_resolve hf)))

/-- **What is said about a captured call without a value controls nothing**, and neither does the
text of the call. -/
theorem CapturedIn.inert {S : Scope} (hS : S.InertFaults) {c : CapturedCall}
    (h : CapturedIn S c) :
    Inert c.closure.expr.text ∧
      ∀ row err, c.closure.evaluate row = .error err → Inert err.message := by
  have hf : c.closure.function.InertFaults := hS _ _ h.resolve_eq
  have hargs : ∀ e ∈ c.closure.args, e.InertNames :=
    fun e he => Expr.inertNames_of_wellFormed (h.wellFormed e he)
  refine ⟨Expr.inert_text _ (Expr.inertNames_call hf.name hargs), fun row err herr => ?_⟩
  rw [Closure.evaluate, h.scope_eq] at herr
  exact Scope.inert_of_applyTo hf (fun e he => Scope.inert_of_eval hS e (hargs e he)) herr

end ModelFormula
