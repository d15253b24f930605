import ModelFormula.Proofs.CommandLine.Arguments
import ModelFormula.Proofs.CommandLine.Messages

/-!
# What a command line brings about

A command line that is understood prints its formula, if there is one, and then an answer for each
captured call, if anything is bound.

* `CommandLine.answer` — the line for a captured call, in the output or in the errors;
* `CommandLine.report_of_error`, `CommandLine.report_of_unbound`, `CommandLine.report_of_bound` —
  the report where there is no formula, without bindings, and with them;
* `CommandLine.run_of_written` — **the report of every command line that is understood**;
* `CommandLine.run_controlled` — a text that controls the terminal is not reported as it stands.
-/

set_option autoImplicit false

namespace ModelFormula

open Terminal

/-! ### The row of the bindings -/

/-- **The last binding of a name wins**, and a name without a binding has no value. -/
theorem Row.get?_ofPairs_eq_some_iff {pairs : List (String × Float)} {name : String} {x : Float} :
    (Row.ofPairs pairs).get? name = some x ↔
      ∃ before after, pairs = before ++ (name, x) :: after ∧ ∀ b ∈ after, b.1 ≠ name := by
  rw [Row.get?, Row.ofPairs, List.lookup_eq_some_iff]
  constructor
  · rintro ⟨later, earlier, hpairs, hlater⟩
    refine ⟨earlier.reverse, later.reverse, ?_, ?_⟩
    · have hreverse : pairs.reverse = later ++ (name, x) :: earlier := hpairs
      rw [← List.reverse_reverse pairs, hreverse]
      simp
    · intro b hb
      exact (bne_iff_ne.mp (hlater b (List.mem_reverse.mp hb))).symm
  · rintro ⟨before, after, rfl, hafter⟩
    refine ⟨after.reverse, before.reverse, by simp, ?_⟩
    intro b hb
    exact bne_iff_ne.mpr (hafter b (List.mem_reverse.mp hb)).symm

namespace CommandLine

/-! ### Answers -/

/-- What comes of a captured call: a line of the output, or one of the errors. -/
def answer (row : Row) (c : CapturedCall) : String ⊕ String :=
  match c.closure.evaluate row with
  | .ok value => .inl (c.closure.expr.text ++ " = " ++ String.ofList (Double.text value))
  | .error err => .inr ("Evaluating " ++ c.closure.expr.text ++ ": " ++ err.message)

theorem valueLine_eq (row : Row) (c : CapturedCall) :
    valueLine row c = (answer row c).getLeft? := by
  unfold valueLine answer
  cases c.closure.evaluate row <;> rfl

theorem failureLine_eq {S : Scope} (hS : S.InertFaults) {c : CapturedCall} (h : CapturedIn S c)
    (row : Row) : failureLine row c = (answer row c).getRight? := by
  obtain ⟨htext, hfault⟩ := h.inert hS
  unfold failureLine answer
  cases herr : c.closure.evaluate row with
  | ok value => rfl
  | error err =>
      have hline : Inert ("Evaluating " ++ c.closure.expr.text ++ ": " ++ err.message) :=
        (((inert_of_plain rfl).append htext).append (inert_of_plain rfl)).append
          (hfault row err herr)
      dsimp only
      rw [spelled_of_inert hline]
      rfl

theorem inertFaults_scope (settings : Settings) : (scope settings).InertFaults := by
  unfold scope
  split
  · exact Scope.inertFaults_empty
  · exact Scope.inertFaults_builtins

/-- Every captured call of a formula that is read is captured in its scope. -/
theorem capturedIn_of_ofText {S : Scope} {input : String} {f : Formula}
    (h : Formula.ofText S input = .ok f) : ∀ c ∈ f.capturedCalls, CapturedIn S c := by
  obtain ⟨hwf, hf⟩ := Formula.ofText_eq_ok h
  exact Term.captured_of_lowers hwf _ (Formula.lowers_normalized hf)

/-! ### Reports -/

theorem lines_cons (l : String) (ls : List String) : lines (l :: ls) = l ++ "\n" ++ lines ls := by
  rw [lines, List.map_cons, String.join_cons]
  rfl

variable {settings : Settings}

/-- Where there is no formula, nothing but the error is reported. -/
theorem report_of_error {err : FormulaError}
    (h : Formula.ofText (scope settings) settings.formula = .error err) :
    report settings = ⟨1, "", [spelled err.message]⟩ := by
  rw [report, h]

/-- Without bindings no call is evaluated. -/
theorem report_of_unbound {f : Formula}
    (h : Formula.ofText (scope settings) settings.formula = .ok f)
    (hbindings : settings.bindings = []) :
    report settings = ⟨0, heading settings f ++ "\n", []⟩ := by
  have hheading : lines [heading settings f] = heading settings f ++ "\n" := by
    rw [lines_cons]
    exact String.append_empty
  rw [report, h]
  simp only [reportFormula, hbindings, List.isEmpty_nil, if_true, List.filterMap_nil, hheading]

/-- With bindings each captured call has an answer, in the output or in the errors. -/
theorem report_of_bound {f : Formula}
    (h : Formula.ofText (scope settings) settings.formula = .ok f)
    (hbindings : settings.bindings ≠ []) :
    let answers := f.capturedCalls.map (answer (Row.ofPairs settings.bindings))
    report settings =
      ⟨if (answers.filterMap Sum.getRight?).isEmpty then 0 else 1,
        heading settings f ++ "\n" ++ lines (answers.filterMap Sum.getLeft?),
        answers.filterMap Sum.getRight?⟩ := by
  have hvalues : f.capturedCalls.filterMap (valueLine (Row.ofPairs settings.bindings)) =
      (f.capturedCalls.map (answer (Row.ofPairs settings.bindings))).filterMap Sum.getLeft? := by
    rw [List.filterMap_map]
    exact List.filterMap_congr fun c _ => valueLine_eq _ c
  have hfailures : f.capturedCalls.filterMap (failureLine (Row.ofPairs settings.bindings)) =
      (f.capturedCalls.map (answer (Row.ofPairs settings.bindings))).filterMap Sum.getRight? := by
    rw [List.filterMap_map]
    exact List.filterMap_congr fun c hc =>
      failureLine_eq (inertFaults_scope settings) (capturedIn_of_ofText h c hc) _
  have hsome : settings.bindings.isEmpty = false := List.isEmpty_eq_false_iff.mpr hbindings
  rw [report, h]
  simp only [reportFormula, hsome, Bool.false_eq_true, if_false, hvalues, hfailures, lines_cons]

/-- There is an error among the answers just if some call has no value. -/
theorem failures_ne_nil_iff {row : Row} {calls : List CapturedCall} :
    (calls.map (answer row)).filterMap Sum.getRight? ≠ [] ↔
      ∃ c ∈ calls, ∃ err, c.closure.evaluate row = .error err := by
  have hfailure (c : CapturedCall) :
      (answer row c).getRight? = none ↔ ¬∃ err, c.closure.evaluate row = .error err := by
    unfold answer
    cases c.closure.evaluate row <;> simp
  rw [List.filterMap_map, ne_eq, List.filterMap_eq_nil_iff]
  simp only [Function.comp_apply, hfailure, not_forall, not_not, exists_prop]

/-! ### Command lines -/

/-- **What every command line that is understood brings about.**  If its formula cannot be read in
the scope at hand, the output is empty and what is wrong is the only error, logged as it stands
unless a text that is no expression holds characters that control a terminal.  Otherwise the formula
comes first in the output.  Without bindings nothing follows it; with bindings each captured call of
the left side, then of the right side, has one answer, its value in the output or its fault in the
errors, and the code tells whether there is a fault.  The last binding of a name counts. -/
theorem run_of_written (parts : List Arguments.Part) (settings : Settings)
    (h : Arguments.Written parts settings) :
    (∀ err, Formula.ofText (scope settings) settings.formula = .error err →
      run (parts.flatMap Arguments.Part.arguments) = ⟨1, "", [spelled err.message]⟩ ∧
      ((Inert settings.formula ∨ ∃ e, Expr.parse settings.formula = .ok e) →
        spelled err.message = err.message)) ∧
    (∀ f, Formula.ofText (scope settings) settings.formula = .ok f →
      f.lhs.capturedCalls ++ f.rhs.capturedCalls = f.normalized.capturedCalls ∧
      (settings.bindings = [] → run (parts.flatMap Arguments.Part.arguments) =
        ⟨0, (if settings.json then String.ofList f.document.pretty else f.text) ++ "\n", []⟩) ∧
      (settings.bindings ≠ [] → ∃ code,
        run (parts.flatMap Arguments.Part.arguments) =
          ⟨code, (if settings.json then String.ofList f.document.pretty else f.text) ++ "\n" ++
              lines (((f.lhs.capturedCalls ++ f.rhs.capturedCalls).map
                (answer (Row.ofPairs settings.bindings))).filterMap Sum.getLeft?),
            ((f.lhs.capturedCalls ++ f.rhs.capturedCalls).map
              (answer (Row.ofPairs settings.bindings))).filterMap Sum.getRight?⟩ ∧
        (code = 0 ∨ code = 1) ∧
        (code = 1 ↔ ∃ c ∈ f.lhs.capturedCalls ++ f.rhs.capturedCalls, ∃ err,
          c.closure.evaluate (Row.ofPairs settings.bindings) = .error err))) ∧
    ∀ name x, (Row.ofPairs settings.bindings).get? name = some x ↔
      ∃ before after, settings.bindings = before ++ (name, x) :: after ∧
        ∀ b ∈ after, b.1 ≠ name := by
  have hrun : run (parts.flatMap Arguments.Part.arguments) = report settings := by
    rw [run, Arguments.read_of_written h]
  rw [hrun]
  refine ⟨?unreadable, ?readable, fun _ _ => Row.get?_ofPairs_eq_some_iff⟩
  case unreadable =>
    intro err herr
    refine ⟨report_of_error herr, fun hinert => ?_⟩
    exact spelled_of_inert (Formula.inert_of_ofText hinert herr)
  case readable =>
    intro f hf
    rw [← Formula.capturedCalls_eq f]
    refine ⟨rfl, report_of_unbound hf, fun hbindings => ?_⟩
    refine ⟨_, report_of_bound hf hbindings, ?_, ?_⟩
    · split
      · exact .inl rfl
      · exact .inr rfl
    · rw [← failures_ne_nil_iff, ← List.isEmpty_eq_false_iff]
      cases List.isEmpty _ <;> simp

/-- With `z` bound, in blanks, the call in `y ~ log(x)` has no value: its fault is the only error,
behind the formula in the output. -/
theorem run_of_written_unbound :
    run ["--set", " z =1", "y ~ log(x)"] =
      ⟨1, "y ~ log(x)\n", ["Evaluating log(x): variable `x` is not bound"]⟩ := by
  have hwritten : Arguments.Written [.binding false " z " "1", .formula "y ~ log(x)"]
      ⟨"y ~ log(x)", [("z", (⟨1, 0⟩ : Decimal).toFloat)], false, false⟩ := {
    formula := rfl
    noDash := by decide
    flags := by decide
    json := rfl
    noBuiltins := rfl
    bindings := .cons ⟨by decide, by decide, rfl, rfl⟩ .nil }
  obtain ⟨-, hreadable, -⟩ := run_of_written _ _ hwritten
  obtain ⟨-, -, hbound⟩ := hreadable Formula.logarithm Formula.ofText_logarithm
  obtain ⟨code, hrun, -, hfails⟩ := hbound (by simp)
  obtain rfl : code = 1 := by
    refine hfails.mpr ⟨⟨⟨.unary "log" Float.log, [.symbol "x"], .builtins⟩, [.column "x"]⟩, ?_,
      .unbound "x", rfl⟩
    simp [Formula.logarithm, Term.capturedCalls, Term.capturedCallsAll]
  exact hrun.trans (by decide)

/-! ### Texts that control a terminal -/

/-- Behind the expression `y ~ a` the text goes on with a control sequence. -/
theorem parse_controlled :
    Expr.parse "y ~ a \x1b[31m" = .error ⟨6, .trailing "\x1b[31m"⟩ := by
  have hy : Grammar.Atom "y ~ a \x1b[31m".toList (.symbol "y") " ~ a \x1b[31m".toList :=
    .symbol (Grammar.gap_refl _)
      (Expr.name_append (isName_of_all rfl rfl rfl : IsName "y") " ~ a \x1b[31m".toList)
  have ha : Grammar.Atom " a \x1b[31m".toList (.symbol "a") " \x1b[31m".toList :=
    .symbol (Grammar.gap_space "a \x1b[31m".toList)
      (Expr.name_append (isName_of_all rfl rfl rfl : IsName "a") " \x1b[31m".toList)
  have hsides : Grammar.Sides " ~ a \x1b[31m".toList [.symbol "a"] " \x1b[31m".toList :=
    .last (Grammar.gap_space "~ a \x1b[31m".toList) ha.sum
  have hskip : skipGaps " \x1b[31m".toList = '\x1b' :: "[31m".toList := rfl
  have hends : Grammar.Ends Grammar.afterTilde " \x1b[31m".toList := by
    constructor
    · intro c t heq
      cases heq
      rfl
    · intro c rest heq
      rw [hskip] at heq
      cases heq
      decide
  have hread := Grammar.Tilde.reading (.between hy.sum hsides) hends
  have hmore : trimStart " \x1b[31m".toList = '\x1b' :: "[31m".toList := rfl
  rw [Expr.parse_of_reading hread hmore]
  rfl

/-- A text that cannot be read and controls the terminal is not reported as it stands. -/
theorem run_controlled :
    (∃ settings, Arguments.Written [.formula "y ~ a \x1b[31m"] settings) ∧
      ∃ err, Formula.ofText .builtins "y ~ a \x1b[31m" = .error err ∧
        (run ["y ~ a \x1b[31m"]).errors = ["parse error at offset 6: unexpected `\\x1b[31m`"] ∧
        (run ["y ~ a \x1b[31m"]).errors ≠ [err.message] := by
  have hwritten : Arguments.Written [.formula "y ~ a \x1b[31m"]
      ⟨"y ~ a \x1b[31m", [], false, false⟩ := {
    formula := rfl
    noDash := by decide
    flags := .nil
    json := rfl
    noBuiltins := rfl
    bindings := .nil }
  have hformula : Formula.ofText .builtins "y ~ a \x1b[31m" =
      .error (.unreadable ⟨6, .trailing "\x1b[31m"⟩) := by
    rw [Formula.ofText, Expr.ofText, parse_controlled]
  have herrors : (run ["y ~ a \x1b[31m"]).errors =
      ["parse error at offset 6: unexpected `\\x1b[31m`"] := by
    have hread : Arguments.read ["y ~ a \x1b[31m"] = .ok ⟨"y ~ a \x1b[31m", [], false, false⟩ :=
      Arguments.read_of_written hwritten
    have hreport : report ⟨"y ~ a \x1b[31m", [], false, false⟩ = ⟨1, "", [_]⟩ :=
      report_of_error hformula
    rw [run, hread]
    dsimp only
    rw [hreport]
    decide
  refine ⟨⟨_, hwritten⟩, _, hformula, herrors, ?_⟩
  rw [herrors]
  decide

end CommandLine

end ModelFormula
