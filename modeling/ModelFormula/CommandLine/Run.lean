import ModelFormula.CommandLine.Arguments
import ModelFormula.Json.Encoding
import ModelFormula.Scope.Builtin

/-!
# Running the command line

The formula is printed, as text or as JSON.  If variables are bound, each captured call is then
evaluated: a value goes to the output and a failure to the errors, and a failure does not keep the
later calls from being evaluated.  In the errors, characters that would control a terminal are
spelled; of what is said about arguments that make no sense only the first line is reported.

* `Report` — exit code, output and errors;
* `CommandLine.report` — what the settings bring about;
* `CommandLine.run` — **what a list of arguments brings about.**
-/

set_option autoImplicit false

namespace ModelFormula

/-- Exit code, output and errors. -/
structure Report where
  code : Nat
  output : String
  errors : List String
  deriving DecidableEq, Repr

namespace CommandLine

/-- What is said when help is asked for. -/
def help : String :=
  "Rewrite a model formula into its term tree\n\nUsage: tm [OPTIONS] <FORMULA>\n\nArguments:\n"
    ++ "  <FORMULA>  Formula such as \"y ~ a + b * log(c)\"\n\nOptions:\n"
    ++ "      --set <NAME=VALUE>  Bind a variable for evaluating captured calls, e.g. --set c=2.5\n"
    ++ "      --json              Print the formula as JSON instead of text\n"
    ++ "      --no-builtins       Start from an empty scope instead of the built-in functions\n"
    ++ "  -h, --help              Print help\n"

/-- The scope that the settings choose. -/
def scope (settings : Settings) : Scope :=
  if settings.noBuiltins then .empty else .builtins

/-- The formula as the settings want it printed. -/
def heading (settings : Settings) (f : Formula) : String :=
  if settings.json then String.ofList f.document.pretty else f.text

/-- The line for a captured call in the output. -/
def valueLine (row : Row) (c : CapturedCall) : Option String :=
  match c.closure.evaluate row with
  | .ok value => some (c.closure.expr.text ++ " = " ++ String.ofList (Double.text value))
  | .error _ => none

/-- The message for a captured call in the errors. -/
def failureLine (row : Row) (c : CapturedCall) : Option String :=
  match c.closure.evaluate row with
  | .ok _ => none
  | .error err =>
    some (Terminal.spelled ("Evaluating " ++ c.closure.expr.text ++ ": " ++ err.message))

/-- Lines, each with its end. -/
def lines (ls : List String) : String := String.join (ls.map fun l => l ++ "\n")

/-- What the settings bring about for a formula. -/
def reportFormula (settings : Settings) (f : Formula) : Report :=
  let row := Row.ofPairs settings.bindings
  -- without bindings no call is evaluated, not even one without variables
  let calls := if settings.bindings.isEmpty then [] else f.capturedCalls
  let failures := calls.filterMap (failureLine row)
  ⟨if failures.isEmpty then 0 else 1, lines (heading settings f :: calls.filterMap (valueLine row)),
    failures⟩

/-- What the settings bring about. -/
def report (settings : Settings) : Report :=
  match Formula.ofText (scope settings) settings.formula with
  | .ok f => reportFormula settings f
  | .error err => ⟨1, "", [Terminal.spelled err.message]⟩

/-- A text without a carriage return at its end. -/
def dropReturn (s : List Char) : List Char := if s.getLast? = some '\r' then s.dropLast else s

/-- A text up to the end of its first line, which a line feed ends, with or without a carriage
return before it. -/
def firstLine (s : String) : String :=
  match splitOnce? '\n' s.toList with
  | some (line, _) => String.ofList (dropReturn line)
  | none => s

/-- What a list of arguments brings about. -/
def run (arguments : List String) : Report :=
  match Arguments.read arguments with
  | .ok settings => report settings
  | .error .help => ⟨0, help, []⟩
  | .error (.usage err) => ⟨2, "", [firstLine err.message]⟩

end CommandLine

end ModelFormula
