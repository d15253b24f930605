import ModelFormula.CommandLine.Binding
import ModelFormula.Terminal.Sequence
import ModelFormula.Terminal.Style

/-!
# Arguments of the command line

The arguments are read one after the other.  `--set` takes a value, either after an `=` or as the
next argument; that value is read as a binding only when the argument after it is accepted, so that
a later argument that makes no sense is reported first.  Behind `--` no argument is an option.

* `Settings` — what the arguments ask for;
* `UsageError` — why they make no sense, with its wording in `UsageError.message`, from which the
  control sequences are taken out, those in the arguments included;
* `Arguments.read` — **the settings of a list of arguments.**
-/

set_option autoImplicit false

namespace ModelFormula

open Terminal

/-- What the arguments ask for. -/
structure Settings where
  formula : String
  /-- The bindings, in the order in which they are given. -/
  bindings : List (String × Float)
  json : Bool
  noBuiltins : Bool
  deriving Repr

/-- The options that take no value. -/
inductive Flag where
  | json
  | noBuiltins
  deriving DecidableEq, Repr

/-- The name of an option that takes no value. -/
def Flag.name : Flag → String
  | .json => "json"
  | .noBuiltins => "no-builtins"

/-- Why a list of arguments makes no sense. -/
inductive UsageError where
  /-- The formula is not given. -/
  | missingFormula
  /-- No value follows `--set`. -/
  | missingValue
  /-- The value of `--set` is no binding. -/
  | badBinding (raw : String) (fault : BindingFault)
  /-- An option has a value but takes none. -/
  | unwantedValue (option value : String)
  /-- An option is given twice. -/
  | repeatedFlag (flag : Flag)
  /-- An argument is no option, or there is a formula already. -/
  | unexpected (argument : String)
  deriving DecidableEq, Repr

/-- The option that takes a value, as it is named in words. -/
def setOption : String := "--set <NAME=VALUE>"

/-- What is wrong with a list of arguments, in words for a terminal. -/
def UsageError.sentence : UsageError → String
  | .missingFormula => "the following required arguments were not provided:"
  | .missingValue =>
    "a value is required for '" ++ styled .caution setOption ++ "' but none was supplied"
  | .badBinding raw fault =>
    "invalid value '" ++ styled .caution raw ++ "' for '" ++ styled .strong setOption ++ "': "
      ++ fault.message
  | .unwantedValue option value =>
    "unexpected value '" ++ styled .caution value ++ "' for '"
      ++ styled .strong ("--" ++ option) ++ "' found; no more were expected"
  | .repeatedFlag flag =>
    "the argument '" ++ styled .caution ("--" ++ flag.name) ++ "' cannot be used multiple times"
  | .unexpected argument => "unexpected argument '" ++ styled .caution argument ++ "' found"

/-- What is said about a list of arguments that makes no sense, for a terminal, without the lines
between the first and the last. -/
def UsageError.display (err : UsageError) : String :=
  styled .alert "error:" ++ " " ++ err.sentence ++ "\n\nFor more information, try '"
    ++ styled .strong "--help" ++ "'.\n"

/-- What is said about a list of arguments that makes no sense, in plain words. -/
def UsageError.message (err : UsageError) : String :=
  String.ofList (unescaped err.display.toList)

/-- Why reading the arguments stops before their end. -/
inductive Stop where
  /-- Help is asked for. -/
  | help
  | usage (error : UsageError)
  deriving DecidableEq, Repr

namespace Arguments

/-! ### The state between two arguments -/

/-- What `--set` still has to get. -/
inductive Pending where
  /-- Nothing. -/
  | settled
  /-- Its value, which is the next argument. -/
  | awaiting
  /-- Its value is there but not read yet. -/
  | given (raw : String)
  deriving DecidableEq, Repr

/-- What the arguments so far have said. -/
structure Progress where
  formula : Option String
  /-- The bindings, the latest first. -/
  bindings : List (String × Float)
  flags : List Flag
  pending : Pending
  /-- Whether `--` has been seen. -/
  onlyFormula : Bool
  deriving Repr

/-- Nothing has been said. -/
def Progress.start : Progress := ⟨none, [], [], .settled, false⟩

/-- Reads the value of the last `--set`. -/
def settle (p : Progress) : Except Stop Progress :=
  match p.pending with
  | .settled => .ok p
  | .awaiting => .error (.usage .missingValue)
  | .given raw =>
    match Binding.read raw with
    | .ok binding => .ok { p with bindings := binding :: p.bindings, pending := .settled }
    | .error fault => .error (.usage (.badBinding raw fault))

/-! ### One argument -/

/-- The option with a name, with the value behind its `=`. -/
inductive LongOption where
  | set (value : Option String)
  | flag (flag : Flag) (value : Option String)
  | help (value : Option String)
  | unknown (name : String)

/-- The option of an argument, given without its two dashes. -/
def LongOption.ofText (text : List Char) : LongOption :=
  let parts := match splitOnce? '=' text with
    | some (name, value) => (String.ofList name, some (String.ofList value))
    | none => (String.ofList text, none)
  if parts.1 = "set" then .set parts.2
  else if parts.1 = Flag.json.name then .flag .json parts.2
  else if parts.1 = Flag.noBuiltins.name then .flag .noBuiltins parts.2
  else if parts.1 = "help" then .help parts.2
  else .unknown parts.1

/-- Takes an option. -/
def takeLong (p : Progress) : LongOption → Except Stop Progress
  | .set (some raw) =>
    match settle p with
    | .ok p => settle { p with pending := .given raw }
    | .error stop => .error stop
  | .set none =>
    match settle p with
    | .ok p => .ok { p with pending := .awaiting }
    | .error stop => .error stop
  | .flag flag (some value) => .error (.usage (.unwantedValue flag.name value))
  | .flag flag none =>
    match settle p with
    | .ok p =>
      if flag ∈ p.flags then .error (.usage (.repeatedFlag flag))
      else .ok { p with flags := flag :: p.flags }
    | .error stop => .error stop
  | .help (some value) => .error (.usage (.unwantedValue "help" value))
  | .help none =>
    match settle p with
    | .ok _ => .error .help
    | .error stop => .error stop
  | .unknown name => .error (.usage (.unexpected ("--" ++ name)))

/-- Takes a one-letter option, of which there is only the one for help. -/
def takeShort (p : Progress) (letter : Char) : Except Stop Progress :=
  if letter = 'h' then
    match settle p with
    | .ok _ => .error .help
    | .error stop => .error stop
  else .error (.usage (.unexpected (String.ofList ['-', letter])))

/-- Takes an argument that is no option and no value. -/
def takeFormula (p : Progress) (argument : String) : Except Stop Progress :=
  match p.formula with
  | some _ => .error (.usage (.unexpected argument))
  | none =>
    match settle p with
    | .ok p => .ok { p with formula := some argument }
    | .error stop => .error stop

/-- Takes an argument. -/
def take (p : Progress) (argument : String) : Except Stop Progress :=
  if p.onlyFormula then takeFormula p argument
  -- what begins with a dash is an option even where a value is awaited
  else match argument.toList with
    | ['-', '-'] => .ok { p with onlyFormula := true }
    | '-' :: '-' :: text => takeLong p (.ofText text)
    | '-' :: letter :: _ => takeShort p letter
    | _ =>
      if p.pending = .awaiting then .ok { p with pending := .given argument }
      else takeFormula p argument

/-! ### All arguments -/

/-- Takes the arguments one after the other. -/
def takeAll (p : Progress) : List String → Except Stop Progress
  | [] => settle p
  | argument :: rest =>
    match take p argument with
    | .ok p => takeAll p rest
    | .error stop => .error stop

/-- The settings of a list of arguments. -/
def read (arguments : List String) : Except Stop Settings :=
  match takeAll .start arguments with
  | .error stop => .error stop
  | .ok p =>
    match p.formula with
    | none => .error (.usage .missingFormula)
    | some formula =>
      .ok ⟨formula, p.bindings.reverse, p.flags.contains .json, p.flags.contains .noBuiltins⟩

end Arguments

end ModelFormula
