import ModelFormula.Decimal.Numeral
import ModelFormula.Text.Blank

/-!
# Bindings on the command line

A binding is written `NAME=VALUE`; the first `=` divides it, and blanks around both parts are left
aside.

* `Binding.read` — the name and the value;
* `BindingFault.message` — what is wrong with a text that is no binding.
-/

set_option autoImplicit false

namespace ModelFormula

/-- What is wrong with a text that is no binding. -/
inductive BindingFault where
  /-- There is no `=` in it. -/
  | noValue (text : String)
  /-- Only blanks follow the `=`. -/
  | emptyValue (name : String)
  /-- What follows the `=` is no number. -/
  | badValue (name : String)
  deriving DecidableEq, Repr

/-- What is wrong with a text that is no binding, in words. -/
def BindingFault.message : BindingFault → String
  | .noValue text => "expected NAME=VALUE, got `" ++ text ++ "`"
  | .emptyValue name => "bad value for `" ++ name ++ "`: cannot parse float from empty string"
  | .badValue name => "bad value for `" ++ name ++ "`: invalid float literal"

/-- A text divided at the first occurrence of a character, which is left out. -/
def splitOnce? (mark : Char) (s : List Char) : Option (List Char × List Char) :=
  match s.dropWhile (· != mark) with
  | _ :: rest => some (s.takeWhile (· != mark), rest)
  | [] => none

/-- The name and the value of a binding. -/
def Binding.read (text : String) : Except BindingFault (String × Float) :=
  match splitOnce? '=' text.toList with
  | none => .error (.noValue text)
  | some (name, value) =>
    match trim value with
    | [] => .error (.emptyValue (String.ofList name))
    | digits =>
      match Numeral.ofText? digits with
      | some x => .ok (String.ofList (trim name), x)
      | none => .error (.badValue (String.ofList name))

end ModelFormula
