import ModelFormula.Text.Visible

/-!
# Quoted text

A text between quotation marks, in which some characters are escaped.  Two ways of escaping are in
use: the one of JSON documents, and the one of the lists of names in messages.

* `quoted` — a text between quotation marks, escaped character by character;
* `escapeJson` — the short escapes of JSON, `\u` with four digits for other control characters;
* `escapeListed` — short escapes, and a code point in braces for what does not show otherwise;
* `listed` — names in brackets, separated by commas.
-/

set_option autoImplicit false

namespace ModelFormula

/-- A text between quotation marks, escaped character by character. -/
def quoted (escape : Char → List Char) (s : List Char) : List Char :=
  '"' :: s.flatMap escape ++ ['"']

/-- The lower-case hexadecimal digits of a number. -/
def hexDigits (n : Nat) : List Char := Nat.toDigits 16 n

/-- A character as it stands in a JSON string. -/
def escapeJson (c : Char) : List Char :=
  match c with
  | '"' => ['\\', '"']
  | '\\' => ['\\', '\\']
  | '\x08' => ['\\', 'b']
  | '\x0c' => ['\\', 'f']
  | '\n' => ['\\', 'n']
  | '\r' => ['\\', 'r']
  | '\t' => ['\\', 't']
  | c =>
    if c.toNat < 0x20 then
      let ds := hexDigits c.toNat
      '\\' :: 'u' :: List.replicate (4 - ds.length) '0' ++ ds
    else [c]

/-- A character as it stands in a list of names. -/
def escapeListed (c : Char) : List Char :=
  match c with
  | '"' => ['\\', '"']
  | '\\' => ['\\', '\\']
  | '\n' => ['\\', 'n']
  | '\r' => ['\\', 'r']
  | '\t' => ['\\', 't']
  | '\x00' => ['\\', '0']
  | c => if isHidden c then '\\' :: 'u' :: '\x7b' :: hexDigits c.toNat ++ ['\x7d'] else [c]

/-- A name as it stands in a list of names. -/
def listedName (name : String) : List Char := quoted escapeListed name.toList

/-- Names in brackets, separated by commas. -/
def listed (names : List String) : List Char :=
  '[' :: [',', ' '].intercalate (names.map listedName) ++ [']']

end ModelFormula
