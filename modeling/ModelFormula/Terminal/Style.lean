/-!
# Styles of a terminal

* `Style` — how a part of a text is set off;
* `styled` — a part of a text, set off on a terminal;
* `spelled` — **a text in which no character controls a terminal.**
-/

set_option autoImplicit false

namespace ModelFormula.Terminal

/-! ### Parts of a text -/

/-- How a part of a text is set off. -/
inductive Style where
  /-- In bold red. -/
  | alert
  /-- In yellow. -/
  | caution
  /-- In bold. -/
  | strong
  deriving DecidableEq, Repr

/-- The control sequences that begin a style. -/
def Style.start : Style → String
  | .alert => "\x1b[1m\x1b[31m"
  | .caution => "\x1b[33m"
  | .strong => "\x1b[1m"

/-- A part of a text, set off on a terminal. -/
def styled (style : Style) (text : String) : String := style.start ++ text ++ "\x1b[0m"

/-! ### Texts that control nothing -/

/-- A character, spelled with a backslash if it controls a terminal. -/
def spelledChar (c : Char) : List Char :=
  match c with
  | '\x1b' => ['\\', 'x', '1', 'b']
  | '\x07' => ['\\', 'x', '0', '7']
  | '\x08' => ['\\', 'x', '0', '8']
  | '\x0c' => ['\\', 'x', '0', 'c']
  | '\x7f' => ['\\', 'x', '7', 'f']
  | c =>
    -- the control characters outside ASCII
    if 0x80 ≤ c.toNat ∧ c.toNat ≤ 0x9f then
      '\\' :: 'u' :: '\x7b' :: Nat.toDigits 16 c.toNat ++ ['\x7d']
    else [c]

/-- A text in which the characters that control a terminal are spelled. -/
def spelled (text : String) : String := String.ofList (text.toList.flatMap spelledChar)

end ModelFormula.Terminal
