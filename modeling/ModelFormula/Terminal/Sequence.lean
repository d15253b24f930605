/-!
# Control sequences of a terminal

A text for a terminal holds control sequences, each of which begins with the escape character.  For
a reader that is no terminal they are taken out, together with the control characters that are no
white space.

* `Sequence` — the parts of control sequences, told apart by what may follow them;
* `Reading` — where in a text a reader stands;
* `Reading.next` — where the next character leads, and whether it is shown;
* `unescaped` — **a text without its control sequences.**

White space within a sequence is shown, and suspends the sequence: what follows is shown too, up to
the next control character, from where the sequence goes on.  A character outside ASCII that is
shown drops a suspended sequence.
-/

set_option autoImplicit false

namespace ModelFormula.Terminal

/-! ### The parts of a sequence -/

/-- The parts of control sequences. -/
inductive Sequence where
  /-- Directly behind the escape character. -/
  | escape
  /-- Behind a character that announces one more. -/
  | announced
  /-- Behind `[`, up to a letter. -/
  | control
  /-- Behind `P`. -/
  | device
  /-- Among the parameters behind `P`. -/
  | deviceParameters
  /-- Behind the parameters, up to a letter. -/
  | deviceFunction
  /-- Behind `]`, up to the bell. -/
  | command
  /-- In the text of a string. -/
  | string
  deriving DecidableEq, Repr

/-- Where in a text a reader stands. -/
inductive Reading where
  /-- Outside of every sequence. -/
  | text
  /-- In a sequence. -/
  | within (sequence : Sequence)
  /-- Behind white space in a sequence. -/
  | suspended (sequence : Sequence)
  deriving DecidableEq, Repr

/-! ### Characters -/

/-- The white space that is no blank. -/
def isLayout (c : Char) : Bool := c == '\t' || c == '\n' || c == '\x0c' || c == '\r'

/-- Whether a character is in ASCII. -/
def isAscii (c : Char) : Bool := decide (c.toNat < 0x80)

/-- Whether a character is shown outside of every sequence. -/
def isShown (c : Char) : Bool :=
  !isAscii c || isLayout c || (decide (0x20 ≤ c.toNat) && decide (c.toNat < 0x7f))

/-- Whether the byte `0x9c` is part of the encoding of a character outside ASCII. -/
def hasTerminator (c : Char) : Bool :=
  let n := c.toNat
  (decide (0x80 ≤ n) && n % 64 == 0x1c)
    || (decide (0x800 ≤ n) && n / 64 % 64 == 0x1c)
    || (decide (0x10000 ≤ n) && n / 4096 % 64 == 0x1c)

/-- Whether a character is between two others. -/
def between (low high c : Char) : Bool :=
  decide (low.toNat ≤ c.toNat) && decide (c.toNat ≤ high.toNat)

/-! ### Reading a text -/

/-- Where a character leads that is in a sequence and begins or cancels none. -/
def Sequence.advance (s : Sequence) (c : Char) : Reading :=
  match s with
  | .escape =>
    if between ' ' '/' c then .within .announced
    else if c = '[' then .within .control
    else if c = 'P' then .within .device
    else if c = ']' then .within .command
    else if c = 'X' || c = '^' || c = '_' then .within .string
    else if between '0' '~' c then .text
    else .within .escape
  | .announced => if between '0' '~' c then .text else .within .announced
  | .control => if between '@' '~' c then .text else .within .control
  | .device =>
    if between ' ' '/' c then .within .deviceFunction
    else if between '0' '?' c then .within .deviceParameters
    else if between '@' '~' c then .within .string
    else .within .device
  | .deviceParameters =>
    if between ' ' '/' c then .within .deviceFunction
    else if between '<' '~' c then .within .string
    else .within .deviceParameters
  | .deviceFunction => if between '0' '~' c then .within .string else .within .deviceFunction
  | .command => if c = '\x07' then .text else .within .command
  | .string => if hasTerminator c then .text else .within .string

/-- Where a character leads that is not shown. -/
def Sequence.next (s : Sequence) (c : Char) : Reading :=
  if c = '\x1b' then .within .escape
  else if c = '\x18' || c = '\x1a' then .text
  else s.advance c

/-- Whether white space in a sequence is shown. -/
def Sequence.suspends : Sequence → Bool
  | .escape | .announced | .control => true
  | .device | .deviceParameters | .deviceFunction | .command | .string => false

/-- Where the next character leads, and whether it is shown. -/
def Reading.next (r : Reading) (c : Char) : Reading × Bool :=
  match r with
  | .text =>
    if isShown c then (.text, true)
    else (if c = '\x1b' then .within .escape else .text, false)
  | .within s => if s.suspends && isLayout c then (.suspended s, true) else (s.next c, false)
  | .suspended s =>
    if isShown c then (if isAscii c then .suspended s else .text, true) else (s.next c, false)

/-- The characters that a reader is shown. -/
def Reading.shown (r : Reading) : List Char → List Char
  | [] => []
  | c :: cs =>
    let (r, isVisible) := r.next c
    if isVisible then c :: r.shown cs else r.shown cs

/-- A text without its control sequences. -/
def unescaped (s : List Char) : List Char := Reading.text.shown s

end ModelFormula.Terminal
