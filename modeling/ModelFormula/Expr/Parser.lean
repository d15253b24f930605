import ModelFormula.Expr.Token

/-!
# Parsing expressions

The grammar, from the loosest operator to the tightest; gaps may stand before every token except
the parenthesis after the name of a call.

    tilde   ::= sum | sum (~ sum)+ | (~ sum)+
    sum     ::= product ((+ | -) product)*
    product ::= unary ((* | / | &) unary)*
    unary   ::= - unary | $ unary | power
    power   ::= atom | atom ^ unary
    atom    ::= ( tilde ) | name ( ) | name ( tilde (, tilde)* ) | name | numeral

* `Expr.tilde`, `Expr.chain`, `Expr.unary`, `Expr.power`, `Expr.atom` — one reader for each line of
  the grammar, `chain` for both kinds of sum and product;
* `Expr.parsePart` — the longest expression at the start of a text;
* `Expr.parse` — **the expression that a whole text is.**

Runs of `+` and of `*` make one call with an argument for each operand; every other infix operator
of a chain makes a call of two.
-/

set_option autoImplicit false

namespace ModelFormula

/-! ### Building calls -/

/-- The two levels of infix operators that are read from the left. -/
inductive Level where
  | sum
  | product
  deriving DecidableEq, Repr

namespace Level

/-- The operators of a level. -/
def operators : Level → List Char
  | .sum => ['+', '-']
  | .product => ['*', '/', '&']

/-- The operator of a level whose runs make one call. -/
def collapsing : Level → Char
  | .sum => '+'
  | .product => '*'

/-- The number of levels from this one to the tightest. -/
def height : Level → Nat
  | .sum => 2
  | .product => 1

end Level

namespace Expr

/-- A negated operand: a number changes its sign, all else becomes a call of `-`. -/
def negated : Expr → Expr
  | .number x => .number (-x)
  | e => .call "-" [e]

/-- One more operand of a run: a further argument of the call if the run goes on, else a call of
two arguments. -/
def extended (acc : Expr) (op : Char) (rhs : Expr) (goesOn : Bool) : Expr :=
  match acc, goesOn with
  | .call f args, true => .call f (args ++ [rhs])
  | acc, _ => .call op.toString [acc, rhs]

/-! ### The grammar

Every reader goes on with a shorter text, or with the same text at a tighter line of the grammar:
the measure counts sixteen for each character and adds the place of the line. -/

theorem measure_lt {m n i j : Nat} (h : m < n) (hi : i < 16) : 16 * m + i < 16 * n + j := by
  omega

theorem measure_lt_of_le {m n i j : Nat} (h : m ≤ n) (hij : i < j) :
    16 * m + i < 16 * n + j := by
  omega

mutual

/-- Reads an expression: sums with `~` between each two, or before the first. -/
def tilde (s : List Char) : Except Failure (Taken s.length Expr) :=
  match takePunct ['~'] s with
  | .ok t =>
    -- a leading tilde has no left side
    match sides t.rest with
    | .ok u => .ok ((u.withValue (.call "~" (.absent :: u.value))).widen (Nat.le_of_lt t.shorter))
    | .error e => .error e
  | .error _ =>
    match chain .sum s with
    | .error e => .error e
    | .ok lhs =>
      match takePunct ['~'] lhs.rest with
      | .error _ => .ok lhs
      | .ok t =>
        have hlt := Nat.lt_trans t.shorter lhs.shorter
        match sides t.rest with
        | .ok u => .ok ((u.withValue (.call "~" (lhs.value :: u.value))).widen (Nat.le_of_lt hlt))
        | .error e => .error e
termination_by 16 * s.length + 10
decreasing_by
  · exact measure_lt (Taken.shorter _) (by decide)
  · exact measure_lt_of_le (Nat.le_refl _) (by decide)
  · exact measure_lt (Nat.lt_trans (Taken.shorter _) (Taken.shorter _)) (by decide)

/-- Reads sums with `~` between each two. -/
def sides (s : List Char) : Except Failure (Taken s.length (List Expr)) :=
  match chain .sum s with
  | .error e => .error e
  | .ok side =>
    match takePunct ['~'] side.rest with
    | .error _ => .ok (side.withValue [side.value])
    | .ok t =>
      have hlt := Nat.lt_trans t.shorter side.shorter
      match sides t.rest with
      | .ok u => .ok ((u.withValue (side.value :: u.value)).widen (Nat.le_of_lt hlt))
      | .error e => .error e
termination_by 16 * s.length + 9
decreasing_by
  · exact measure_lt_of_le (Nat.le_refl _) (by decide)
  · exact measure_lt (Nat.lt_trans (Taken.shorter _) (Taken.shorter _)) (by decide)

/-- Reads operands with operators of one level between each two. -/
def chain (level : Level) (s : List Char) : Except Failure (Taken s.length Expr) :=
  match operandOf level s with
  | .error e => .error e
  | .ok first =>
    match chainFrom level first.value none first.rest with
    | .ok t => .ok (t.widen first.shorter)
    | .error e => .error e
termination_by 16 * s.length + (4 + 2 * level.height)
decreasing_by
  · exact measure_lt_of_le (Nat.le_refl _) (by omega)
  · exact measure_lt (Taken.shorter _) (by decide)

/-- Reads the further operands of a chain, given what the ones so far have made and the operator
before the last of them. -/
def chainFrom (level : Level) (acc : Expr) (previous : Option Char) (s : List Char) :
    Except Failure (Taken (s.length + 1) Expr) :=
  match takePunct level.operators s with
  | .error _ => .ok ⟨acc, s, Nat.lt_succ_self _⟩
  | .ok op =>
    match operandOf level op.rest with
    | .error e => .error e
    | .ok rhs =>
      have hlt := Nat.lt_trans rhs.shorter op.shorter
      -- another operator in between ends a run, and so do parentheses
      let goesOn := op.value == level.collapsing && previous == some level.collapsing
      match chainFrom level (extended acc op.value rhs.value goesOn) (some op.value) rhs.rest with
      | .ok t => .ok (t.widen (Nat.succ_le_succ (Nat.le_of_lt hlt)))
      | .error e => .error e
termination_by 16 * s.length + 8
decreasing_by
  · exact measure_lt (Taken.shorter _) (by cases level <;> decide)
  · exact measure_lt (Nat.lt_trans (Taken.shorter _) (Taken.shorter _)) (by decide)

/-- Reads one operand of a chain. -/
def operandOf (level : Level) (s : List Char) : Except Failure (Taken s.length Expr) :=
  match level with
  | .sum => chain .product s
  | .product => unary s
termination_by 16 * s.length + (3 + 2 * level.height)
decreasing_by
  · exact measure_lt_of_le (Nat.le_refl _) (by decide)
  · exact measure_lt_of_le (Nat.le_refl _) (by decide)

/-- Reads an operand behind any number of `-` and `$`. -/
def unary (s : List Char) : Except Failure (Taken s.length Expr) :=
  match takePunct ['-', '$'] s with
  | .error _ => power s
  | .ok op =>
    match unary op.rest with
    | .error e => .error e
    | .ok t =>
      let e := if op.value = '-' then negated t.value else escape t.value
      .ok ((t.withValue e).widen (Nat.le_of_lt op.shorter))
termination_by 16 * s.length + 4
decreasing_by
  · exact measure_lt_of_le (Nat.le_refl _) (by decide)
  · exact measure_lt (Taken.shorter _) (by decide)

/-- Reads an atom and its exponent, if it has one. -/
def power (s : List Char) : Except Failure (Taken s.length Expr) :=
  match atom s with
  | .error e => .error e
  | .ok base =>
    match takePunct ['^'] base.rest with
    | .error _ => .ok base
    | .ok op =>
      have hlt := Nat.lt_trans op.shorter base.shorter
      match unary op.rest with
      | .error e => .error e
      | .ok t => .ok ((t.withValue (.call "^" [base.value, t.value])).widen (Nat.le_of_lt hlt))
termination_by 16 * s.length + 3
decreasing_by
  · exact measure_lt_of_le (Nat.le_refl _) (by decide)
  · exact measure_lt (Nat.lt_trans (Taken.shorter _) (Taken.shorter _)) (by decide)

/-- Reads a group, a call, a name or a number, whichever is found first. -/
def atom (s : List Char) : Except Failure (Taken s.length Expr) :=
  have hle := length_skipGaps_le s
  match group (skipGaps s) with
  | .ok t => .ok (t.widen hle)
  | .error _ =>
    match callOrSymbol (skipGaps s) with
    | .ok t => .ok (t.widen hle)
    | .error _ =>
      -- where nothing is found, it is a number that was looked for last
      match takeNumber (skipGaps s) with
      | .ok t => .ok ((t.withValue (.number t.value)).widen hle)
      | .error e => .error e
termination_by 16 * s.length + 2
decreasing_by
  · exact measure_lt_of_le (length_skipGaps_le s) (by decide)
  · exact measure_lt_of_le (length_skipGaps_le s) (by decide)

/-- Reads an expression in parentheses. -/
def group (s : List Char) : Except Failure (Taken s.length Expr) :=
  match takeOpening s with
  | .error e => .error e
  | .ok opening =>
    match tilde opening.rest with
    | .error e => .error e
    | .ok inner =>
      match takePunct [')'] inner.rest with
      | .error e => .error e
      | .ok closing =>
        .ok ⟨inner.value, closing.rest,
          Nat.lt_trans closing.shorter (Nat.lt_trans inner.shorter opening.shorter)⟩
termination_by 16 * s.length + 1
decreasing_by
  · exact measure_lt (Taken.shorter _) (by decide)

/-- Reads a name, and its arguments if a parenthesis follows directly. -/
def callOrSymbol (s : List Char) : Except Failure (Taken s.length Expr) :=
  match takeName s with
  | .error e => .error e
  | .ok name =>
    match takeOpening name.rest with
    | .error _ => .ok (name.withValue (.symbol name.value))
    | .ok opening =>
      have hlt := Nat.lt_trans opening.shorter name.shorter
      match arguments opening.rest with
      | .error e => .error e
      | .ok t => .ok ((t.withValue (.call name.value t.value)).widen (Nat.le_of_lt hlt))
termination_by 16 * s.length + 1
decreasing_by
  · exact measure_lt (Nat.lt_trans (Taken.shorter _) (Taken.shorter _)) (by decide)

/-- Reads the arguments behind an opening parenthesis, up to the closing one. -/
def arguments (s : List Char) : Except Failure (Taken s.length (List Expr)) :=
  match takePunct [')'] s with
  | .ok closing => .ok (closing.withValue [])
  | .error _ => argumentsFrom s
termination_by 16 * s.length + 12
decreasing_by
  · exact measure_lt_of_le (Nat.le_refl _) (by decide)

/-- Reads one argument or more, up to the closing parenthesis. -/
def argumentsFrom (s : List Char) : Except Failure (Taken s.length (List Expr)) :=
  match tilde s with
  | .error e => .error e
  | .ok arg =>
    match takePunct [',', ')'] arg.rest with
    | .error e => .error e
    | .ok separator =>
      have hlt := Nat.lt_trans separator.shorter arg.shorter
      if separator.value = ')' then .ok ⟨[arg.value], separator.rest, hlt⟩
      else
        match argumentsFrom separator.rest with
        | .error e => .error e
        | .ok t => .ok ((t.withValue (arg.value :: t.value)).widen (Nat.le_of_lt hlt))
termination_by 16 * s.length + 11
decreasing_by
  · exact measure_lt_of_le (Nat.le_refl _) (by decide)
  · exact measure_lt (Nat.lt_trans (Taken.shorter _) (Taken.shorter _)) (by decide)

end

/-! ### Whole texts -/

/-- The longest expression at the start of a text. -/
def parsePart (s : List Char) : Except Failure (Taken s.length Expr) := tilde s

end Expr

/-- Why a text is not an expression. -/
inductive ParseFault where
  /-- The text stops being one where something else was looked for. -/
  | expected (what : Expectation)
  /-- An expression is followed by more text. -/
  | trailing (text : String)
  deriving DecidableEq, Repr

/-- Where and why a text is not an expression; the place is counted in bytes. -/
structure ParseError where
  offset : Nat
  fault : ParseFault
  deriving DecidableEq, Repr

/-- What is wrong, in words. -/
def ParseFault.message : ParseFault → String
  | .expected what => "expected " ++ what.words
  | .trailing text => "unexpected `" ++ text ++ "`"

/-- The number of bytes of a text in UTF-8. -/
def byteLength : List Char → Nat
  | [] => 0
  | c :: s => c.utf8Size + byteLength s

namespace Expr

/-- The expression that a whole text is, blanks after it left aside. -/
def parse (input : String) : Except ParseError Expr :=
  let s := input.toList
  match parsePart s with
  | .ok t =>
    match trimStart t.rest with
    | [] => .ok t.value
    | more => .error ⟨byteLength s - byteLength more, .trailing (String.ofList more)⟩
  | .error e => .error ⟨byteLength s - byteLength e.rest, .expected e.expected⟩

end Expr

end ModelFormula
