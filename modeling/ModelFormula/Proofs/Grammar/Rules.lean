import ModelFormula.Expr.Parser
import ModelFormula.Proofs.NumberText

/-!
# The grammar of expressions

The grammar as a relation between a text, the tree of an expression at its start, and the rest of
the text.  Nothing in it is greedy: where a rule offers a choice, every choice is a derivation.

    tilde    ::= sum | sum sides | sides            sides ::= (~ sum)+
    sum      ::= product ((+ | -) product)*
    product  ::= unary ((* | / | &) unary)*
    unary    ::= - unary | $ unary | power
    power    ::= atom | atom ^ unary
    atom     ::= ( tilde ) | name ( ) | name ( arguments | name | number
    arguments ::= tilde ) | tilde , arguments

* `Grammar.Punct`, `Grammar.Name`, `Grammar.Number` — the tokens;
* `Grammar.chainTree` — the tree of a chain of operands, which grows as it does in a reader
  (`Grammar.grown_cons`);
* `Grammar.Tilde` — the rules, one relation for each line;
* `Grammar.Derives` — a whole text, blanks after the expression left aside.

Gaps may stand before every token but the parenthesis after the name of a call.  A number is the
longest numeral at its place; a name is looked for before a number, and a minus is an operator
before it is a sign, or else `-2 ^ 2` would have two trees.
-/

set_option autoImplicit false

namespace ModelFormula

namespace Grammar

/-! ### Tokens -/

/-- A text without some of the gaps at its start. -/
def Gap (s t : List Char) : Prop := ∃ gaps, (∀ c ∈ gaps, isGap c = true) ∧ s = gaps ++ t

theorem gap_refl (s : List Char) : Gap s s := ⟨[], by simp, rfl⟩

/-- The character `c` behind gaps, if there are any. -/
def Punct (c : Char) (s rest : List Char) : Prop := Gap s (c :: rest)

/-- A letter or an underscore, and then letters, digits, underscores and points. -/
def Name (s : List Char) (name : String) (rest : List Char) : Prop :=
  ∃ c cs, s = c :: cs ++ rest ∧ name = String.ofList (c :: cs) ∧ isNameStart c = true ∧
    ∀ d ∈ cs, isNameRest d = true

/-- The longest numeral at its place, where neither a name nor a minus stands. -/
def Number (s : List Char) (x : Float) (rest : List Char) : Prop :=
  Numeral.take? s = some (x, rest) ∧ Stops (fun c => isNameStart c || c == '-') s

/-! ### Chains -/

/-- A call with one more argument. -/
def withArgument : Expr → Expr → Expr
  | .call f args, e => .call f (args ++ [e])
  | acc, _ => acc

/-- The tree that further operands, each with the operator before it, make of the one so far: an
operator of a run adds an argument, any other makes a call of two. -/
def grown (level : Level) : Expr → Option Char → List (Char × Expr) → Expr
  | acc, _, [] => acc
  | acc, previous, (op, e) :: steps =>
    if op = level.collapsing ∧ previous = some op then
      grown level (withArgument acc e) (some op) steps
    else grown level (.call op.toString [acc, e]) (some op) steps

/-- The tree of a chain of operands. -/
def chainTree (level : Level) (first : Expr) (steps : List (Char × Expr)) : Expr :=
  grown level first none steps

theorem isCall_extended (acc : Expr) (op : Char) (e : Expr) (goesOn : Bool) :
    (acc.extended op e goesOn).isCall = true := by
  unfold Expr.extended
  split <;> rfl

/-- A further operand extends the tree so far; only a call can have an operator before it. -/
theorem grown_cons {level : Level} {acc : Expr} {previous : Option Char} {op : Char} {e : Expr}
    {steps : List (Char × Expr)} (h : previous ≠ none → acc.isCall = true) :
    grown level acc previous ((op, e) :: steps) =
      grown level (acc.extended op e (op == level.collapsing && previous == some level.collapsing))
        (some op) steps := by
  rw [grown]
  -- the reader compares with the operator of a run in two steps, the rule in one
  by_cases hrun : op = level.collapsing ∧ previous = some op
  · obtain ⟨rfl, rfl⟩ := hrun
    have hcall := h (by simp)
    cases acc with
    | call f args => simp [Expr.extended, withArgument]
    | symbol name => cases hcall
    | number x => cases hcall
    | absent => cases hcall
  · have hends : (op == level.collapsing && previous == some level.collapsing) = false := by
      rw [Bool.and_eq_false_imp]
      intro hop
      rw [beq_iff_eq] at hop
      subst hop
      exact beq_eq_false_iff_ne.mpr fun hprevious => hrun ⟨rfl, hprevious⟩
    rw [if_neg hrun, hends]
    cases acc <;> rfl

/-! ### Rules -/

mutual

/-- Sums with `~` between each two, or before the first. -/
inductive Tilde : List Char → Expr → List Char → Prop
  | sum {s rest : List Char} {e : Expr} : Chain .sum s e rest → Tilde s e rest
  | between {s r rest : List Char} {e : Expr} {es : List Expr} :
      Chain .sum s e r → Sides r es rest → Tilde s (.call "~" (e :: es)) rest
  | leading {s rest : List Char} {es : List Expr} :
      Sides s es rest → Tilde s (.call "~" (.absent :: es)) rest

/-- One sum or more, each behind a `~`. -/
inductive Sides : List Char → List Expr → List Char → Prop
  | last {s r rest : List Char} {e : Expr} :
      Punct '~' s r → Chain .sum r e rest → Sides s [e] rest
  | cons {s r r' rest : List Char} {e : Expr} {es : List Expr} :
      Punct '~' s r → Chain .sum r e r' → Sides r' es rest → Sides s (e :: es) rest

/-- A sum or a product: an operand and the steps of a chain. -/
inductive Chain : Level → List Char → Expr → List Char → Prop
  | mk {level : Level} {s r rest : List Char} {e : Expr} {steps : List (Char × Expr)} :
      Operand level s e r → Steps level r steps rest → Chain level s (chainTree level e steps) rest

/-- Operands, each behind an operator of the level. -/
inductive Steps : Level → List Char → List (Char × Expr) → List Char → Prop
  | nil {level : Level} {s : List Char} : Steps level s [] s
  | cons {level : Level} {s r r' rest : List Char} {op : Char} {e : Expr}
      {steps : List (Char × Expr)} :
      op ∈ level.operators → Punct op s r → Operand level r e r' → Steps level r' steps rest →
      Steps level s ((op, e) :: steps) rest

/-- An operand of a chain: a sum is made of products, a product of unary expressions. -/
inductive Operand : Level → List Char → Expr → List Char → Prop
  | product {s rest : List Char} {e : Expr} : Chain .product s e rest → Operand .sum s e rest
  | unary {s rest : List Char} {e : Expr} : Unary s e rest → Operand .product s e rest

/-- An operand behind any number of `-` and `$`. -/
inductive Unary : List Char → Expr → List Char → Prop
  | minus {s r rest : List Char} {e : Expr} :
      Punct '-' s r → Unary r e rest → Unary s e.negated rest
  | escape {s r rest : List Char} {e : Expr} :
      Punct '$' s r → Unary r e rest → Unary s e.escape rest
  | power {s rest : List Char} {e : Expr} : Power s e rest → Unary s e rest

/-- An atom and its exponent, if it has one. -/
inductive Power : List Char → Expr → List Char → Prop
  | atom {s rest : List Char} {e : Expr} : Atom s e rest → Power s e rest
  | raised {s r r' rest : List Char} {e f : Expr} :
      Atom s e r → Punct '^' r r' → Unary r' f rest → Power s (.call "^" [e, f]) rest

/-- A group, a call, a name or a number. -/
inductive Atom : List Char → Expr → List Char → Prop
  | group {s r r' rest : List Char} {e : Expr} :
      Punct '(' s r → Tilde r e r' → Punct ')' r' rest → Atom s e rest
  | constant {s t r rest : List Char} {name : String} :
      Gap s t → Name t name ('(' :: r) → Punct ')' r rest → Atom s (.call name []) rest
  | call {s t r rest : List Char} {name : String} {args : List Expr} :
      Gap s t → Name t name ('(' :: r) → Arguments r args rest → Atom s (.call name args) rest
  | symbol {s t rest : List Char} {name : String} :
      Gap s t → Name t name rest → Atom s (.symbol name) rest
  | number {s t rest : List Char} {x : Float} :
      Gap s t → Number t x rest → Atom s (.number x) rest

/-- One argument or more, up to the closing parenthesis. -/
inductive Arguments : List Char → List Expr → List Char → Prop
  | last {s r rest : List Char} {e : Expr} :
      Tilde s e r → Punct ')' r rest → Arguments s [e] rest
  | cons {s r r' rest : List Char} {e : Expr} {es : List Expr} :
      Tilde s e r → Punct ',' r r' → Arguments r' es rest → Arguments s (e :: es) rest

end

/-- A whole text is an expression with any blanks after it. -/
def Derives (input : String) (e : Expr) : Prop :=
  ∃ rest, Tilde input.toList e rest ∧ ∀ c ∈ rest, isBlank c = true

end Grammar

end ModelFormula
