import ModelFormula.Expr.Printer
import ModelFormula.Proofs.Grammar.Remainders

/-!
# The readers make progress

Every reader takes a character or more off the front of a text.  The grammar goes round in circles:
its loops go on behind an operator or a comma, and it comes back to its first line in parentheses
and to a sign behind a sign or a caret.  Each time round a character has been read, so that there
are no more rounds than characters.

To count the rounds, the readers are written down once more, with those that are called in the next
round as a parameter.  Nothing in a round calls itself, and where no further round is allowed, there
is no outcome.

* `Behind` — what is left of a text behind a character or more, and `Advances` for a reader
  that leaves no more than that;
* `Readers`, `Readers.round` — the readers that are called behind a character, and one round of the
  grammar, given what they do in the next;
* `Readers.rightAt_round` — **a round needs the next only behind a character that it has read**;
* `Readers.rightAt_within` — there are enough rounds if they are more than the characters;
* `Expr.advances_and_ends` — **every reader makes progress, and parsing ends.**
-/

set_option autoImplicit false

namespace ModelFormula

/-! ### Behind a character -/

/-- What is left of a text behind a character or more. -/
def Behind (s t : List Char) : Prop := ∃ w, w ≠ [] ∧ s = w ++ t

section

variable {s t u : List Char}

theorem Behind.trans (hst : Behind s t) (htu : Behind t u) : Behind s u := by
  obtain ⟨w, hw, rfl⟩ := hst
  obtain ⟨x, -, rfl⟩ := htu
  exact ⟨w ++ x, by simp [hw], (List.append_assoc ..).symm⟩

theorem Behind.length_lt (h : Behind s t) : t.length < s.length := by
  obtain ⟨w, hw, rfl⟩ := h
  have hpos := List.length_pos_iff.mpr hw
  rw [List.length_append]
  omega

theorem behind_of_suffix (h : t <:+ s) (hlt : t.length < s.length) : Behind s t := by
  obtain ⟨w, rfl⟩ := h
  refine ⟨w, ?_, rfl⟩
  rintro rfl
  exact absurd hlt (Nat.lt_irrefl _)

/-- What is behind a character of the text behind the gaps is behind one of the text. -/
theorem Behind.of_skipGaps (h : Behind (skipGaps s) t) : Behind s t := by
  obtain ⟨gaps, hgaps⟩ : skipGaps s <:+ s := List.dropWhile_suffix isGap
  obtain ⟨w, hw, ht⟩ := h
  exact ⟨gaps ++ w, by simp [hw], by rw [List.append_assoc, ← ht, hgaps]⟩

end

/-- What a reader leaves of a text, if it reads anything, is behind a character or more. -/
def Advances {n : Nat} {α : Type} (s : List Char) (out : Except Failure (Taken n α)) : Prop :=
  ∀ v rest, reading out = some (v, rest) → Behind s rest

section

variable {α : Type} {s : List Char} {out : Except Failure (Taken s.length α)}

theorem Leaves.advances (h : Leaves s (reading out)) : Advances s out :=
  fun v rest hread => behind_of_suffix (h v rest hread) (length_lt_of_reading hread)

theorem Advances.behind (h : Advances s out) {t : Taken s.length α} (hout : out = .ok t) :
    Behind s t.rest :=
  h t.value t.rest (by rw [hout, reading_ok])

end

theorem advances_takePunct (set s : List Char) : Advances s (takePunct set s) :=
  (leaves_takePunct set s).advances

theorem advances_takeOpening (s : List Char) : Advances s (takeOpening s) :=
  (leaves_takeOpening s).advances

theorem advances_takeName (s : List Char) : Advances s (takeName s) := (leaves_takeName s).advances

namespace Expr

theorem advances_group (s : List Char) : Advances s (group s) :=
  (leaves_group fun t _ => ending_all t).advances

theorem advances_atom (s : List Char) : Advances s (atom s) :=
  (leaves_atom fun t _ => ending_all t).advances

theorem advances_power (s : List Char) : Advances s (power s) :=
  (leaves_power fun t _ => ending_all t).advances

theorem advances_unary (s : List Char) : Advances s (unary s) := (ending_all s).unary.advances

theorem advances_operandOf (level : Level) (s : List Char) : Advances s (operandOf level s) :=
  ((ending_all s).operand level).advances

theorem advances_chain (level : Level) (s : List Char) : Advances s (chain level s) :=
  (leaves_chain (fun t _ => ending_all t) ((ending_all s).operand level)).advances

theorem advances_tilde (s : List Char) : Advances s (tilde s) := (ending_all s).tilde.advances

theorem advances_arguments (s : List Char) : Advances s (arguments s) := by
  refine Leaves.advances ?_
  rw [reading_arguments]
  split
  · rename_i c rest hclose
    exact leaves_some (leaves_takePunct _ _ _ _ hclose)
  · exact (ending_all s).arguments

end Expr

/-! ### Readings that may run out -/

/-- What a reader comes to when the number of rounds is bounded: nothing if a further one is
needed. -/
abbrev Bounded (α : Type) : Type := Option (Except Failure (α × List Char))

namespace Bounded

variable {α β : Type} {n : Nat}

/-- Something is read, and the rest is left. -/
def done (v : α) (rest : List Char) : Bounded α := some (.ok (v, rest))

/-- A reader fails. -/
def failed (e : Failure) : Bounded α := some (.error e)

/-- What a reader comes to without a bound. -/
def finished : Except Failure (Taken n α) → Bounded α
  | .ok t => done t.value t.rest
  | .error e => failed e

/-- Goes on with what was read. -/
def andThen (r : Bounded α) (f : α → List Char → Bounded β) : Bounded β :=
  match r with
  | some (.ok (v, rest)) => f v rest
  | some (.error e) => failed e
  | none => none

/-- Tries another reader where the first one fails, but not where it runs out. -/
def orElse (r other : Bounded α) : Bounded α :=
  match r with
  | some (.error _) => other
  | r => r

@[simp] theorem andThen_done (v : α) (rest : List Char) (f : α → List Char → Bounded β) :
    (done v rest).andThen f = f v rest := rfl

@[simp] theorem finished_ok (t : Taken n α) : finished (.ok t) = done t.value t.rest := rfl

end Bounded

open Bounded

/-! ### Rounds -/

/-- The readers that others call behind a character they have read. -/
structure Readers where
  tilde : List Char → Bounded Expr
  sides : List Char → Bounded (List Expr)
  operand : Level → List Char → Bounded Expr
  steps : Level → Expr → Option Char → List Char → Bounded Expr
  unary : List Char → Bounded Expr
  arguments : List Char → Bounded (List Expr)

namespace Round

variable (R : Readers)

/-- An expression in parentheses. -/
def group (s : List Char) : Bounded Expr :=
  (finished (takeOpening s)).andThen fun _ r =>
    (R.tilde r).andThen fun e r' =>
      (finished (takePunct [')'] r')).andThen fun _ rest => done e rest

/-- The arguments behind an opening parenthesis, up to the closing one. -/
def arguments (s : List Char) : Bounded (List Expr) :=
  match takePunct [')'] s with
  | .ok closing => done [] closing.rest
  | .error _ => R.arguments s

/-- A name, and its arguments if a parenthesis follows directly. -/
def callOrSymbol (s : List Char) : Bounded Expr :=
  (finished (takeName s)).andThen fun name r =>
    match takeOpening r with
    | .error _ => done (.symbol name) r
    | .ok opening => (arguments R opening.rest).andThen fun args rest => done (.call name args) rest

/-- A group, a call, a name or a number, whichever is found first. -/
def atom (s : List Char) : Bounded Expr :=
  (group R (skipGaps s)).orElse <| (callOrSymbol R (skipGaps s)).orElse <|
    (finished (takeNumber (skipGaps s))).andThen fun x rest => done (.number x) rest

/-- An atom and its exponent, if it has one. -/
def power (s : List Char) : Bounded Expr :=
  (atom R s).andThen fun base r =>
    match takePunct ['^'] r with
    | .error _ => done base r
    | .ok op => (R.unary op.rest).andThen fun e rest => done (.call "^" [base, e]) rest

/-- An operand behind any number of `-` and `$`. -/
def unary (s : List Char) : Bounded Expr :=
  match takePunct ['-', '$'] s with
  | .error _ => power R s
  | .ok op => (R.unary op.rest).andThen fun e rest =>
      done (if op.value = '-' then e.negated else e.escape) rest

/-- The further operands of a chain. -/
def steps (level : Level) (acc : Expr) (previous : Option Char) (s : List Char) : Bounded Expr :=
  match takePunct level.operators s with
  | .error _ => done acc s
  | .ok op => (R.operand level op.rest).andThen fun e r =>
      let goesOn := op.value == level.collapsing && previous == some level.collapsing
      R.steps level (acc.extended op.value e goesOn) (some op.value) r

/-- A chain whose first operand is read in this round. -/
def chain (level : Level) (first : Bounded Expr) : Bounded Expr :=
  first.andThen fun e r => R.steps level e none r

/-- One operand of a chain. -/
def operand (level : Level) (s : List Char) : Bounded Expr :=
  match level with
  | .sum => chain R .product (unary R s)
  | .product => unary R s

/-- Sums with `~` between each two. -/
def sides (s : List Char) : Bounded (List Expr) :=
  (chain R .sum (operand R .sum s)).andThen fun e r =>
    match takePunct ['~'] r with
    | .error _ => done [e] r
    | .ok t => (R.sides t.rest).andThen fun es rest => done (e :: es) rest

/-- An expression: sums with `~` between each two, or before the first. -/
def tilde (s : List Char) : Bounded Expr :=
  match takePunct ['~'] s with
  | .ok t => (R.sides t.rest).andThen fun es rest => done (.call "~" (.absent :: es)) rest
  | .error _ =>
    (chain R .sum (operand R .sum s)).andThen fun e r =>
      match takePunct ['~'] r with
      | .error _ => done e r
      | .ok t => (R.sides t.rest).andThen fun es rest => done (.call "~" (e :: es)) rest

/-- One argument or more, up to the closing parenthesis. -/
def argumentsFrom (s : List Char) : Bounded (List Expr) :=
  (tilde R s).andThen fun e r =>
    (finished (takePunct [',', ')'] r)).andThen fun separator r' =>
      if separator = ')' then done [e] r'
      else (R.arguments r').andThen fun es rest => done (e :: es) rest

end Round

namespace Readers

/-- One round of the grammar, given what its readers do in the next. -/
def round (R : Readers) : Readers where
  tilde := Round.tilde R
  sides := Round.sides R
  operand := Round.operand R
  steps := Round.steps R
  unary := Round.unary R
  arguments := Round.argumentsFrom R

/-- No round is allowed. -/
def exhausted : Readers where
  tilde _ := none
  sides _ := none
  operand _ _ := none
  steps _ _ _ _ := none
  unary _ := none
  arguments _ := none

/-- A number of rounds. -/
def within : Nat → Readers
  | 0 => exhausted
  | n + 1 => (within n).round

/-- At a text, readers come to what they come to without a bound. -/
structure RightAt (R : Readers) (s : List Char) : Prop where
  tilde : R.tilde s = finished (Expr.tilde s)
  sides : R.sides s = finished (Expr.sides s)
  operand : ∀ level, R.operand level s = finished (Expr.operandOf level s)
  steps : ∀ level acc previous,
    R.steps level acc previous s = finished (Expr.chainFrom level acc previous s)
  unary : R.unary s = finished (Expr.unary s)
  arguments : R.arguments s = finished (Expr.argumentsFrom s)

/-- Behind every character of a text, readers come to what they come to without a bound. -/
def RightBehind (R : Readers) (s : List Char) : Prop := ∀ t, Behind s t → R.RightAt t

/-! ### What a round needs of the next -/

section

variable {R : Readers} {s : List Char}

theorem group_eq (h : R.RightBehind s) : Round.group R s = finished (Expr.group s) := by
  rw [Round.group, Expr.group]
  cases hopen : takeOpening s with
  | error e => rfl
  | ok opening =>
      have hr := (advances_takeOpening s).behind hopen
      simp only [finished_ok, andThen_done, (h _ hr).tilde]
      cases Expr.tilde opening.rest with
      | error e => rfl
      | ok inner =>
          simp only [finished_ok, andThen_done]
          cases takePunct [')'] inner.rest <;> rfl

theorem arguments_eq (h : R.RightAt s) : Round.arguments R s = finished (Expr.arguments s) := by
  rw [Round.arguments, Expr.arguments]
  cases takePunct [')'] s with
  | ok closing => rfl
  | error e => exact h.arguments

theorem callOrSymbol_eq (h : R.RightBehind s) :
    Round.callOrSymbol R s = finished (Expr.callOrSymbol s) := by
  rw [Round.callOrSymbol, Expr.callOrSymbol]
  cases hname : takeName s with
  | error e => rfl
  | ok name =>
      have hr := (advances_takeName s).behind hname
      simp only [finished_ok, andThen_done]
      cases hopen : takeOpening name.rest with
      | error e => rfl
      | ok opening =>
          have hr' := (advances_takeOpening _).behind hopen
          simp only [arguments_eq (h _ (hr.trans hr'))]
          cases Expr.arguments opening.rest <;> rfl

theorem atom_eq (h : R.RightBehind s) : Round.atom R s = finished (Expr.atom s) := by
  have hbehind : R.RightBehind (skipGaps s) := fun t ht => h t ht.of_skipGaps
  rw [Round.atom, Expr.atom, group_eq hbehind, callOrSymbol_eq hbehind]
  cases Expr.group (skipGaps s) with
  | ok t => rfl
  | error e =>
      cases Expr.callOrSymbol (skipGaps s) with
      | ok t => rfl
      | error e => cases takeNumber (skipGaps s) <;> rfl

theorem power_eq (h : R.RightBehind s) : Round.power R s = finished (Expr.power s) := by
  rw [Round.power, Expr.power, atom_eq h]
  cases hbase : Expr.atom s with
  | error e => rfl
  | ok base =>
      have hr := (Expr.advances_atom s).behind hbase
      simp only [finished_ok, andThen_done]
      cases hop : takePunct ['^'] base.rest with
      | error e => rfl
      | ok op =>
          have hr' := (advances_takePunct _ _).behind hop
          simp only [(h _ (hr.trans hr')).unary]
          cases Expr.unary op.rest <;> rfl

theorem unary_eq (h : R.RightBehind s) : Round.unary R s = finished (Expr.unary s) := by
  rw [Round.unary, Expr.unary]
  cases hop : takePunct ['-', '$'] s with
  | error e => exact power_eq h
  | ok op =>
      simp only [(h _ ((advances_takePunct _ _).behind hop)).unary]
      cases Expr.unary op.rest <;> rfl

theorem steps_eq (h : R.RightBehind s) (level : Level) (acc : Expr)
    (previous : Option Char) :
    Round.steps R level acc previous s = finished (Expr.chainFrom level acc previous s) := by
  rw [Round.steps, Expr.chainFrom]
  cases hop : takePunct level.operators s with
  | error e => rfl
  | ok op =>
      have hr := (advances_takePunct _ _).behind hop
      simp only [(h _ hr).operand]
      cases hrhs : Expr.operandOf level op.rest with
      | error e => rfl
      | ok rhs =>
          have hr' := (Expr.advances_operandOf level _).behind hrhs
          simp only [finished_ok, andThen_done, (h _ (hr.trans hr')).steps]
          cases Expr.chainFrom level _ (some op.value) rhs.rest <;> rfl

/-- A chain is right if its first operand is, for its steps stand behind that. -/
theorem chain_eq (h : R.RightBehind s) {level : Level} {first : Bounded Expr}
    (hfirst : first = finished (Expr.operandOf level s)) :
    Round.chain R level first = finished (Expr.chain level s) := by
  rw [Round.chain, Expr.chain, hfirst]
  cases hoperand : Expr.operandOf level s with
  | error e => rfl
  | ok first =>
      have hr := (Expr.advances_operandOf level s).behind hoperand
      simp only [finished_ok, andThen_done, (h _ hr).steps]
      cases Expr.chainFrom level first.value none first.rest <;> rfl

theorem operand_eq (h : R.RightBehind s) (level : Level) :
    Round.operand R level s = finished (Expr.operandOf level s) := by
  have hproduct : Round.unary R s = finished (Expr.operandOf .product s) := by
    rw [Expr.operandOf]
    exact unary_eq h
  cases level with
  | product => exact hproduct
  | sum =>
      rw [Expr.operandOf]
      exact chain_eq h hproduct

theorem sum_eq (h : R.RightBehind s) :
    Round.chain R .sum (Round.operand R .sum s) = finished (Expr.chain .sum s) :=
  chain_eq h (operand_eq h .sum)

theorem sides_eq (h : R.RightBehind s) : Round.sides R s = finished (Expr.sides s) := by
  rw [Round.sides, Expr.sides, sum_eq h]
  cases hside : Expr.chain .sum s with
  | error e => rfl
  | ok side =>
      have hr := (Expr.advances_chain .sum s).behind hside
      simp only [finished_ok, andThen_done]
      cases hop : takePunct ['~'] side.rest with
      | error e => rfl
      | ok t =>
          have hr' := (advances_takePunct _ _).behind hop
          simp only [(h _ (hr.trans hr')).sides]
          cases Expr.sides t.rest <;> rfl

theorem tilde_eq (h : R.RightBehind s) : Round.tilde R s = finished (Expr.tilde s) := by
  rw [Round.tilde, Expr.tilde, sum_eq h]
  cases hleading : takePunct ['~'] s with
  | ok t =>
      simp only [(h _ ((advances_takePunct _ _).behind hleading)).sides]
      cases Expr.sides t.rest <;> rfl
  | error e =>
      cases hlhs : Expr.chain .sum s with
      | error e => rfl
      | ok lhs =>
          have hr := (Expr.advances_chain .sum s).behind hlhs
          simp only [finished_ok, andThen_done]
          cases hop : takePunct ['~'] lhs.rest with
          | error e => rfl
          | ok t =>
              have hr' := (advances_takePunct _ _).behind hop
              simp only [(h _ (hr.trans hr')).sides]
              cases Expr.sides t.rest <;> rfl

theorem argumentsFrom_eq (h : R.RightBehind s) :
    Round.argumentsFrom R s = finished (Expr.argumentsFrom s) := by
  rw [Round.argumentsFrom, Expr.argumentsFrom, tilde_eq h]
  cases harg : Expr.tilde s with
  | error e => rfl
  | ok arg =>
      have hr := (Expr.advances_tilde s).behind harg
      simp only [finished_ok, andThen_done]
      cases hseparator : takePunct [',', ')'] arg.rest with
      | error e => rfl
      | ok separator =>
          have hr' := (advances_takePunct _ _).behind hseparator
          simp only [finished_ok, andThen_done, (h _ (hr.trans hr')).arguments]
          by_cases hclose : separator.value = ')'
          · rw [if_pos hclose, if_pos hclose]
            rfl
          · rw [if_neg hclose, if_neg hclose]
            cases Expr.argumentsFrom separator.rest <;> rfl

/-- **A round needs the next only behind a character that it has read.** -/
theorem rightAt_round (h : R.RightBehind s) : R.round.RightAt s where
  tilde := tilde_eq h
  sides := sides_eq h
  operand := operand_eq h
  steps := steps_eq h
  unary := unary_eq h
  arguments := argumentsFrom_eq h

end

/-- Rounds that are more than the characters of a text are enough. -/
theorem rightAt_within (n : Nat) : ∀ s : List Char, s.length < n → (within n).RightAt s := by
  induction n with
  | zero =>
      intro s hs
      exact absurd hs (Nat.not_lt_zero _)
  | succ n ih =>
      intro s hs
      refine rightAt_round fun t ht => ih t ?_
      have hlt := ht.length_lt
      omega

end Readers

/-! ### Whole texts -/

namespace Expr

/-- The expression that a whole text is, read in a number of rounds. -/
def parseWithin (n : Nat) (input : String) : Option (Except ParseError Expr) :=
  let s := input.toList
  match (Readers.within n).tilde s with
  | none => none
  | some (.ok (e, rest)) =>
    match trimStart rest with
    | [] => some (.ok e)
    | more =>
      some (.error ⟨byteLength s - byteLength more, .trailing (String.ofList more)⟩)
  | some (.error e) => some (.error ⟨byteLength s - byteLength e.rest, .expected e.expected⟩)

theorem parseWithin_eq {n : Nat} {input : String}
    (h : (Readers.within n).RightAt input.toList) : parseWithin n input = some (parse input) := by
  simp only [parseWithin, parse, parsePart, h.tilde]
  cases tilde input.toList with
  | error e => rfl
  | ok t =>
      simp only [finished_ok, done]
      cases trimStart t.rest <;> rfl

/-- **Every reader makes progress, and parsing ends.**  What an atom, a power, a unary expression, a
sum, a product, an expression, the arguments of a call or a group leaves of a text is what stands
behind a character or more.  Once round the grammar, along a loop or through parentheses, signs and
exponents, the readers go on only behind a character that was read; so there are enough rounds for
every text, an expression or not, if they are more than its characters. -/
theorem advances_and_ends (s : List Char) :
    (Advances s (atom s) ∧ Advances s (power s) ∧ Advances s (unary s) ∧
      (∀ level, Advances s (chain level s)) ∧ Advances s (tilde s) ∧ Advances s (arguments s) ∧
      Advances s (group s)) ∧
    (∀ R : Readers, R.RightBehind s → R.round.RightAt s) ∧
    ∀ n, s.length < n → (Readers.within n).RightAt s ∧
      parseWithin n (String.ofList s) = some (parse (String.ofList s)) := by
  refine ⟨⟨advances_atom s, advances_power s, advances_unary s, fun level => advances_chain level s,
    advances_tilde s, advances_arguments s, advances_group s⟩, ?_, ?_⟩
  · intro R h
    exact Readers.rightAt_round h
  · intro n hn
    have hright := Readers.rightAt_within n s hn
    refine ⟨hright, parseWithin_eq ?_⟩
    rwa [String.toList_ofList]

/-- Nineteen rounds are enough for the eighteen characters of `f(a, -(b ^ 2)) ~ c`, and twelve for
the eleven of `f(a, -(b ^ `, which is no expression. -/
theorem advances_and_ends_nested :
    (Readers.within 18).round.RightAt "f(a, -(b ^ 2)) ~ c".toList ∧
      (parseWithin 19 "f(a, -(b ^ 2)) ~ c").map (fun r => r.toOption.map text) =
        some (some "f(a, -(b ^ 2)) ~ c") ∧
      (parseWithin 12 "f(a, -(b ^ ").map (fun r => r.toOption.map text) = some none := by
  obtain ⟨-, hround, hends⟩ := advances_and_ends "f(a, -(b ^ 2)) ~ c".toList
  obtain ⟨-, -, hends'⟩ := advances_and_ends "f(a, -(b ^ ".toList
  have hwhole := (hends 19 (by decide)).2
  have hcut := (hends' 12 (by decide)).2
  rw [String.ofList_toList] at hwhole hcut
  refine ⟨?_, ?_, ?_⟩
  · refine hround (Readers.within 18) fun t ht => Readers.rightAt_within 18 t ?_
    exact ht.length_lt
  · rw [hwhole]
    decide +kernel
  · rw [hcut]
    decide +kernel

end Expr

end ModelFormula
