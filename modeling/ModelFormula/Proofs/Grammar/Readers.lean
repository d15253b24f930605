import ModelFormula.Expr.Parser
import ModelFormula.Proofs.NumberText

/-!
# What the readers read

A reader returns what it read with the rest of the text and the proof that the rest is shorter,
which its recursion needs.  Here each reader is described by an equation on the outcome alone.

* `reading` — what was read and the rest, or nothing;
* `reading_takePunct`, `reading_tilde`, …, `reading_argumentsFrom` — one equation for each reader;
* `Expr.parse_eq_ok_iff` — a text is an expression if one is read and only blanks are left.
-/

set_option autoImplicit false

namespace ModelFormula

/-! ### Outcomes -/

section

variable {n : Nat} {α : Type}

/-- What was read, with the rest of the text. -/
def reading : Except Failure (Taken n α) → Option (α × List Char)
  | .ok t => some (t.value, t.rest)
  | .error _ => none

@[simp] theorem reading_ok (t : Taken n α) : reading (.ok t) = some (t.value, t.rest) := rfl

@[simp] theorem reading_error (e : Failure) :
    reading (.error e : Except Failure (Taken n α)) = none := rfl

/-- What a reader leaves is shorter than what it was given. -/
theorem length_lt_of_reading {r : Except Failure (Taken n α)} {v : α} {rest : List Char}
    (h : reading r = some (v, rest)) : rest.length < n := by
  cases r with
  | error e => simp at h
  | ok t =>
      simp only [reading_ok, Option.some.injEq, Prod.mk.injEq] at h
      rw [← h.2]
      exact t.shorter

end

/-! ### Tokens -/

theorem reading_takePunct_eq_some_iff {set s rest : List Char} {c : Char} :
    reading (takePunct set s) = some (c, rest) ↔ skipGaps s = c :: rest ∧ c ∈ set := by
  constructor
  · intro h
    cases ht : takePunct set s with
    | error e => simp [ht] at h
    | ok t =>
        obtain ⟨hs, hmem⟩ := skipGaps_of_takePunct ht
        simp only [ht, reading_ok, Option.some.injEq, Prod.mk.injEq] at h
        obtain ⟨rfl, rfl⟩ := h
        exact ⟨hs, hmem⟩
  · rintro ⟨hs, hmem⟩
    obtain ⟨t, ht, rfl, rfl⟩ := takePunct_of_skipGaps hs hmem
    rw [ht, reading_ok]

/-- There is no token to take where none of its characters stands behind the gaps. -/
theorem reading_takePunct_eq_none_iff {set s : List Char} :
    reading (takePunct set s) = none ↔ ∀ c rest, skipGaps s = c :: rest → c ∉ set := by
  constructor
  · intro h c rest hs hmem
    rw [reading_takePunct_eq_some_iff.mpr ⟨hs, hmem⟩] at h
    cases h
  · intro h
    cases hr : reading (takePunct set s) with
    | none => rfl
    | some p =>
        obtain ⟨hs, hmem⟩ := reading_takePunct_eq_some_iff.mp hr
        exact absurd hmem (h _ _ hs)

@[simp] theorem reading_takeOpening_cons (rest : List Char) :
    reading (takeOpening ('(' :: rest)) = some ((), rest) := rfl

theorem reading_takeOpening_eq_none {s : List Char} (h : ∀ rest, s ≠ '(' :: rest) :
    reading (takeOpening s) = none := by
  unfold takeOpening
  split
  · exact absurd rfl (h _)
  · rfl

theorem eq_cons_of_reading_takeOpening {s rest : List Char}
    (h : reading (takeOpening s) = some ((), rest)) : s = '(' :: rest := by
  cases ht : takeOpening s with
  | error e => simp [ht] at h
  | ok t =>
      simp only [ht, reading_ok, Option.some.injEq, Prod.mk.injEq] at h
      rw [← h.2]
      exact eq_cons_of_takeOpening ht

theorem reading_takeName_cons {c : Char} {s : List Char} (h : isNameStart c = true) :
    reading (takeName (c :: s)) =
      some (String.ofList (c :: s.takeWhile isNameRest), s.dropWhile isNameRest) := by
  simp [takeName, h]

theorem reading_takeName_eq_none {s : List Char} (h : Stops isNameStart s) :
    reading (takeName s) = none := by
  cases s with
  | nil => rfl
  | cons c t => simp [takeName, h c t rfl]

theorem reading_takeNumber (s : List Char) : reading (takeNumber s) = Numeral.take? s := by
  unfold takeNumber
  split
  · rename_i hs
    exact hs.symm
  · rename_i hs
    exact hs.symm

/-! ### The lines of the grammar -/

namespace Expr

theorem reading_unary (s : List Char) :
    reading (unary s) =
      match reading (takePunct ['-', '$'] s) with
      | none => reading (power s)
      | some (op, r) => (do
        let (e, rest) ← reading (unary r)
        some (if op = '-' then negated e else escape e, rest)) := by
  rw [unary]
  cases takePunct ['-', '$'] s with
  | error e => rfl
  | ok op =>
      dsimp only [reading_ok]
      cases unary op.rest <;> rfl

theorem reading_power (s : List Char) :
    reading (power s) = (do
      let (base, r) ← reading (atom s)
      match reading (takePunct ['^'] r) with
      | none => some (base, r)
      | some (_, r') =>
        let (e, rest) ← reading (unary r')
        some (.call "^" [base, e], rest)) := by
  rw [power]
  cases atom s with
  | error e => rfl
  | ok base =>
      dsimp only [reading_ok, Option.bind_eq_bind, Option.bind_some]
      cases takePunct ['^'] base.rest with
      | error e => rfl
      | ok op =>
          dsimp only [reading_ok]
          cases unary op.rest <;> rfl

theorem reading_atom (s : List Char) :
    reading (atom s) =
      match reading (group (skipGaps s)) with
      | some p => some p
      | none =>
        match reading (callOrSymbol (skipGaps s)) with
        | some p => some p
        | none => (do
          let (x, rest) ← Numeral.take? (skipGaps s)
          some (.number x, rest)) := by
  rw [atom, ← reading_takeNumber]
  cases group (skipGaps s) with
  | ok t => rfl
  | error e =>
      dsimp only [reading_error]
      cases callOrSymbol (skipGaps s) with
      | ok t => rfl
      | error e =>
          dsimp only [reading_error]
          cases takeNumber (skipGaps s) <;> rfl

theorem reading_group (s : List Char) :
    reading (group s) = (do
      let (_, r) ← reading (takeOpening s)
      let (e, r') ← reading (tilde r)
      let (_, rest) ← reading (takePunct [')'] r')
      some (e, rest)) := by
  rw [group]
  cases takeOpening s with
  | error e => rfl
  | ok opening =>
      dsimp only [reading_ok, Option.bind_eq_bind, Option.bind_some]
      cases tilde opening.rest with
      | error e => rfl
      | ok inner =>
          dsimp only [reading_ok, Option.bind_some]
          cases takePunct [')'] inner.rest <;> rfl

theorem reading_callOrSymbol (s : List Char) :
    reading (callOrSymbol s) = (do
      let (name, r) ← reading (takeName s)
      match reading (takeOpening r) with
      | none => some (.symbol name, r)
      | some (_, r') =>
        let (args, rest) ← reading (arguments r')
        some (.call name args, rest)) := by
  rw [callOrSymbol]
  cases takeName s with
  | error e => rfl
  | ok name =>
      dsimp only [reading_ok, Option.bind_eq_bind, Option.bind_some]
      cases takeOpening name.rest with
      | error e => rfl
      | ok opening =>
          dsimp only [reading_ok]
          cases arguments opening.rest <;> rfl

theorem reading_arguments (s : List Char) :
    reading (arguments s) =
      match reading (takePunct [')'] s) with
      | some (_, r) => some ([], r)
      | none => reading (argumentsFrom s) := by
  rw [arguments]
  cases takePunct [')'] s <;> rfl

theorem reading_argumentsFrom (s : List Char) :
    reading (argumentsFrom s) = (do
      let (e, r) ← reading (tilde s)
      let (separator, r') ← reading (takePunct [',', ')'] r)
      if separator = ')' then some ([e], r')
      else
        let (es, rest) ← reading (argumentsFrom r')
        some (e :: es, rest)) := by
  rw [argumentsFrom]
  cases tilde s with
  | error e => rfl
  | ok arg =>
      dsimp only [reading_ok, Option.bind_eq_bind, Option.bind_some]
      cases takePunct [',', ')'] arg.rest with
      | error e => rfl
      | ok separator =>
          dsimp only [reading_ok, Option.bind_some]
          by_cases h : separator.value = ')'
          · rw [if_pos h, if_pos h]
            rfl
          · rw [if_neg h, if_neg h]
            cases argumentsFrom separator.rest <;> rfl

theorem reading_operandOf (level : Level) (s : List Char) :
    reading (operandOf level s) =
      match level with
      | .sum => reading (chain .product s)
      | .product => reading (unary s) := by
  cases level with
  | sum => rw [operandOf]
  | product => rw [operandOf]

theorem reading_chain (level : Level) (s : List Char) :
    reading (chain level s) = (do
      let (first, r) ← reading (operandOf level s)
      reading (chainFrom level first none r)) := by
  rw [chain]
  cases operandOf level s with
  | error e => rfl
  | ok first =>
      dsimp only [reading_ok, Option.bind_eq_bind, Option.bind_some]
      cases chainFrom level first.value none first.rest <;> rfl

theorem reading_chainFrom (level : Level) (acc : Expr) (previous : Option Char)
    (s : List Char) :
    reading (chainFrom level acc previous s) =
      match reading (takePunct level.operators s) with
      | none => some (acc, s)
      | some (op, r) => (do
        let (e, r') ← reading (operandOf level r)
        let goesOn := op == level.collapsing && previous == some level.collapsing
        reading (chainFrom level (extended acc op e goesOn) (some op) r')) := by
  rw [chainFrom]
  cases takePunct level.operators s with
  | error e => rfl
  | ok op =>
      dsimp only [reading_ok, Option.bind_eq_bind, Option.bind_some]
      cases operandOf level op.rest with
      | error e => rfl
      | ok rhs =>
          dsimp only [reading_ok, Option.bind_some]
          cases chainFrom level _ (some op.value) rhs.rest <;> rfl

theorem reading_sides (s : List Char) :
    reading (sides s) = (do
      let (e, r) ← reading (chain .sum s)
      match reading (takePunct ['~'] r) with
      | none => some ([e], r)
      | some (_, r') =>
        let (es, rest) ← reading (sides r')
        some (e :: es, rest)) := by
  rw [sides]
  cases chain .sum s with
  | error e => rfl
  | ok side =>
      dsimp only [reading_ok, Option.bind_eq_bind, Option.bind_some]
      cases takePunct ['~'] side.rest with
      | error e => rfl
      | ok t =>
          dsimp only [reading_ok]
          cases sides t.rest <;> rfl

theorem reading_tilde (s : List Char) :
    reading (tilde s) =
      match reading (takePunct ['~'] s) with
      | some (_, r) => do
        let (es, rest) ← reading (sides r)
        some (.call "~" (.absent :: es), rest)
      | none => (do
        let (e, r) ← reading (chain .sum s)
        match reading (takePunct ['~'] r) with
        | none => some (e, r)
        | some (_, r') =>
          let (es, rest) ← reading (sides r')
          some (.call "~" (e :: es), rest)) := by
  rw [tilde]
  cases takePunct ['~'] s with
  | ok t =>
      dsimp only [reading_ok]
      cases sides t.rest <;> rfl
  | error e =>
      dsimp only [reading_error]
      cases chain .sum s with
      | error e => rfl
      | ok lhs =>
          dsimp only [reading_ok, Option.bind_eq_bind, Option.bind_some]
          cases takePunct ['~'] lhs.rest with
          | error e => rfl
          | ok t =>
              dsimp only [reading_ok]
              cases sides t.rest <;> rfl

/-! ### Whole texts -/

theorem trimStart_eq_nil_iff {s : List Char} :
    trimStart s = [] ↔ ∀ c ∈ s, isBlank c = true := by
  induction s with
  | nil => simp
  | cons c s ih => by_cases hc : isBlank c = true <;> simp [trimStart_cons, hc, ih]

/-- A text is an expression if one is read at its start and only blanks are left. -/
theorem parse_eq_ok_iff {input : String} {e : Expr} :
    parse input = .ok e ↔
      ∃ rest, reading (tilde input.toList) = some (e, rest) ∧ ∀ c ∈ rest, isBlank c = true := by
  simp only [parse, parsePart]
  cases tilde input.toList with
  | error err => simp
  | ok t =>
      dsimp only [reading_ok]
      cases hrest : trimStart t.rest with
      | nil =>
          have hblank := trimStart_eq_nil_iff.mp hrest
          constructor
          · intro h
            cases h
            exact ⟨_, rfl, hblank⟩
          · rintro ⟨rest, h, _⟩
            cases h
            rfl
      | cons c more =>
          constructor
          · intro h
            cases h
          · rintro ⟨rest, h, hblank⟩
            cases h
            rw [trimStart_eq_nil_iff.mpr hblank] at hrest
            cases hrest

end Expr

end ModelFormula
