import ModelFormula.Decimal.Numeral
import ModelFormula.Expr.Basic
import ModelFormula.Text.Blank

/-!
# Tokens of an expression

A token is read off the front of a text.  What is left is shorter than the text was, which is what
the recursion of the grammar goes down on.

* `Taken` — what is read, with the rest, **which is shorter**;
* `Failure` — what was looked for, and the text where it was not found;
* `takePunct`, `takeOpening`, `takeName`, `takeNumber` — the tokens, with lemmas that say what the
  text began with, or where a number was looked for.

Gaps may stand before an operator or a bracket; the other tokens begin where the text does.
-/

set_option autoImplicit false

namespace ModelFormula

/-! ### Outcomes of reading -/

/-- What is read off the front of a text, and the rest, which is shorter than the bound. -/
structure Taken (bound : Nat) (α : Type) where
  value : α
  rest : List Char
  shorter : rest.length < bound

namespace Taken

variable {α β : Type} {m n : Nat}

/-- The same reading of a longer text. -/
def widen (t : Taken m α) (h : m ≤ n) : Taken n α :=
  ⟨t.value, t.rest, Nat.lt_of_lt_of_le t.shorter h⟩

/-- The same rest with another value. -/
def withValue (t : Taken m α) (b : β) : Taken m β := ⟨b, t.rest, t.shorter⟩

@[simp] theorem value_widen (t : Taken m α) (h : m ≤ n) : (t.widen h).value = t.value := rfl
@[simp] theorem rest_widen (t : Taken m α) (h : m ≤ n) : (t.widen h).rest = t.rest := rfl
@[simp] theorem value_withValue (t : Taken m α) (b : β) : (t.withValue b).value = b := rfl
@[simp] theorem rest_withValue (t : Taken m α) (b : β) : (t.withValue b).rest = t.rest := rfl

end Taken

/-- What a reader looks for. -/
inductive Expectation where
  | number
  | name
  | opening
  | punctuation
  deriving DecidableEq, Repr

/-- What a reader looks for, in words. -/
def Expectation.words : Expectation → String
  | .number => "a number"
  | .name => "a name"
  | .opening => "`(`"
  | .punctuation => "`,` or `)`"

/-- What was looked for, and the text where it was not found. -/
structure Failure where
  expected : Expectation
  rest : List Char
  deriving DecidableEq, Repr

/-! ### Gaps and punctuation -/

/-- A text without the gaps at its start. -/
def skipGaps (s : List Char) : List Char := s.dropWhile isGap

theorem length_skipGaps_le (s : List Char) : (skipGaps s).length ≤ s.length :=
  length_dropWhile_le isGap s

/-- One of the characters of `set`, after gaps. -/
def takePunct (set : List Char) (s : List Char) : Except Failure (Taken s.length Char) :=
  match h : skipGaps s with
  | c :: rest =>
    if c ∈ set then
      .ok ⟨c, rest, by have := length_skipGaps_le s; rw [h] at this; exact this⟩
    else .error ⟨.punctuation, c :: rest⟩
  | [] => .error ⟨.punctuation, []⟩

/-- The parenthesis that opens a group or a list of arguments, with no gap before it. -/
def takeOpening (s : List Char) : Except Failure (Taken s.length Unit) :=
  match s with
  | '(' :: rest => .ok ⟨(), rest, Nat.lt_succ_self _⟩
  | s => .error ⟨.opening, s⟩

theorem skipGaps_of_takePunct {set s : List Char} {t : Taken s.length Char}
    (h : takePunct set s = .ok t) : skipGaps s = t.value :: t.rest ∧ t.value ∈ set := by
  unfold takePunct at h
  split at h
  · rename_i c rest hs
    split at h
    · rename_i hc
      simp only [Except.ok.injEq] at h
      subst h
      exact ⟨hs, hc⟩
    · simp at h
  · simp at h

theorem takePunct_of_skipGaps {set s rest : List Char} {c : Char} (h : skipGaps s = c :: rest)
    (hc : c ∈ set) : ∃ t, takePunct set s = .ok t ∧ t.value = c ∧ t.rest = rest := by
  unfold takePunct
  split
  · rename_i c' rest' hs
    obtain ⟨rfl, rfl⟩ := List.cons.inj (hs.symm.trans h)
    exact ⟨_, if_pos hc, rfl, rfl⟩
  · rename_i hs
    rw [hs] at h
    cases h

theorem eq_cons_of_takeOpening {s : List Char} {t : Taken s.length Unit}
    (h : takeOpening s = .ok t) : s = '(' :: t.rest := by
  unfold takeOpening at h
  split at h
  · simp only [Except.ok.injEq] at h
    subst h
    rfl
  · simp at h

/-! ### Names and numbers -/

/-- Whether a name can start with a character. -/
def isNameStart (c : Char) : Bool := c.isAlpha || c == '_'

/-- Whether a name can go on with a character. -/
def isNameRest (c : Char) : Bool := c.isAlphanum || c == '_' || c == '.'

/-- The longest name at the start of a text. -/
def takeName (s : List Char) : Except Failure (Taken s.length String) :=
  match s with
  | c :: rest =>
    if isNameStart c then
      .ok ⟨String.ofList (c :: rest.takeWhile isNameRest), rest.dropWhile isNameRest,
        Nat.lt_succ_of_le (length_dropWhile_le isNameRest rest)⟩
    else .error ⟨.name, c :: rest⟩
  | [] => .error ⟨.name, []⟩

/-- The longest numeral at the start of a text. -/
def takeNumber (s : List Char) : Except Failure (Taken s.length Float) :=
  match h : Numeral.take? s with
  | some (x, rest) => .ok ⟨x, rest, Numeral.length_lt_of_take? h⟩
  | none => .error ⟨.number, s⟩

/-- A name is at least one character, and its characters are what was read. -/
theorem append_of_takeName {s : List Char} {t : Taken s.length String}
    (h : takeName s = .ok t) :
    ∃ c name, s = c :: name ++ t.rest ∧ t.value = String.ofList (c :: name) ∧
      isNameStart c = true ∧ ∀ d ∈ name, isNameRest d = true := by
  unfold takeName at h
  split at h
  · rename_i c rest
    split at h
    · rename_i hc
      simp only [Except.ok.injEq] at h
      subst h
      refine ⟨c, rest.takeWhile isNameRest, ?_, rfl, hc, ?_⟩
      · rw [List.cons_append, List.takeWhile_append_dropWhile]
      · exact List.all_eq_true.mp List.all_takeWhile
    · simp at h
  · simp at h

/-- Where there is no numeral, one was looked for at the start of the text. -/
theorem failure_of_takeNumber {s : List Char} {e : Failure} (h : takeNumber s = .error e) :
    e = ⟨.number, s⟩ := by
  unfold takeNumber at h
  split at h
  · simp at h
  · simp_all

end ModelFormula
