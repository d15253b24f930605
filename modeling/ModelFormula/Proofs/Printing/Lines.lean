import ModelFormula.Expr.Printer
import ModelFormula.Proofs.Grammar.Rules

/-!
# Printed operands and the lines of the grammar

The strength of an infix operator is the place of its line in the grammar, counted from the
loosest: an operand may stand under an operator if it is read at a tighter line.

* `Grammar.Line` — the lines by their number, each **contained in the looser ones**
  (`Grammar.Line.loosen`);
* `Reads` — a text that reads as an expression at a line, whatever delimited text follows;
* `reads_chain`, `reads_between`, `reads_leadingTilde`, `arguments_following` — operands with
  separators between them read as a chain, as the sides of `~`, and as the arguments of a call.
-/

set_option autoImplicit false

namespace ModelFormula

namespace Grammar

/-! ### Gaps before an expression -/

section

variable {s t rest : List Char} {e : Expr} {es : List Expr}

theorem Gap.trans {u : List Char} (h : Gap s t) (h' : Gap t u) : Gap s u := by
  obtain ⟨gaps, hgaps, rfl⟩ := h
  obtain ⟨more, hmore, rfl⟩ := h'
  refine ⟨gaps ++ more, ?_, (List.append_assoc ..).symm⟩
  intro c hc
  rcases List.mem_append.mp hc with hc | hc
  · exact hgaps c hc
  · exact hmore c hc

theorem gap_space (s : List Char) : Gap (' ' :: s) s :=
  ⟨[' '], List.forall_mem_singleton.mpr rfl, rfl⟩

theorem Atom.of_gap (h : Gap s t) (hatom : Atom t e rest) : Atom s e rest := by
  cases hatom with
  | group hopen htilde hclose => exact .group (h.trans hopen) htilde hclose
  | constant hgap hname hclose => exact .constant (h.trans hgap) hname hclose
  | call hgap hname hargs => exact .call (h.trans hgap) hname hargs
  | symbol hgap hname => exact .symbol (h.trans hgap) hname
  | number hgap hnumber => exact .number (h.trans hgap) hnumber

theorem Power.of_gap (h : Gap s t) (hpower : Power t e rest) : Power s e rest := by
  cases hpower with
  | atom hatom => exact .atom (hatom.of_gap h)
  | raised hatom hop hunary => exact .raised (hatom.of_gap h) hop hunary

theorem Unary.of_gap (h : Gap s t) (hunary : Unary t e rest) : Unary s e rest := by
  cases hunary with
  | minus hop hunary => exact .minus (h.trans hop) hunary
  | escape hop hunary => exact .escape (h.trans hop) hunary
  | power hpower => exact .power (hpower.of_gap h)

theorem Operand.of_gap {level : Level} (h : Gap s t) (hoperand : Operand level t e rest) :
    Operand level s e rest := by
  cases hoperand with
  | unary hunary => exact .unary (hunary.of_gap h)
  | product hchain =>
      obtain ⟨hfirst, hsteps⟩ := hchain
      cases hfirst with
      | unary hunary => exact .product (.mk (.unary (hunary.of_gap h)) hsteps)

theorem Chain.of_gap {level : Level} (h : Gap s t) (hchain : Chain level t e rest) :
    Chain level s e rest := by
  obtain ⟨hoperand, hsteps⟩ := hchain
  exact .mk (hoperand.of_gap h) hsteps

theorem Sides.of_gap (h : Gap s t) (hsides : Sides t es rest) : Sides s es rest := by
  cases hsides with
  | last hop hchain => exact .last (h.trans hop) hchain
  | cons hop hchain hsides => exact .cons (h.trans hop) hchain hsides

theorem Tilde.of_gap (h : Gap s t) (htilde : Tilde t e rest) : Tilde s e rest := by
  cases htilde with
  | sum hchain => exact .sum (hchain.of_gap h)
  | between hchain hsides => exact .between (hchain.of_gap h) hsides
  | leading hsides => exact .leading (hsides.of_gap h)

theorem Arguments.of_gap (h : Gap s t) (hargs : Arguments t es rest) : Arguments s es rest := by
  cases hargs with
  | last htilde hclose => exact .last (htilde.of_gap h) hclose
  | cons htilde hcomma hargs => exact .cons (htilde.of_gap h) hcomma hargs

end

/-! ### Lines -/

/-- The lines of the grammar from the loosest to the tightest, those of infix operators at the
number of their strength. -/
def Line : Nat → List Char → Expr → List Char → Prop
  | 0 => Tilde
  | 1 => Chain .sum
  | 2 => Chain .product
  | 3 => Unary
  | _ => Atom

/-- An operand on its own is a chain. -/
theorem Operand.chain {level : Level} {s rest : List Char} {e : Expr}
    (h : Operand level s e rest) : Chain level s e rest :=
  .mk h .nil

theorem Line.loosen_succ {n : Nat} {s rest : List Char} {e : Expr} (h : Line (n + 1) s e rest) :
    Line n s e rest := by
  match n, h with
  | 0, h => exact .sum h
  | 1, h => exact Operand.chain (.product h)
  | 2, h => exact Operand.chain (.unary h)
  | 3, h => exact .power (.atom h)
  | _ + 4, h => exact h

/-- Whatever is read at a line is read at the looser ones. -/
theorem Line.loosen {m n : Nat} (hmn : m ≤ n) {s rest : List Char} {e : Expr}
    (h : Line n s e rest) : Line m s e rest := by
  induction hmn with
  | refl => exact h
  | step _ ih => exact ih h.loosen_succ

/-- An atom on its own is a sum. -/
theorem Atom.sum {s rest : List Char} {e : Expr} (h : Atom s e rest) : Chain .sum s e rest :=
  Line.loosen (show 1 ≤ 4 by omega) h

end Grammar

/-- The number of the line of a chain, which is the strength of its operators. -/
def Level.strength : Level → Nat
  | .sum => 1
  | .product => 2

open Grammar

theorem line_chain (level : Level) : Line level.strength = Chain level := by
  cases level <;> rfl

theorem operand_of_line {level : Level} {s rest : List Char} {e : Expr}
    (h : Line (level.strength + 1) s e rest) : Operand level s e rest := by
  cases level with
  | sum => exact .product h
  | product => exact .unary h

/-! ### Texts -/

/-- A text that reads as `e` at a line of the grammar, whatever delimited text follows. -/
def Reads (line : Nat) (s : List Char) (e : Expr) : Prop :=
  ∀ rest, Delimited rest → Line line (s ++ rest) e rest

/-- A space in front changes nothing. -/
theorem Reads.space {s : List Char} {e : Expr} (h : Reads 0 s e) : Reads 0 (' ' :: s) e :=
  fun rest hrest => Tilde.of_gap (gap_space _) (h rest hrest)

theorem Reads.loosen {m n : Nat} {s : List Char} {e : Expr} (h : Reads n s e) (hmn : m ≤ n) :
    Reads m s e :=
  fun rest hrest => (h rest hrest).loosen hmn

/-- Parentheses lift a text to the tightest line. -/
theorem Reads.inParens {s : List Char} {e : Expr} (h : Reads 0 s e) : Reads 4 (inParens s) e := by
  intro rest _
  have hinner : Tilde (s ++ ')' :: rest) e (')' :: rest) := h _ (Or.inr (Or.inr rfl))
  have hsplit : ModelFormula.inParens s ++ rest = '(' :: (s ++ ')' :: rest) := by
    simp [ModelFormula.inParens]
  rw [hsplit]
  exact .group (gap_refl _) hinner (gap_refl _)

/-- Texts, each behind a separator. -/
def following (separator : List Char) (texts : List (List Char)) : List Char :=
  texts.flatMap fun s => separator ++ s

theorem joined_cons (separator s : List Char) (texts : List (List Char)) :
    joined separator (s :: texts) = s ++ following separator texts := by
  induction texts generalizing s with
  | nil => simp [joined, following]
  | cons t texts ih =>
      have htail := ih t
      rw [joined] at htail ⊢
      rw [List.intercalate_cons_cons, htail]
      simp [following]

theorem delimited_following {separator rest : List Char} {texts : List (List Char)} {c : Char}
    (hseparator : separator.head? = some c) (hc : Delimited [c]) (hrest : Delimited rest) :
    Delimited (following separator texts ++ rest) := by
  cases texts with
  | nil => exact hrest
  | cons s texts =>
      cases separator with
      | nil => cases hseparator
      | cons d separator =>
          cases hseparator
          exact hc

/-! ### Chains -/

section

variable {level : Level} {op : Char}

theorem steps_following (hop : op ∈ level.operators) {texts : List (List Char)} {es : List Expr}
    (h : List.Forall₂ (Reads (level.strength + 1)) texts es) {rest : List Char}
    (hrest : Delimited rest) :
    Steps level (following [' ', op, ' '] texts ++ rest) (es.map fun e => (op, e)) rest := by
  induction h with
  | nil => exact .nil
  | @cons s e texts es hs _ ih =>
      have hrests : Delimited (following [' ', op, ' '] texts ++ rest) :=
        delimited_following rfl (Or.inl rfl) hrest
      have hoperand := operand_of_line (hs _ hrests)
      have hsplit : following [' ', op, ' '] (s :: texts) ++ rest =
          ' ' :: op :: ' ' :: (s ++ (following [' ', op, ' '] texts ++ rest)) := by
        simp [following]
      rw [hsplit, List.map_cons]
      exact .cons hop (gap_space _) (hoperand.of_gap (gap_space _)) ih

theorem grown_run (args es : List Expr) :
    grown level (.call level.collapsing.toString args) (some level.collapsing)
      (es.map fun e => (level.collapsing, e)) =
        .call level.collapsing.toString (args ++ es) := by
  induction es generalizing args with
  | nil => simp [grown]
  | cons e es ih =>
      rw [List.map_cons, grown, if_pos ⟨rfl, rfl⟩, withArgument, ih]
      simp

/-- Operands with one operator between them make one call, if it is the operator of a run or there
are only two of them. -/
theorem chainTree_map {e : Expr} {es : List Expr} (hes : es ≠ [])
    (hrun : op = level.collapsing ∨ es.length = 1) :
    chainTree level e (es.map fun f => (op, f)) = .call op.toString (e :: es) := by
  cases es with
  | nil => exact absurd rfl hes
  | cons f es =>
      rw [chainTree, List.map_cons, grown, if_neg (by simp)]
      rcases hrun with rfl | hlen
      · rw [grown_run]
        rfl
      · obtain rfl : es = [] := List.eq_nil_of_length_eq_zero (by simpa using hlen)
        rfl

/-- Operands with an operator between each two read as one call. -/
theorem reads_chain (hop : op ∈ level.operators) {s : List Char} {e : Expr}
    {texts : List (List Char)} {es : List Expr} (hs : Reads (level.strength + 1) s e)
    (h : List.Forall₂ (Reads (level.strength + 1)) texts es) (hes : es ≠ [])
    (hrun : op = level.collapsing ∨ es.length = 1) :
    Reads level.strength (s ++ following [' ', op, ' '] texts) (.call op.toString (e :: es)) := by
  intro rest hrest
  have hrests : Delimited (following [' ', op, ' '] texts ++ rest) :=
    delimited_following rfl (Or.inl rfl) hrest
  rw [line_chain, List.append_assoc, ← chainTree_map hes hrun]
  exact .mk (operand_of_line (hs _ hrests)) (steps_following hop h hrest)

end

/-! ### Sides and arguments -/

theorem sides_following {s : List Char} {e : Expr} {texts : List (List Char)} {es : List Expr}
    (hs : Reads 1 s e) (h : List.Forall₂ (Reads 1) texts es) {rest : List Char}
    (hrest : Delimited rest) :
    Sides ('~' :: ' ' :: s ++ (following [' ', '~', ' '] texts ++ rest)) (e :: es) rest := by
  induction h generalizing s e with
  | nil =>
      have hchain : Chain .sum (s ++ rest) e rest := hs rest hrest
      exact .last (gap_refl _) (hchain.of_gap (gap_space _))
  | @cons t f texts es ht _ ih =>
      have hrests : Delimited (following [' ', '~', ' '] (t :: texts) ++ rest) := Or.inl rfl
      have hchain : Chain .sum _ e _ := hs _ hrests
      have hsplit : following [' ', '~', ' '] (t :: texts) ++ rest =
          ' ' :: ('~' :: ' ' :: t ++ (following [' ', '~', ' '] texts ++ rest)) := by
        simp [following]
      rw [hsplit] at hchain ⊢
      exact .cons (gap_refl _) (hchain.of_gap (gap_space _)) ((ih ht).of_gap (gap_space _))

/-- Sides with `~` between each two read as one call. -/
theorem reads_between {s : List Char} {e : Expr} {texts : List (List Char)} {es : List Expr}
    (hs : Reads 1 s e) (h : List.Forall₂ (Reads 1) texts es) (hes : es ≠ []) :
    Reads 0 (s ++ following [' ', '~', ' '] texts) (.call "~" (e :: es)) := by
  intro rest hrest
  cases h with
  | nil => exact absurd rfl hes
  | @cons t f texts es ht h =>
      -- the first side is followed by the space before the operator
      have hlhs : Chain .sum _ e _ :=
        hs (following [' ', '~', ' '] (t :: texts) ++ rest) (Or.inl rfl)
      have hrhs := sides_following ht h hrest
      have hsplit : following [' ', '~', ' '] (t :: texts) ++ rest =
          ' ' :: ('~' :: ' ' :: t ++ (following [' ', '~', ' '] texts ++ rest)) := by
        simp [following]
      rw [hsplit] at hlhs
      rw [List.append_assoc, hsplit]
      exact .between hlhs (hrhs.of_gap (gap_space _))

/-- Without a left side the operator comes first. -/
theorem reads_leadingTilde {s : List Char} {e : Expr} {texts : List (List Char)} {es : List Expr}
    (hs : Reads 1 s e) (h : List.Forall₂ (Reads 1) texts es) :
    Reads 0 ('~' :: ' ' :: s ++ following [' ', '~', ' '] texts)
      (.call "~" (.absent :: e :: es)) := by
  intro rest hrest
  rw [List.append_assoc]
  exact .leading (sides_following hs h hrest)

theorem arguments_following {s : List Char} {e : Expr} {texts : List (List Char)} {es : List Expr}
    (hs : Reads 0 s e) (h : List.Forall₂ (Reads 0) texts es) (rest : List Char) :
    Arguments (s ++ (following [',', ' '] texts ++ ')' :: rest)) (e :: es) rest := by
  induction h generalizing s e with
  | nil =>
      have htilde : Tilde (s ++ ')' :: rest) e (')' :: rest) := hs _ (Or.inr (Or.inr rfl))
      exact .last htilde (gap_refl _)
  | @cons t f texts es ht _ ih =>
      have hrests : Delimited (following [',', ' '] (t :: texts) ++ ')' :: rest) :=
        Or.inr (Or.inl rfl)
      have htilde : Tilde _ e _ := hs _ hrests
      have hsplit : following [',', ' '] (t :: texts) ++ ')' :: rest =
          ',' :: ' ' :: (t ++ (following [',', ' '] texts ++ ')' :: rest)) := by
        simp [following]
      rw [hsplit] at htilde ⊢
      exact .cons htilde (gap_refl _) ((ih ht).of_gap (gap_space _))

end ModelFormula
