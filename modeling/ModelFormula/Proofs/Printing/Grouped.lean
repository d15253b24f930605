import ModelFormula.Proofs.Printing.RoundTrip

/-!
# What can be read

Every well-formed expression without a NaN is read from some text.  Its printed text will not
always do, for an infinity prints as a name, and a base `-0` without parentheses.  Here every
operand is in parentheses, and an infinity is written as a numeral that is too large.

* `Double.numeral` — a numeral that is read as the absolute value of a double;
* `Expr.grouped` — a text with all operands in parentheses;
* `Expr.reads_grouped_call` — the text of a call reads as the call if those of its operands do,
  **one case for each way to write a call**;
* `Expr.reads_grouped` — the text of an expression reads as the expression, the signs of zeros
  included;
* `Expr.parse_image` — **what is read is well-formed, and all that is well-formed and holds no NaN
  is read.**
-/

set_option autoImplicit false

namespace ModelFormula

/-! ### Numerals -/

/-- A numeral for the absolute value of a double: its shortest digits, or a power of ten beyond the
largest double. -/
def Double.numeral (x : Float) : List Char :=
  if isFinite x then (Decimal.shortest .up x).positional else '1' :: 'e' :: ['9', '9', '9']

namespace Expr

theorem reads_absolute {x : Float} (hle : Double.place x ≤ Double.infinityPlace) :
    Reads 4 (Double.numeral x) (.number (Double.absolute x)) := by
  by_cases hfin : Double.isFinite x = true
  · rw [Double.numeral, if_pos hfin]
    exact reads_digits hfin
  · -- what is neither finite nor a NaN has the place of infinity
    have hplace : Double.place x = Double.infinityPlace := by
      rw [Double.isFinite, decide_eq_true_iff] at hfin
      omega
    have habsolute : Double.absolute x = Double.infinity := by
      rw [Double.absolute, hplace, Double.infinity]
    rw [Double.numeral, if_neg hfin, habsolute]
    exact reads_numeral rfl fun _ hrest => Numeral.take?_overflow hrest

/-! ### Texts with all operands in parentheses -/

mutual
/-- A text of an expression with all operands in parentheses. -/
def grouped : Expr → List Char
  | .symbol name => name.toList
  | .number x => (if Double.isNegative x then ['-'] else []) ++ Double.numeral x
  | .absent => []
  | .call op args =>
    match Layout.of op args.length with
    | .leading => op.toList ++ (enclosedAll args).flatten
    | .between _ => joined (' ' :: op.toList ++ [' ']) (enclosedAll args)
    | .applied => op.toList ++ argumentList (enclosedAll args)

/-- The operands of a call in parentheses; an absent side has no text. -/
def enclosedAll : List Expr → List (List Char)
  | [] => []
  | .absent :: es => [] :: enclosedAll es
  | e :: es => inParens (grouped e) :: enclosedAll es
end

/-- An operand in parentheses. -/
def enclosed (e : Expr) : List Char :=
  match e with
  | .absent => []
  | e => inParens e.grouped

theorem enclosedAll_eq_map (es : List Expr) : enclosedAll es = es.map enclosed := by
  induction es with
  | nil => rw [enclosedAll, List.map_nil]
  | cons e es ih =>
      rw [List.map_cons, ← ih]
      cases e <;> rfl

theorem grouped_applied {name : String} (h : IsName name) (args : List Expr) :
    (call name args).grouped = name.toList ++ argumentList (args.map enclosed) := by
  rw [grouped, h.layout, enclosedAll_eq_map]

theorem grouped_leading {op : String} (hop : op = "$" ∨ op = "-") (e : Expr) :
    (call op [e]).grouped = op.toList ++ e.enclosed := by
  rw [grouped, List.length_singleton, Layout.of_leading hop, enclosedAll_eq_map]
  simp

theorem grouped_between {op : String} {strength : Nat} (hprec : precedence op = some strength)
    {e : Expr} {es : List Expr} (hes : es ≠ []) :
    (call op (e :: es)).grouped =
      e.enclosed ++ following (' ' :: op.toList ++ [' ']) (es.map enclosed) := by
  rw [grouped, Layout.of_precedence hprec (two_le_length_cons hes), enclosedAll_eq_map]
  exact joined_cons _ _ _

/-! ### What they read as -/

theorem reads_enclosed {e : Expr} (hwf : WellFormed e) (h : Reads 0 e.grouped e) :
    Reads 4 e.enclosed e := by
  cases e with
  | absent => cases hwf
  | call op args => exact h.inParens
  | symbol name => exact h.inParens
  | number x => exact h.inParens

theorem reads_enclosedAll {k : Nat} (hk : k ≤ 4) {es : List Expr}
    (h : ∀ e ∈ es, Reads 4 e.enclosed e) : List.Forall₂ (Reads k) (es.map enclosed) es := by
  rw [List.forall₂_map_left_iff, List.forall₂_same]
  intro e he
  exact (h e he).loosen hk

/-- Operands in parentheses with an operator of a chain between each two. -/
theorem reads_grouped_chain (level : Level) (op : Char) (hop : op ∈ level.operators)
    (hprec : precedence op.toString = some level.strength) {e : Expr} {es : List Expr}
    (hes : es ≠ []) (hrun : op = level.collapsing ∨ es.length = 1)
    (h : ∀ f ∈ e :: es, Reads 4 f.enclosed f) :
    Reads 0 (call op.toString (e :: es)).grouped (.call op.toString (e :: es)) := by
  obtain ⟨he, hothers⟩ := List.forall_mem_cons.mp h
  have hseparator : ' ' :: op.toString.toList ++ [' '] = [' ', op, ' '] := by simp
  have hstrength : level.strength + 1 ≤ 4 := by cases level <;> decide
  have hread := reads_chain hop (he.loosen hstrength) (reads_enclosedAll hstrength hothers) hes hrun
  rw [grouped_between hprec hes, hseparator]
  exact hread.loosen (Nat.zero_le _)

theorem reads_grouped_oneSided {es : List Expr} (hes : es ≠ [])
    (h : ∀ e ∈ es, Reads 4 e.enclosed e) :
    Reads 0 (call "~" (.absent :: es)).grouped (.call "~" (.absent :: es)) := by
  rw [grouped_between precedence_tilde hes]
  cases es with
  | nil => exact absurd rfl hes
  | cons e es =>
      obtain ⟨he, hothers⟩ := List.forall_mem_cons.mp h
      have hread := reads_leadingTilde (he.loosen (show 1 ≤ 4 by omega))
        (reads_enclosedAll (by omega) hothers)
      -- nothing stands before the operator but the space that follows a side
      have hsplit :
          enclosed .absent ++ following (' ' :: "~".toList ++ [' ']) ((e :: es).map enclosed) =
            ' ' :: ('~' :: ' ' :: e.enclosed ++ following [' ', '~', ' '] (es.map enclosed)) := by
        simp [enclosed, following]
      rw [hsplit]
      exact hread.space

/-- The text of a call reads as the call if the texts of its operands read as the operands. -/
theorem reads_grouped_call {op : String} {args : List Expr} (hwf : WellFormed (.call op args))
    (h : ∀ e ∈ args, WellFormed e → Reads 4 e.enclosed e) :
    Reads 0 (call op args).grouped (.call op args) := by
  cases hwf with
  | applied hname hargs =>
      have henclosed := reads_enclosedAll (show 0 ≤ 4 by omega) fun e he => h e he (hargs e he)
      rw [grouped_applied hname]
      exact (reads_call hname henclosed).loosen (Nat.zero_le _)
  | @escape e he =>
      have hread := reads_escape ((h e List.mem_cons_self he).loosen (show 3 ≤ 4 by omega))
      rw [grouped_leading (Or.inl rfl)]
      exact hread.loosen (Nat.zero_le _)
  | @minus e hne he =>
      have hread := reads_minus ((h e List.mem_cons_self he).loosen (show 3 ≤ 4 by omega))
      rw [negated_eq_call hne] at hread
      rw [grouped_leading (Or.inr rfl)]
      exact hread.loosen (Nat.zero_le _)
  | @binary _ a b hop ha hb =>
      have hargs : ∀ e ∈ [a, b], Reads 4 e.enclosed e := List.forall_mem_cons.mpr
        ⟨h a (by simp) ha, List.forall_mem_singleton.mpr (h b (by simp) hb)⟩
      simp only [List.mem_cons, List.not_mem_nil, or_false] at hop
      rcases hop with rfl | rfl | rfl | rfl
      · exact reads_grouped_chain .sum '-' (by decide) rfl (by simp) (Or.inr rfl) hargs
      · exact reads_grouped_chain .product '/' (by decide) rfl (by simp) (Or.inr rfl) hargs
      · exact reads_grouped_chain .product '&' (by decide) rfl (by simp) (Or.inr rfl) hargs
      · have hread := reads_raised (hargs a (by simp))
          ((hargs b (by simp)).loosen (show 3 ≤ 4 by omega))
        rw [grouped_between (show precedence "^" = some 3 from rfl) (List.cons_ne_nil _ _)]
        exact hread.loosen (Nat.zero_le _)
  | run hop hlen hargs =>
      obtain ⟨e, es, rfl, hes⟩ := exists_cons_of_two_le hlen
      have henclosed : ∀ f ∈ e :: es, Reads 4 f.enclosed f := fun f hf => h f hf (hargs f hf)
      simp only [List.mem_cons, List.not_mem_nil, or_false] at hop
      rcases hop with rfl | rfl
      · exact reads_grouped_chain .sum '+' (by decide) rfl hes (Or.inl rfl) henclosed
      · exact reads_grouped_chain .product '*' (by decide) rfl hes (Or.inl rfl) henclosed
  | @sides e es hes he hothers =>
      have hfirst := (h e List.mem_cons_self he).loosen (show 1 ≤ 4 by omega)
      have henclosed := reads_enclosedAll (show 1 ≤ 4 by omega) fun f hf =>
        h f (List.mem_cons_of_mem e hf) (hothers f hf)
      rw [grouped_between precedence_tilde hes]
      exact reads_between hfirst henclosed hes
  | oneSided hes hothers =>
      exact reads_grouped_oneSided hes fun e he =>
        h e (List.mem_cons_of_mem _ he) (hothers e he)

/-- No number of an expression is a NaN. -/
def NaNFree (e : Expr) : Prop := ∀ x, .number x ∈ e.nodes → x.isNaN = false

theorem NaNFree.of_mem {op : String} {args : List Expr} {e : Expr} (h : (call op args).NaNFree)
    (he : e ∈ args) : e.NaNFree :=
  fun x hx => h x (mem_nodes_of_mem he hx)

/-- The text with all operands in parentheses reads as the expression. -/
theorem reads_grouped (e : Expr) : WellFormed e → e.NaNFree → Reads 0 e.grouped e := by
  induction e using inductionCalls with
  | symbol name =>
      intro hwf _
      cases hwf with
      | symbol hname =>
          rw [grouped]
          exact (reads_symbol hname).loosen (Nat.zero_le _)
  | number x =>
      intro _ hnumbers
      have hle := Double.place_le_of_isNaN (hnumbers x (mem_nodes_self _))
      rw [grouped]
      exact (reads_signed hle (reads_absolute hle)).loosen (Nat.zero_le _)
  | absent =>
      intro hwf
      cases hwf
  | call op args ih =>
      intro hwf hnumbers
      refine reads_grouped_call hwf ?_
      intro e he hwfe
      exact reads_enclosed hwfe (ih e he hwfe (hnumbers.of_mem he))

/-- **What is read is well-formed, and all that is well-formed and holds no NaN is read.** -/
theorem parse_image :
    (∀ input e, parse input = .ok e → WellFormed e) ∧
      ∀ e, WellFormed e → e.NaNFree → ∃ input, parse input = .ok e := by
  constructor
  · intro input e h
    exact wellFormed_of_parse h
  · intro e hwf hnumbers
    exact ⟨String.ofList e.grouped, parse_of_reads (reads_grouped e hwf hnumbers)⟩

/-- What `-x` is read as is well-formed; and the power of `-0` to an infinity, whose printed text is
`-0 ^ inf` and reads as something else, is read from another text. -/
theorem parse_image_minusZero :
    (∃ e, parse "-x" = .ok e ∧ WellFormed e) ∧
      ∃ input, parse input = .ok (.call "^" [.number (-0.0), .number Double.infinity]) := by
  obtain ⟨hread, hwritten⟩ := parse_image
  constructor
  · have hx : Reads 4 "x".toList (.symbol "x") := reads_symbol (isName_of_all rfl rfl rfl)
    have hparse : parse "-x" = .ok (.call "-" [.symbol "x"]) :=
      parse_of_reads (reads_minus (hx.loosen (by omega)))
    exact ⟨_, hparse, hread _ _ hparse⟩
  · refine hwritten _ (.binary (by decide) .number .number) ?_
    intro x hx
    simp only [nodes_call, nodesAll_cons, nodes_number, nodesAll_nil, List.mem_cons,
      List.mem_append, List.not_mem_nil, or_false, reduceCtorEq, false_or, number.injEq] at hx
    rcases hx with rfl | rfl <;> rfl

end Expr

end ModelFormula
