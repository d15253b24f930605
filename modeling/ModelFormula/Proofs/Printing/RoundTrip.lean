import ModelFormula.Proofs.Printing.AsRead
import ModelFormula.Proofs.Printing.Lines

/-!
# Printed expressions read back

The text of a well-formed expression is derived at the line of the operator it prints with, and
every operand is at a line tight enough or in parentheses.

* `Expr.line` — the line of the grammar that an expression prints at;
* `Expr.lt_line` — an operand without parentheses is tighter than its operator;
* `Expr.reads_chars` — **the text of an expression reads as `asRead` says**, by induction on the
  expression, one lemma for each layout of a call;
* `Expr.parse_text_iff_legible` — **display and parse are inverse just on legible expressions.**
-/

set_option autoImplicit false

namespace ModelFormula

/-! ### Layouts -/

theorem Layout.of_precedence {op : String} {strength n : Nat} (h : precedence op = some strength)
    (hn : 2 ≤ n) : Layout.of op n = .between strength := by
  rw [Layout.of, if_neg (by omega), h]
  exact if_pos hn

theorem Layout.of_leading {op : String} (h : op = "$" ∨ op = "-") :
    Layout.of op 1 = .leading :=
  if_pos ⟨rfl, h⟩

theorem Layout.of_applied {op : String} {n : Nat} (h : ¬(n = 1 ∧ (op = "$" ∨ op = "-")))
    (hn : precedence op = none ∨ ¬2 ≤ n) : Layout.of op n = .applied := by
  rw [Layout.of, if_neg h]
  cases hprec : ModelFormula.precedence op with
  | none => rfl
  | some strength => exact if_neg (hn.resolve_left (by simp [hprec]))

theorem IsName.precedence {name : String} (h : IsName name) : precedence name = none := by
  have htilde : name ≠ "~" := h.ne rfl rfl
  have hplus : name ≠ "+" := h.ne rfl rfl
  have hminus : name ≠ "-" := h.ne rfl rfl
  have htimes : name ≠ "*" := h.ne rfl rfl
  have hdiv : name ≠ "/" := h.ne rfl rfl
  have hand : name ≠ "&" := h.ne rfl rfl
  have hpower : name ≠ "^" := h.ne rfl rfl
  simp [ModelFormula.precedence, htilde, hplus, hminus, htimes, hdiv, hand, hpower]

theorem IsName.layout {name : String} (h : IsName name) (n : Nat) :
    Layout.of name n = .applied := by
  have hescape : name ≠ "$" := h.ne rfl rfl
  have hminus : name ≠ "-" := h.ne rfl rfl
  exact Layout.of_applied (by simp [hescape, hminus]) (Or.inl h.precedence)

/-- A text that starts with a character that is no blank. -/
def Sharp (s : List Char) : Prop := ∃ c t, s = c :: t ∧ isBlank c = false

theorem Sharp.append {s : List Char} (h : Sharp s) (t : List Char) : Sharp (s ++ t) := by
  obtain ⟨c, s, rfl, hc⟩ := h
  exact ⟨c, s ++ t, rfl, hc⟩

theorem Sharp.trimStart {s : List Char} (h : Sharp s) : trimStart s = s := by
  obtain ⟨c, t, rfl, hc⟩ := h
  rw [trimStart_cons, hc]
  rfl

theorem joinedBy_cons {op : String} {s : List Char} (h : Sharp s) (texts : List (List Char)) :
    joinedBy op (s :: texts) = s ++ following (' ' :: op.toList ++ [' ']) texts := by
  rw [joinedBy, joined_cons]
  exact (h.append _).trimStart

namespace Expr

/-! ### Lines -/

/-- The line of the grammar that an expression prints at. -/
def line : Expr → Nat
  | .call op args =>
    match Layout.of op args.length with
    | .leading => 3
    | .between strength => strength
    | .applied => 4
  | .number x => if Double.isNegative x then 3 else 4
  | .symbol _ => 4
  | .absent => 4

theorem line_of_layout {op : String} {args : List Expr} {strength : Nat}
    (h : Layout.of op args.length = .between strength) : (call op args).line = strength := by
  rw [line, h]

theorem lt_line_call {p : Nat} {op : String} {args : List Expr} (hp : p ≤ 3)
    (h : needsParens p (.call op args) = false) : p < (call op args).line := by
  rw [needsParens] at h
  by_cases hleading : args.length = 1 ∧ (op = "$" ∨ op = "-")
  · obtain ⟨hlen, hop⟩ := hleading
    rw [if_neg (by omega)] at h
    rw [line, hlen, Layout.of_leading hop]
    have hlt : ¬3 ≤ p := by
      rcases hop with rfl | rfl <;> simpa [hlen] using h
    exact Nat.lt_of_not_le hlt
  · by_cases hlen : 2 ≤ args.length
    · rw [if_pos hlen] at h
      cases hprec : precedence op with
      | none =>
          rw [line, Layout.of_applied hleading (Or.inl hprec)]
          exact Nat.lt_succ_of_le hp
      | some own =>
          rw [line, Layout.of_precedence hprec hlen]
          simpa [hprec] using h
    · rw [line, Layout.of_applied hleading (Or.inr hlen)]
      exact Nat.lt_succ_of_le hp

theorem lt_line_number {p : Nat} {x : Float} (hp : p ≤ 3)
    (h : needsParens p (.number x) = false) (hzero : p = 3 → x ≠ -0.0) : p < (number x).line := by
  rw [line]
  split
  · rename_i hneg
    by_cases hplace : Double.place x = 0
    · -- `-0` is the one number with a minus that is not put in parentheses
      have hne : p ≠ 3 := fun hp =>
        hzero hp (Double.isMinusZero_iff.mp (by simp [Double.isMinusZero, hneg, hplace]))
      omega
    · have hlt := Double.lt_zero_of_isNegative hneg hplace
      simp [needsParens, hlt] at h
  · omega

/-- An operand without parentheses is tighter than its operator; `-0` is not tighter than `^`. -/
theorem lt_line {p : Nat} {e : Expr} (hp : p ≤ 3) (h : needsParens p e = false)
    (hzero : p = 3 → e ≠ .number (-0.0)) : p < e.line := by
  cases e with
  | call op args => exact lt_line_call hp h
  | number x => exact lt_line_number hp h fun hp hx => hzero hp (by rw [hx])
  | symbol name => exact Nat.lt_succ_of_le hp
  | absent => exact Nat.lt_succ_of_le hp

/-- What needs no parentheses under an operator needs none under a looser one. -/
theorem needsParens_mono {p q : Nat} (hpq : p ≤ q) {e : Expr} (h : needsParens q e = false) :
    needsParens p e = false := by
  cases e with
  | symbol name => rfl
  | absent => rfl
  | number x => exact h
  | call op args =>
      rw [needsParens] at h ⊢
      split
      · rename_i hlen
        rw [if_pos hlen] at h
        cases hprec : precedence op with
        | none => rfl
        | some own =>
            simp only [hprec, Option.any_some, decide_eq_false_iff_not] at h ⊢
            omega
      · rename_i hlen
        rw [if_neg hlen, Bool.and_eq_false_iff, decide_eq_false_iff_not] at h
        rw [Bool.and_eq_false_iff, decide_eq_false_iff_not]
        rcases h with h | h
        · exact Or.inl (by omega)
        · exact Or.inr h

/-- An operand without parentheses can stand behind a leading operator or `^`. -/
theorem three_le_line {p : Nat} {e : Expr} (hp : 3 ≤ p) (h : needsParens p e = false) :
    3 ≤ e.line :=
  lt_line (by omega) (needsParens_mono (show 2 ≤ p by omega) h) (by simp)

/-! ### Operands -/

theorem reads_operand {p k : Nat} {e : Expr} (h : Reads e.line e.chars e.asRead) (hk : k ≤ 4)
    (hline : needsParens p e = false → k ≤ e.line) : Reads k (operand p e) e.asRead := by
  rw [operand]
  split
  · exact (h.loosen (Nat.zero_le _)).inParens.loosen hk
  · rename_i hparens
    exact h.loosen (hline (Bool.eq_false_iff.mpr hparens))

/-- Under the operators that are looser than `^`, every operand is tight enough. -/
theorem reads_operands {p : Nat} (hp : p ≤ 2) {args : List Expr}
    (h : ∀ e ∈ args, Reads e.line e.chars e.asRead) :
    List.Forall₂ (Reads (p + 1)) (args.map (operand p)) (args.map asRead) := by
  rw [List.forall₂_map_left_iff, List.forall₂_map_right_iff, List.forall₂_same]
  intro e he
  refine reads_operand (h e he) (by omega) ?_
  intro hparens
  exact lt_line (by omega) hparens (by omega)

/-! ### Leaves -/

theorem name_append {name : String} (h : IsName name) (rest : List Char) :
    Grammar.Name (name.toList ++ rest) name rest := by
  obtain ⟨c, cs, hname, hc, hcs⟩ := h
  refine ⟨c, cs, by rw [hname], ?_, hc, hcs⟩
  rw [← hname, String.ofList_toList]

theorem reads_symbol {name : String} (h : IsName name) : Reads 4 name.toList (.symbol name) := by
  intro rest _
  exact .symbol (Grammar.gap_refl _) (name_append h rest)

theorem isName_inf : IsName "inf" := isName_of_all rfl rfl rfl

theorem isName_nan : IsName "NaN" := isName_of_all rfl rfl rfl

/-- A numeral that begins with a digit reads as a number. -/
theorem reads_numeral {c : Char} {s : List Char} {x : Float} (hc : c.isDigit = true)
    (h : ∀ rest, Delimited rest → Numeral.take? (c :: s ++ rest) = some (x, rest)) :
    Reads 4 (c :: s) (.number x) := by
  intro rest hrest
  refine .number (Grammar.gap_refl _) ⟨h rest hrest, ?_⟩
  have hstart : isNameStart c = false := by
    cases hname : isNameStart c with
    | false => rfl
    | true =>
        rw [Grammar.isDigit_of_isNameStart hname] at hc
        cases hc
  have hminus : c ≠ '-' := by
    rintro rfl
    cases hc
  exact stops_cons _ (by simp [hstart, hminus])

theorem reads_digits {x : Float} (hfin : Double.isFinite x = true) :
    Reads 4 (Decimal.shortest .up x).positional (.number (Double.absolute x)) := by
  have htake : ∀ rest, Delimited rest →
      Numeral.take? ((Decimal.shortest .up x).positional ++ rest) =
        some (Double.absolute x, rest) := fun _ hrest => Numeral.take?_shortest hfin hrest
  obtain ⟨c, s, hcons, hc⟩ := (Decimal.shortest .up x).positional_eq_cons
  rw [hcons] at htake ⊢
  exact reads_numeral hc htake

/-- A minus in front negates what is read behind it. -/
theorem reads_minus {s : List Char} {e : Expr} (h : Reads 3 s e) : Reads 3 ('-' :: s) e.negated :=
  fun rest hrest => .minus (Grammar.gap_refl _) (h rest hrest)

theorem reads_escape {s : List Char} {e : Expr} (h : Reads 3 s e) : Reads 3 ('$' :: s) e.escape :=
  fun rest hrest => .escape (Grammar.gap_refl _) (h rest hrest)

/-- A numeral of the absolute value and the sign in front read as the number. -/
theorem reads_signed {x : Float} {s : List Char} (hle : Double.place x ≤ Double.infinityPlace)
    (h : Reads 4 s (.number (Double.absolute x))) :
    Reads (if Double.isNegative x then 3 else 4) ((if Double.isNegative x then ['-'] else []) ++ s)
      (.number x) := by
  cases hneg : Double.isNegative x with
  | false =>
      rw [Double.absolute_eq_self hle hneg] at h
      exact h
  | true =>
      have hread := reads_minus (h.loosen (by omega))
      rw [negated, Double.neg_absolute hle hneg] at hread
      exact hread

/-- The text of a number reads at the line of its sign. -/
theorem reads_number (x : Float) : Reads (number x).line (number x).chars (number x).asRead := by
  have hline : (number x).line = if Double.isNegative x then 3 else 4 := by rw [line]
  rw [hline, chars_number, asRead_number, Double.text, numberAsRead]
  by_cases hfin : Double.isFinite x = true
  · have hle : Double.place x ≤ Double.infinityPlace := Nat.le_of_lt (of_decide_eq_true hfin)
    rw [if_pos hfin, if_pos hfin]
    exact reads_signed hle (reads_digits hfin)
  · rw [if_neg hfin, if_neg hfin]
    by_cases hinf : Double.isInfinite x = true
    · have hread : Reads 4 "inf".toList (.symbol "inf") := reads_symbol isName_inf
      rw [if_pos hinf, if_pos hinf]
      cases Double.isNegative x with
      | false => exact hread
      | true => exact reads_minus (hread.loosen (by omega))
    · have hread : Reads 4 "NaN".toList (.symbol "NaN") := reads_symbol isName_nan
      rw [if_neg hinf, if_neg hinf]
      exact hread.loosen (by split <;> decide)

/-! ### First characters -/

theorem sharp_of_isName {name : String} (h : IsName name) : Sharp name.toList := by
  obtain ⟨c, cs, hname, hc, -⟩ := h
  exact ⟨c, cs, hname, Grammar.isBlank_of_isNameRest (Grammar.isNameRest_of_isNameStart hc)⟩

theorem sharp_number (x : Float) : Sharp (number x).chars := by
  obtain ⟨c, s, hcons, hc⟩ := (Decimal.shortest .up x).positional_eq_cons
  have hdigit : Sharp (Decimal.shortest .up x).positional := by
    refine ⟨c, s, hcons, Grammar.isBlank_of_isNameRest ?_⟩
    simp [isNameRest, Char.isAlphanum, hc]
  rw [chars_number, Double.text]
  split
  · cases Double.isNegative x with
    | false => exact hdigit
    | true => exact ⟨'-', _, rfl, rfl⟩
  · split
    · cases Double.isNegative x with
      | false => exact sharp_of_isName isName_inf
      | true => exact ⟨'-', _, rfl, rfl⟩
    · exact sharp_of_isName isName_nan

theorem sharp_operand {p : Nat} {e : Expr} (h : Sharp e.chars) : Sharp (operand p e) := by
  rw [operand]
  split
  · exact ⟨'(', _, rfl, rfl⟩
  · exact h

/-- The text of an infix call begins as that of its first operand. -/
theorem chars_joined {op : String} {strength : Nat} (hprec : precedence op = some strength)
    {e : Expr} {es : List Expr} (hes : es ≠ []) (he : Sharp e.chars) :
    (call op (e :: es)).chars =
      operand strength e ++ following (' ' :: op.toList ++ [' ']) (es.map (operand strength)) := by
  rw [chars_of_between (Layout.of_precedence hprec (two_le_length_cons hes)), List.map_cons,
    joinedBy_cons (sharp_operand he)]

theorem exists_precedence_of_binary {op : String} (h : op ∈ ["-", "/", "&", "^"]) :
    ∃ strength, precedence op = some strength := by
  simp only [List.mem_cons, List.not_mem_nil, or_false] at h
  rcases h with rfl | rfl | rfl | rfl <;> exact ⟨_, rfl⟩

theorem exists_precedence_of_run {op : String} (h : op ∈ ["+", "*"]) :
    ∃ strength, precedence op = some strength := by
  simp only [List.mem_cons, List.not_mem_nil, or_false] at h
  rcases h with rfl | rfl <;> exact ⟨_, rfl⟩

theorem precedence_tilde : precedence "~" = some 0 := rfl

theorem exists_cons_of_two_le {args : List Expr} (h : 2 ≤ args.length) :
    ∃ e es, args = e :: es ∧ es ≠ [] := by
  match args, h with
  | e :: f :: es, _ => exact ⟨e, f :: es, rfl, List.cons_ne_nil _ _⟩

/-- Without a left side the text begins with the operator. -/
theorem chars_oneSided {e : Expr} (es : List Expr) :
    (call "~" (.absent :: e :: es)).chars =
      '~' :: ' ' :: operand 0 e ++ following [' ', '~', ' '] (es.map (operand 0)) := by
  rw [chars_of_between (Layout.of_precedence precedence_tilde (by simp)), List.map_cons,
    List.map_cons, joinedBy, joined_cons]
  have habsent : operand 0 .absent = [] := by
    rw [operand, chars_absent]
    rfl
  rw [habsent]
  rfl

theorem chars_leading {op : String} (hop : op = "$" ∨ op = "-") (e : Expr) :
    (call op [e]).chars = op.toList ++ operand leadingStrength e := by
  rw [chars]
  simp [Layout.of_leading hop, operandsUnder_eq_map]

theorem sharp_chars {e : Expr} (h : WellFormed e) : Sharp e.chars := by
  induction h with
  | @symbol name hname =>
      rw [chars_symbol]
      exact sharp_of_isName hname
  | @number x => exact sharp_number x
  | @applied f args hname _ _ =>
      rw [chars_of_applied (hname.layout _)]
      exact (sharp_of_isName hname).append _
  | @escape e _ _ =>
      rw [chars_leading (Or.inl rfl)]
      exact ⟨'$', _, rfl, rfl⟩
  | @minus e _ _ _ =>
      rw [chars_leading (Or.inr rfl)]
      exact ⟨'-', _, rfl, rfl⟩
  | @binary op a b hop _ _ iha _ =>
      obtain ⟨strength, hprec⟩ := exists_precedence_of_binary hop
      rw [chars_joined hprec (by simp) iha]
      exact (sharp_operand iha).append _
  | @run op args hop hlen _ ih =>
      obtain ⟨strength, hprec⟩ := exists_precedence_of_run hop
      obtain ⟨e, es, rfl, hes⟩ := exists_cons_of_two_le hlen
      have he := ih e List.mem_cons_self
      rw [chars_joined hprec hes he]
      exact (sharp_operand he).append _
  | @sides e es hes _ _ ihe _ =>
      rw [chars_joined precedence_tilde hes ihe]
      exact (sharp_operand ihe).append _
  | @oneSided es hes _ _ =>
      cases es with
      | nil => exact absurd rfl hes
      | cons e es =>
          rw [chars_oneSided]
          exact ⟨'~', _, rfl, rfl⟩

/-! ### Calls -/

/-- A name and the texts of arguments in parentheses read as a call. -/
theorem reads_call {name : String} (hname : IsName name) {texts : List (List Char)}
    {es : List Expr} (h : List.Forall₂ (Reads 0) texts es) :
    Reads 4 (name.toList ++ argumentList texts) (.call name es) := by
  intro rest _
  rw [argumentList]
  cases h with
  | nil =>
      rw [List.append_assoc]
      exact .constant (Grammar.gap_refl _) (name_append hname _) (Grammar.gap_refl _)
  | @cons s e texts es hs h =>
      have hargs := arguments_following hs h rest
      have hsplit : name.toList ++ ('(' :: joined [',', ' '] (s :: texts) ++ [')']) ++ rest =
          name.toList ++ '(' :: (s ++ (following [',', ' '] texts ++ ')' :: rest)) := by
        simp [joined_cons]
      rw [hsplit]
      exact .call (Grammar.gap_refl _) (name_append hname _) hargs

theorem reads_applied {f : String} {args : List Expr} (hname : IsName f)
    (h : ∀ e ∈ args, Reads e.line e.chars e.asRead) :
    Reads (call f args).line (call f args).chars (call f args).asRead := by
  have hline : (call f args).line = 4 := by rw [line, hname.layout]
  have hread : (call f args).asRead = .call f (args.map asRead) := by
    rw [asRead_call]
    exact callAsRead_eq_self fun hop => absurd hop (hname.ne rfl rfl)
  have hargs : List.Forall₂ (Reads 0) (args.map chars) (args.map asRead) := by
    rw [List.forall₂_map_left_iff, List.forall₂_map_right_iff, List.forall₂_same]
    intro e he
    exact (h e he).loosen (Nat.zero_le _)
  rw [hline, hread, chars_of_applied (hname.layout _)]
  exact reads_call hname hargs

/-- Operands with an infix operator of a chain between each two. -/
theorem reads_joined (level : Level) (op : Char) (hop : op ∈ level.operators)
    (hprec : precedence op.toString = some level.strength) {e : Expr} {es : List Expr}
    (hes : es ≠ []) (hrun : op = level.collapsing ∨ es.length = 1) (hsharp : Sharp e.chars)
    (h : ∀ f ∈ e :: es, Reads f.line f.chars f.asRead) :
    Reads (call op.toString (e :: es)).line (call op.toString (e :: es)).chars
      (call op.toString (e :: es)).asRead := by
  have hlen : 2 ≤ (e :: es).length := two_le_length_cons hes
  have hread : (call op.toString (e :: es)).asRead =
      .call op.toString (e.asRead :: es.map asRead) := by
    rw [asRead_call, List.map_cons]
    refine callAsRead_eq_self ?_
    intro hpower
    rw [hpower] at hprec
    cases level <;> cases hprec
  have hseparator : ' ' :: op.toString.toList ++ [' '] = [' ', op, ' '] := by simp
  have hstrength : level.strength ≤ 2 := by cases level <;> decide
  have hfirst := reads_operands hstrength h
  rw [List.map_cons, List.map_cons] at hfirst
  cases hfirst with
  | cons he hothers =>
      rw [line_of_layout (Layout.of_precedence hprec hlen), hread, chars_joined hprec hes hsharp,
        hseparator]
      exact reads_chain hop he hothers (by simpa using hes) (by simpa using hrun)

theorem reads_raised {s t : List Char} {e f : Expr} (hs : Reads 4 s e) (ht : Reads 3 t f) :
    Reads 3 (s ++ following [' ', '^', ' '] [t]) (.call "^" [e, f]) := by
  intro rest hrest
  have hbase : Grammar.Atom (s ++ ' ' :: '^' :: ' ' :: (t ++ rest)) e
      (' ' :: '^' :: ' ' :: (t ++ rest)) := hs _ (Or.inl rfl)
  have hexponent : Grammar.Unary (t ++ rest) f rest := ht rest hrest
  have hsplit : s ++ following [' ', '^', ' '] [t] ++ rest =
      s ++ ' ' :: '^' :: ' ' :: (t ++ rest) := by
    simp [following]
  rw [hsplit]
  exact .power (.raised hbase (Grammar.gap_space _) (hexponent.of_gap (Grammar.gap_space _)))

/-- A power reads as a power, and with the base `-0` as the negative of one. -/
theorem reads_power {a b : Expr} (hsharp : Sharp a.chars) (ha : Reads a.line a.chars a.asRead)
    (hb : Reads b.line b.chars b.asRead) :
    Reads (call "^" [a, b]).line (call "^" [a, b]).chars (call "^" [a, b]).asRead := by
  have hprec : precedence "^" = some 3 := rfl
  have hexponent : Reads 3 (operand 3 b) b.asRead :=
    reads_operand hb (by omega) (three_le_line (Nat.le_refl 3))
  have hlen : 2 ≤ [a, b].length := Nat.le_refl 2
  rw [line_of_layout (Layout.of_precedence hprec hlen), asRead_call,
    chars_joined hprec (List.cons_ne_nil _ _) hsharp]
  by_cases hzero : a = .number (-0.0)
  · -- the minus is printed without parentheses, and so it is read after the power
    subst hzero
    have hdigits := reads_digits (show Double.isFinite (-0.0) = true from rfl)
    have hread : callAsRead "^" (List.map asRead [.number (-0.0), b]) =
        negated (.call "^" [.number (Double.absolute (-0.0)), b.asRead]) := by
      rw [List.map_cons, asRead_minusZero, callAsRead_minusZero]
      rfl
    have hchars : operand 3 (.number (-0.0)) =
        '-' :: (Decimal.shortest .up (-0.0)).positional := by
      rw [operand, if_neg (show ¬needsParens 3 (.number (-0.0)) = true from Bool.false_ne_true),
        chars_number, Double.text, if_pos (show Double.isFinite (-0.0) = true from rfl)]
      rfl
    rw [hread, hchars]
    exact reads_minus (reads_raised hdigits hexponent)
  · have hbase : Reads 4 (operand 3 a) a.asRead :=
      reads_operand ha (by omega) fun hparens => lt_line (by omega) hparens fun _ => hzero
    have hread : callAsRead "^" (List.map asRead [a, b]) = .call "^" [a.asRead, b.asRead] := by
      refine callAsRead_eq_self ?_
      rintro - hhead
      simp only [List.map_cons, List.head?_cons, Option.some.injEq] at hhead
      exact hzero (eq_number_of_asRead hhead)
    rw [hread]
    exact reads_raised hbase hexponent

theorem reads_sides {e : Expr} {es : List Expr} (hes : es ≠ []) (hsharp : Sharp e.chars)
    (h : ∀ f ∈ e :: es, Reads f.line f.chars f.asRead) :
    Reads (call "~" (e :: es)).line (call "~" (e :: es)).chars (call "~" (e :: es)).asRead := by
  have hread : (call "~" (e :: es)).asRead = .call "~" (e.asRead :: es.map asRead) := by
    rw [asRead_call]
    exact callAsRead_eq_self fun hop => absurd hop (by decide)
  have hsides := reads_operands (show 0 ≤ 2 by omega) h
  rw [List.map_cons, List.map_cons] at hsides
  cases hsides with
  | cons he hothers =>
      rw [line_of_layout (Layout.of_precedence precedence_tilde (two_le_length_cons hes)), hread,
        chars_joined precedence_tilde hes hsharp]
      exact reads_between he hothers (by simpa using hes)

theorem reads_oneSided {es : List Expr} (hes : es ≠ [])
    (h : ∀ f ∈ es, Reads f.line f.chars f.asRead) :
    Reads (call "~" (.absent :: es)).line (call "~" (.absent :: es)).chars
      (call "~" (.absent :: es)).asRead := by
  have hread : (call "~" (.absent :: es)).asRead = .call "~" (.absent :: es.map asRead) := by
    rw [asRead_call, List.map_cons, asRead_absent]
    exact callAsRead_eq_self fun hop => absurd hop (by decide)
  have hsides := reads_operands (show 0 ≤ 2 by omega) h
  cases es with
  | nil => exact absurd rfl hes
  | cons f fs =>
      rw [line_of_layout (Layout.of_precedence precedence_tilde (by simp)), hread, chars_oneSided]
      simp only [List.map_cons] at hsides ⊢
      cases hsides with
      | cons hf hfs => exact reads_leadingTilde hf hfs

theorem reads_leading {e : Expr} (h : Reads e.line e.chars e.asRead) :
    Reads 3 (operand leadingStrength e) e.asRead :=
  reads_operand h (by decide) (three_le_line (by decide))

/-- **The text of an expression reads as `asRead` says.** -/
theorem reads_chars {e : Expr} (h : WellFormed e) : Reads e.line e.chars e.asRead := by
  induction h with
  | @symbol name hname =>
      rw [chars_symbol, asRead_symbol]
      exact reads_symbol hname
  | @number x => exact reads_number x
  | applied hname _ ih => exact reads_applied hname ih
  | @escape e _ ih =>
      rw [line, List.length_singleton, Layout.of_leading (Or.inl rfl), chars_leading (Or.inl rfl),
        asRead_call, callAsRead_eq_self fun hop => absurd hop (by decide)]
      exact reads_escape (reads_leading ih)
  | @minus e hne _ ih =>
      have hnegated : e.asRead.negated = .call "-" [e.asRead] :=
        negated_eq_call fun x hread => hne x (eq_number_of_asRead hread)
      rw [line, List.length_singleton, Layout.of_leading (Or.inr rfl), chars_leading (Or.inr rfl),
        asRead_call, callAsRead_eq_self fun hop => absurd hop (by decide)]
      rw [List.map_singleton, ← hnegated]
      exact reads_minus (reads_leading ih)
  | @binary op a b hop ha hb iha ihb =>
      have hargs : ∀ f ∈ [a, b], Reads f.line f.chars f.asRead :=
        List.forall_mem_cons.mpr ⟨iha, List.forall_mem_singleton.mpr ihb⟩
      have hsharp := sharp_chars ha
      simp only [List.mem_cons, List.not_mem_nil, or_false] at hop
      rcases hop with rfl | rfl | rfl | rfl
      · exact reads_joined .sum '-' (by decide) rfl (by simp) (Or.inr rfl) hsharp hargs
      · exact reads_joined .product '/' (by decide) rfl (by simp) (Or.inr rfl) hsharp hargs
      · exact reads_joined .product '&' (by decide) rfl (by simp) (Or.inr rfl) hsharp hargs
      · exact reads_power hsharp iha ihb
  | @run op args hop hlen hargs ih =>
      obtain ⟨e, es, rfl, hes⟩ := exists_cons_of_two_le hlen
      have hsharp := sharp_chars (hargs e List.mem_cons_self)
      simp only [List.mem_cons, List.not_mem_nil, or_false] at hop
      rcases hop with rfl | rfl
      · exact reads_joined .sum '+' (by decide) rfl hes (Or.inl rfl) hsharp ih
      · exact reads_joined .product '*' (by decide) rfl hes (Or.inl rfl) hsharp ih
  | sides hes he _ ihe ihes =>
      exact reads_sides hes (sharp_chars he) (List.forall_mem_cons.mpr ⟨ihe, ihes⟩)
  | oneSided hes _ ih => exact reads_oneSided hes ih

/-! ### Whole texts -/

theorem parse_of_reads {n : Nat} {s : List Char} {e : Expr} (h : Reads n s e) :
    parse (String.ofList s) = .ok e := by
  refine Grammar.parse_of_derives ⟨[], ?_, by simp⟩
  have hline := h.loosen (Nat.zero_le _) [] trivial
  rw [List.append_nil] at hline
  rw [String.toList_ofList]
  exact hline

theorem parse_text {e : Expr} (h : WellFormed e) : parse e.text = .ok e.asRead :=
  parse_of_reads (reads_chars h)

/-- **Display and parse are inverse just on legible expressions.** -/
theorem parse_text_iff_legible (e : Expr) (h : WellFormed e) :
    (∃ f, parse e.text = .ok f ∧ (f == e) = true) ↔ e.Legible := by
  rw [← agrees_asRead_iff h, parse_text h]
  constructor
  · rintro ⟨f, hf, hagrees⟩
    cases hf
    exact hagrees
  · intro hagrees
    exact ⟨e.asRead, rfl, hagrees⟩

/-- A negative base and a negative exponent are put in parentheses and read back. -/
theorem parse_text_negative_power :
    ∃ f, parse (call "^" [.call "-" [.symbol "a"], .number (-2.0)]).text = .ok f ∧
      (f == call "^" [.call "-" [.symbol "a"], .number (-2.0)]) = true := by
  have hbase : WellFormed (.call "-" [.symbol "a"]) :=
    .minus (fun _ => by simp) (.symbol (isName_of_all rfl rfl rfl))
  refine (parse_text_iff_legible _ (.binary (by decide) hbase .number)).mpr ?_
  have hminus : (call "-" [.symbol "a"]).Legible :=
    legible_call_iff.mpr ⟨by simp, List.forall_mem_singleton.mpr (legible_symbol "a")⟩
  have hnumber : (number (-2.0)).Legible := legible_number_iff.mpr rfl
  exact legible_call_iff.mpr
    ⟨by simp, List.forall_mem_cons.mpr ⟨hminus, List.forall_mem_singleton.mpr hnumber⟩⟩

end Expr

end ModelFormula
