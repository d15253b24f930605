import ModelFormula.Proofs.Grammar.Continuations
import ModelFormula.Proofs.Printing.RoundTrip

/-!
# The longest expression at the start of a text

What the parser takes off the front of a text stands on its own, and no longer start of the text is
an expression, but for blanks behind it.  There is one exception: `info(` is read as the number that
`inf` stands for, though `inf` on its own is a variable, and `info` a longer one.

* `Expr.IsLongest` — the longest start of a text that is an expression, with its tree;
* `Expr.LeavesName` — what is left begins with the end of a name, and **up to there the text is an
  expression with this name as one more variable**;
* `Expr.parsePart_isLongest_iff` — **the longest expression is read just if no name is left.**
-/

set_option autoImplicit false

namespace ModelFormula

namespace Expr

open Grammar

/-! ### Parts of texts -/

/-- A start of a text that is an expression and does not end with a blank, while a longer start is
one only if blanks follow. -/
structure IsLongest (s p : List Char) (e : Expr) : Prop where
  isPrefix : p <+: s
  endsSharp : EndsSharp p
  parse_eq : parse (String.ofList p) = .ok e
  blank_of_longer : ∀ q m, q <+: s → p.length < q.length → parse (String.ofList q) = .ok m →
    ∃ blanks, q = p ++ blanks ∧ ∀ c ∈ blanks, isBlank c = true

/-- The rest of a name and a parenthesis are left behind a start of a text; together with the rest
of the name this start is an expression in which the name is read as one more variable. -/
def LeavesName (p : List Char) (e : Expr) (rest : List Char) : Prop :=
  ∃ cs q m name, rest = cs ++ '(' :: q ∧ (∀ c ∈ cs, isNameRest c = true) ∧
    parse (String.ofList (p ++ cs)) = .ok m ∧ m.symbols = e.symbols ++ [name]

theorem parse_of_reading_tilde {p rest : List Char} {e : Expr}
    (h : reading (tilde p) = some (e, rest)) (hrest : ∀ c ∈ rest, isBlank c = true) :
    parse (String.ofList p) = .ok e :=
  parse_eq_ok_iff.mpr ⟨rest, by rwa [String.toList_ofList], hrest⟩

theorem reading_tilde_of_parse {p : List Char} {e : Expr}
    (h : parse (String.ofList p) = .ok e) :
    ∃ rest, reading (tilde p) = some (e, rest) ∧ ∀ c ∈ rest, isBlank c = true := by
  obtain ⟨rest, hread, hrest⟩ := parse_eq_ok_iff.mp h
  exact ⟨rest, by rwa [String.toList_ofList] at hread, hrest⟩

section

variable {w rest : List Char} {e : Expr}

/-- A reading that is kept is that of the longest expression, and leaves no name. -/
theorem isLongest_of_kept (hsharp : EndsSharp w)
    (h : Kept (Ends afterTilde) (fun x => reading (tilde x)) w e rest) :
    IsLongest (w ++ rest) w e ∧ ¬LeavesName w e rest := by
  have hkept : ∀ r, r <+: rest → reading (tilde (w ++ r)) = some (e, r) := fun r hr => h r (.inl hr)
  refine ⟨⟨List.prefix_append w rest, hsharp, ?_, ?_⟩, ?_⟩
  · have hread := hkept [] List.nil_prefix
    rw [List.append_nil] at hread
    exact parse_of_reading_tilde hread nofun
  · intro q m hq hlt hm
    obtain ⟨r, rfl⟩ := List.prefix_of_prefix_length_le (List.prefix_append w rest) hq
      (Nat.le_of_lt hlt)
    obtain ⟨rest', hread, hblank⟩ := reading_tilde_of_parse hm
    rw [hkept r ((List.prefix_append_right_inj w).mp hq)] at hread
    cases hread
    exact ⟨r, rfl, hblank⟩
  · rintro ⟨cs, q, m, name, rfl, -, hm, hsymbols⟩
    obtain ⟨rest', hread, -⟩ := reading_tilde_of_parse hm
    rw [hkept cs (List.prefix_append cs _)] at hread
    cases hread
    exact absurd (congrArg List.length hsymbols) (by simp)

/-- Where a name is left, a longer start is an expression, or the same one is another expression on
its own. -/
theorem not_isLongest_of_leavesName {s : List Char} (hs : s = w ++ rest)
    (h : LeavesName w e rest) : ¬IsLongest s w e := by
  obtain ⟨cs, q, m, name, rfl, hcs, hm, hsymbols⟩ := h
  intro hlongest
  cases cs with
  | nil =>
      rw [List.append_nil, hlongest.parse_eq] at hm
      cases hm
      exact absurd (congrArg List.length hsymbols) (by simp)
  | cons c cs =>
      obtain ⟨blanks, hsplit, hblank⟩ := hlongest.blank_of_longer (w ++ c :: cs) m
        ⟨'(' :: q, by rw [hs, List.append_assoc]⟩ (by simp) hm
      obtain rfl := List.append_cancel_left hsplit
      have hc := isBlank_of_isNameRest (hcs c List.mem_cons_self)
      rw [hblank c List.mem_cons_self] at hc
      cases hc

/-- No name is left where the next character does not go on with one. -/
theorem not_leavesName_of_nameEnds (h : NameEnds rest) : ¬LeavesName w e rest := by
  rintro ⟨cs, q, m, name, rfl, hcs, -, -⟩
  cases cs with
  | nil => exact absurd (h '(' q rfl) (by decide)
  | cons c cs =>
      have hc := (isNameEnd_iff.mp (h c _ rfl)).1
      rw [hcs c List.mem_cons_self] at hc
      cases hc

end

/-- **The parser takes the longest expression off the front of a text just if it leaves no name.**
It always takes a start of the text that does not end with a blank; unless what is left begins with
the end of a name and a parenthesis and the text up to there is an expression with this name as one
more variable, the start is on its own the expression that was read, and a longer start is an
expression only if blanks follow. -/
theorem parsePart_isLongest_iff {s : List Char} {t : Taken s.length Expr}
    (h : parsePart s = .ok t) : ∃ p, s = p ++ t.rest ∧ EndsSharp p ∧
      (IsLongest s p t.value ↔ ¬LeavesName p t.value t.rest) := by
  have hread : reading (tilde s) = some (t.value, t.rest) := by
    change reading (parsePart s) = _
    rw [h, reading_ok]
  obtain ⟨w, hs, hsharp, hkept | hmisread⟩ :=
    (continuing _ s (Nat.lt_succ_self _)).tilde _ _ hread
  · obtain ⟨hlongest, hleaves⟩ := isLongest_of_kept hsharp hkept
    rw [← hs] at hlongest
    exact ⟨w, hs, hsharp, iff_of_true hlongest hleaves⟩
  · obtain ⟨cs, q, m, name, hrest, hcs, hcut, hsymbols⟩ := hmisread
    have hleaves : LeavesName w t.value t.rest :=
      ⟨cs, q, m, name, hrest, hcs, parse_of_reading_tilde hcut nofun, hsymbols⟩
    exact ⟨w, hs, hsharp,
      iff_of_false (not_isLongest_of_leavesName hs hleaves) (not_not_intro hleaves)⟩

theorem exists_parsePart {s rest : List Char} {e : Expr}
    (h : reading (tilde s) = some (e, rest)) :
    ∃ t, parsePart s = .ok t ∧ t.value = e ∧ t.rest = rest := by
  rw [parsePart]
  cases ht : tilde s with
  | error err =>
      rw [ht] at h
      cases h
  | ok t =>
      rw [ht] at h
      cases h
      exact ⟨t, rfl, rfl, rfl⟩

theorem isName_a : IsName "a" := isName_of_all rfl rfl rfl

theorem isName_b : IsName "b" := isName_of_all rfl rfl rfl

/-- The expression `a + b` is the longest at the start of `a + b) * c`. -/
theorem parsePart_isLongest_sum : ∃ t, parsePart "a + b) * c".toList = .ok t ∧
    IsLongest "a + b) * c".toList "a + b".toList t.value := by
  have ha : Reads (Level.sum.strength + 1) "a".toList (.symbol "a") :=
    (reads_symbol isName_a).loosen (by decide)
  have hb : Reads (Level.sum.strength + 1) "b".toList (.symbol "b") :=
    (reads_symbol isName_b).loosen (by decide)
  have hplus : '+' ∈ Level.sum.operators := List.mem_cons_self
  have hchain : Reads 1 "a + b".toList (.call "+" [.symbol "a", .symbol "b"]) :=
    reads_chain hplus ha (.cons hb .nil) (by simp) (.inl rfl)
  have hsum := hchain.loosen (Nat.zero_le 1)
  have htilde : Tilde "a + b) * c".toList (.call "+" [.symbol "a", .symbol "b"]) ") * c".toList :=
    hsum _ (.inr (.inr rfl))
  obtain ⟨t, ht, -, hrest⟩ := exists_parsePart
    (htilde.reading (ends_of_punct (gap_refl _) rfl rfl (by decide)))
  obtain ⟨p, hs, -, hiff⟩ := parsePart_isLongest_iff ht
  rw [hrest] at hs hiff
  have hsplit : "a + b".toList ++ ") * c".toList = p ++ ") * c".toList := hs
  obtain rfl := List.append_cancel_right hsplit
  refine ⟨t, ht, hiff.mpr ?_⟩
  exact not_leavesName_of_nameEnds (nameEnds_of_punct (gap_refl _) rfl)

/-! ### Texts that begin with an atom -/

/-- An atom with no operator before or behind it is an expression. -/
theorem reading_tilde_of_atom {s rest : List Char} {e : Expr}
    (h : reading (atom s) = some (e, rest)) (hfirst : NoPunct ['~', '-', '$'] s)
    (hrest : NoPunct afterTilde rest) : reading (tilde s) = some (e, rest) := by
  have hunary : reading (unary s) = some (e, rest) := by
    have hsigns : NoPunct ['-', '$'] s := hfirst.of_subset (by decide)
    have hcaret : NoPunct ['^'] rest := hrest.of_subset (by decide)
    rw [reading_unary, hsigns.reading_takePunct, reading_power, h]
    simp only [Option.bind_eq_bind, Option.bind_some, hcaret.reading_takePunct]
  have hchain : ∀ level, level.operators ⊆ afterTilde →
      reading (operandOf level s) = some (e, rest) → reading (chain level s) = some (e, rest) := by
    intro level hsub hoperand
    rw [reading_chain, hoperand]
    simp only [Option.bind_eq_bind, Option.bind_some]
    rw [reading_chainFrom, (hrest.of_subset hsub).reading_takePunct]
  have hproduct : reading (chain .product s) = some (e, rest) :=
    hchain .product (by decide) (by rw [reading_operandOf]; exact hunary)
  have hsum : reading (chain .sum s) = some (e, rest) :=
    hchain .sum (by decide) (by rw [reading_operandOf]; exact hproduct)
  have htildes : NoPunct ['~'] s ∧ NoPunct ['~'] rest :=
    ⟨hfirst.of_subset (by decide), hrest.of_subset (by decide)⟩
  rw [reading_tilde, htildes.1.reading_takePunct, hsum]
  simp only [Option.bind_eq_bind, Option.bind_some, htildes.2.reading_takePunct]

/-- Without an operator before it, an expression begins with an atom. -/
theorem exists_reading_atom {s rest : List Char} {e : Expr}
    (h : reading (tilde s) = some (e, rest)) (hfirst : NoPunct ['~', '-', '$'] s) :
    ∃ v r, reading (atom s) = some (v, r) := by
  have htilde : NoPunct ['~'] s := hfirst.of_subset (by decide)
  have hsigns : NoPunct ['-', '$'] s := hfirst.of_subset (by decide)
  rw [reading_tilde, htilde.reading_takePunct] at h
  obtain ⟨⟨e₁, r₁⟩, h₁, -⟩ := Option.bind_eq_some_iff.mp h
  rw [reading_chain, reading_operandOf] at h₁
  obtain ⟨⟨e₂, r₂⟩, h₂, -⟩ := Option.bind_eq_some_iff.mp h₁
  dsimp only at h₂
  rw [reading_chain, reading_operandOf] at h₂
  obtain ⟨⟨e₃, r₃⟩, h₃, -⟩ := Option.bind_eq_some_iff.mp h₂
  dsimp only at h₃
  rw [reading_unary, hsigns.reading_takePunct] at h₃
  dsimp only at h₃
  rw [reading_power] at h₃
  obtain ⟨⟨v, r⟩, hatom, -⟩ := Option.bind_eq_some_iff.mp h₃
  exact ⟨v, r, hatom⟩

/-! ### A name that is left -/

theorem reading_eq_none_of_nil {n : Nat} {α : Type} (h : n = 0)
    (r : Except Failure (Taken n α)) : reading r = none := by
  rw [Option.eq_none_iff_forall_not_mem]
  rintro ⟨v, rest⟩ hv
  have hlt := length_lt_of_reading hv
  omega

/-- Of `info(` the number that `inf` stands for is read, though `info` is a longer expression. -/
theorem parsePart_info : ∃ t, parsePart "info(".toList = .ok t ∧
    t.value = .number Double.infinity ∧ t.rest = "o(".toList ∧
    ¬∃ p, "info(".toList = p ++ t.rest ∧ IsLongest "info(".toList p t.value := by
  have hatom : reading (atom "info(".toList) = some (.number Double.infinity, "o(".toList) := by
    have hgroup : reading (group "info(".toList) = none := reading_group_eq_none (by simp)
    have hcall : reading (callOrSymbol "info(".toList) = none := by
      rw [reading_callOrSymbol]
      change reading (arguments []) >>= _ = none
      rw [reading_eq_none_of_nil rfl]
      rfl
    have hskip : skipGaps "info(".toList = "info(".toList := rfl
    rw [reading_atom, hskip, hgroup, hcall]
    rfl
  have hfirst : NoPunct ['~', '-', '$'] "info(".toList :=
    noPunct_of_skipGaps (c := 'i') rfl (by decide)
  have hlast : NoPunct afterTilde "o(".toList := noPunct_of_skipGaps (c := 'o') rfl (by decide)
  obtain ⟨t, ht, hvalue, hrest⟩ := exists_parsePart (reading_tilde_of_atom hatom hfirst hlast)
  refine ⟨t, ht, hvalue, hrest, ?_⟩
  rintro ⟨p, hs, hlongest⟩
  rw [hrest] at hs
  have hpart : "inf".toList ++ "o(".toList = p ++ "o(".toList := hs
  obtain rfl := List.append_cancel_right hpart
  have hinfo : parse (String.ofList "info".toList) = .ok (.symbol "info") :=
    parse_of_reads (reads_symbol (isName_of_all rfl rfl rfl))
  have hsplit : "info(".toList = "inf".toList ++ "o(".toList := rfl
  refine not_isLongest_of_leavesName hsplit ?_ hlongest
  exact ⟨['o'], [], .symbol "info", "info", rfl, List.forall_mem_singleton.mpr rfl, hinfo,
    by rw [hvalue]; rfl⟩

end Expr

end ModelFormula
