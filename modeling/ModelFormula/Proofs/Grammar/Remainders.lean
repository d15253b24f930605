import ModelFormula.Proofs.Grammar.Readers

/-!
# What the readers leave

What a reader leaves of a text is an end of the text.  Readers go on with what others have left, so
this is carried through the grammar like soundness: by induction on the length of the text.

* `Leaves` — a reading that leaves an end of a text, with a rule for two readings one after the
  other (`Leaves.bind`);
* `Numeral.leaves_take?` — numerals leave an end of a text;
* `Expr.Ending` — the readers that others call, at one text;
* `Expr.ending` — **all of them leave an end of the text**;
* `Expr.trailing_suffix` — what is left over behind an expression is an end of the input.
-/

set_option autoImplicit false

namespace ModelFormula

/-- What is left by a reading, if there is one, is an end of a text. -/
def Leaves {α : Type} (s : List Char) (r : Option (α × List Char)) : Prop :=
  ∀ v rest, r = some (v, rest) → rest <:+ s

section

variable {α β : Type} {s t : List Char} {n : Nat}

theorem leaves_none : Leaves s (none : Option (α × List Char)) := nofun

theorem leaves_some {v : α} (h : t <:+ s) : Leaves s (some (v, t)) := by
  intro w rest heq
  cases heq
  exact h

/-- An end of an end of a text is one of the text. -/
theorem Leaves.mono {r : Option (α × List Char)} (h : Leaves t r) (hts : t <:+ s) : Leaves s r :=
  fun v rest hr => (h v rest hr).trans hts

/-- One reading after the other. -/
theorem Leaves.bind {out : Except Failure (Taken n α)} {f : α × List Char → Option (β × List Char)}
    (h : Leaves s (reading out))
    (hf : ∀ v rest, rest <:+ s → rest.length < n → Leaves s (f (v, rest))) :
    Leaves s (reading out >>= f) := by
  intro w rest hbind
  obtain ⟨⟨v, r⟩, hout, hr⟩ := Option.bind_eq_some_iff.mp hbind
  exact hf v r (h v r hout) (length_lt_of_reading hout) w rest hr

end

/-! ### Tokens -/

theorem leaves_takePunct (set s : List Char) : Leaves s (reading (takePunct set s)) := by
  intro c rest h
  have hskip := (reading_takePunct_eq_some_iff.mp h).1
  have hsuffix : skipGaps s <:+ s := List.dropWhile_suffix isGap
  rw [hskip] at hsuffix
  exact (List.suffix_cons c rest).trans hsuffix

theorem leaves_takeOpening (s : List Char) : Leaves s (reading (takeOpening s)) := by
  intro u rest h
  rw [eq_cons_of_reading_takeOpening h]
  exact List.suffix_cons _ _

theorem leaves_takeName (s : List Char) : Leaves s (reading (takeName s)) := by
  cases s with
  | nil => exact leaves_none
  | cons c t =>
      cases hc : isNameStart c with
      | true =>
          rw [reading_takeName_cons hc]
          exact leaves_some ((List.dropWhile_suffix _).trans (List.suffix_cons c t))
      | false =>
          rw [reading_takeName_eq_none (stops_cons t hc)]
          exact leaves_none

/-! ### Numerals -/

theorem takeSign_suffix (s : List Char) : (takeSign s).2 <:+ s := by
  unfold takeSign
  split
  · exact List.suffix_cons _ _
  · exact List.suffix_cons _ _
  · exact List.suffix_rfl

namespace Decimal

theorem takeFraction_suffix (s : List Char) : (takeFraction s).2 <:+ s := by
  unfold takeFraction
  split
  · exact (List.dropWhile_suffix _).trans (List.suffix_cons _ _)
  · exact List.suffix_rfl

theorem leaves_takePower? (s : List Char) : Leaves s (takePower? s) := by
  cases s with
  | nil => exact leaves_some List.suffix_rfl
  | cons c s =>
      rw [takePower?]
      split
      · dsimp only
        split
        · exact leaves_none
        · refine leaves_some ?_
          have hdigits := List.dropWhile_suffix Char.isDigit (l := (takeSign s).2)
          exact (hdigits.trans (takeSign_suffix s)).trans (List.suffix_cons c s)
      · exact leaves_some List.suffix_rfl

theorem leaves_take? (s : List Char) : Leaves s (take? s) := by
  unfold take?
  dsimp only
  split
  · exact leaves_none
  · split
    · exact leaves_none
    · rename_i power rest hpower
      have hfraction := takeFraction_suffix (s.dropWhile Char.isDigit)
      have hwhole := List.dropWhile_suffix Char.isDigit (l := s)
      exact leaves_some (((leaves_takePower? _ _ _ hpower).trans hfraction).trans hwhole)

end Decimal

namespace Numeral

theorem dropName?_suffix {name s rest : List Char} (h : dropName? name s = some rest) :
    rest <:+ s := by
  induction name generalizing s with
  | nil =>
      cases h
      exact List.suffix_rfl
  | cons c name ih =>
      cases s with
      | nil => cases h
      | cons d s =>
          rw [dropName?] at h
          split at h
          · exact (ih h).trans (List.suffix_cons d s)
          · cases h

theorem leaves_unsigned? (s : List Char) : Leaves s (unsigned? s) := by
  intro x rest h
  unfold unsigned? at h
  split at h
  · rename_i found hfound
    obtain ⟨n, -, hmap⟩ := List.exists_of_findSome?_eq_some hfound
    obtain ⟨r, hr, hrest⟩ := Option.map_eq_some_iff.mp hmap
    cases h
    cases hrest
    exact dropName?_suffix hr
  · obtain ⟨p, hp, hrest⟩ := Option.map_eq_some_iff.mp h
    cases hrest
    exact Decimal.leaves_take? s p.1 p.2 hp

theorem leaves_take? (s : List Char) : Leaves s (take? s) := by
  intro x rest h
  obtain ⟨p, hp, hrest⟩ := Option.map_eq_some_iff.mp h
  cases hrest
  exact (leaves_unsigned? _ p.1 p.2 hp).trans (takeSign_suffix s)

end Numeral

/-! ### The lines of the grammar -/

namespace Expr

/-- The readers that go on with a shorter text leave an end of a text. -/
structure Ending (s : List Char) : Prop where
  tilde : Leaves s (reading (tilde s))
  sides : Leaves s (reading (sides s))
  operand : ∀ level, Leaves s (reading (operandOf level s))
  steps : ∀ level acc previous, Leaves s (reading (chainFrom level acc previous s))
  unary : Leaves s (reading (unary s))
  arguments : Leaves s (reading (argumentsFrom s))

section

variable {s : List Char}

theorem leaves_group (ih : ∀ t, t.length < s.length → Ending t) : Leaves s (reading (group s)) := by
  rw [reading_group]
  refine (leaves_takeOpening s).bind fun _ r hr hlt => ?_
  refine ((ih r hlt).tilde.mono hr).bind fun e r' hr' _ => ?_
  refine ((leaves_takePunct _ r').mono hr').bind fun _ rest hrest _ => ?_
  exact leaves_some hrest

theorem leaves_callOrSymbol (ih : ∀ t, t.length < s.length → Ending t) :
    Leaves s (reading (callOrSymbol s)) := by
  rw [reading_callOrSymbol]
  refine (leaves_takeName s).bind fun name r hr hlt => ?_
  dsimp only
  split
  · exact leaves_some hr
  · rename_i u r' hopen
    have hr' := (leaves_takeOpening r u r' hopen).trans hr
    have hlt' := Nat.lt_trans (length_lt_of_reading hopen) hlt
    refine Leaves.bind (Leaves.mono ?_ hr') fun args rest hrest _ => leaves_some hrest
    rw [reading_arguments]
    split
    · rename_i c rest hclose
      exact leaves_some (leaves_takePunct _ _ _ _ hclose)
    · exact (ih r' hlt').arguments

theorem leaves_atom (ih : ∀ t, t.length < s.length → Ending t) : Leaves s (reading (atom s)) := by
  have hgaps : skipGaps s <:+ s := List.dropWhile_suffix isGap
  have ih' : ∀ t, t.length < (skipGaps s).length → Ending t :=
    fun t ht => ih t (Nat.lt_of_lt_of_le ht hgaps.length_le)
  rw [reading_atom]
  refine Leaves.mono ?_ hgaps
  split
  · rename_i p hgroup
    exact hgroup ▸ leaves_group ih'
  · split
    · rename_i p hcall
      exact hcall ▸ leaves_callOrSymbol ih'
    · rw [← reading_takeNumber]
      refine Leaves.bind ?_ fun x rest hrest _ => leaves_some hrest
      rw [reading_takeNumber]
      exact Numeral.leaves_take? _

theorem leaves_power (ih : ∀ t, t.length < s.length → Ending t) :
    Leaves s (reading (power s)) := by
  rw [reading_power]
  refine (leaves_atom ih).bind fun base r hr hlt => ?_
  dsimp only
  split
  · exact leaves_some hr
  · rename_i c r' hop
    have hr' := (leaves_takePunct _ _ _ _ hop).trans hr
    have hlt' := Nat.lt_trans (length_lt_of_reading hop) hlt
    exact ((ih r' hlt').unary.mono hr').bind fun e rest hrest _ => leaves_some hrest

theorem leaves_unary (ih : ∀ t, t.length < s.length → Ending t) :
    Leaves s (reading (unary s)) := by
  rw [reading_unary]
  split
  · exact leaves_power ih
  · rename_i op r hop
    have hr := leaves_takePunct _ _ _ _ hop
    have hlt := length_lt_of_reading hop
    exact ((ih r hlt).unary.mono hr).bind fun e rest hrest _ => leaves_some hrest

theorem leaves_chainFrom (ih : ∀ t, t.length < s.length → Ending t) (level : Level) (acc : Expr)
    (previous : Option Char) : Leaves s (reading (chainFrom level acc previous s)) := by
  rw [reading_chainFrom]
  split
  · exact leaves_some List.suffix_rfl
  · rename_i op r hop
    have hr := leaves_takePunct _ _ _ _ hop
    have hlt := length_lt_of_reading hop
    refine (((ih r hlt).operand level).mono hr).bind fun e r' hr' hlt' => ?_
    exact ((ih r' (Nat.lt_trans hlt' hlt)).steps level _ _).mono hr'

/-- A chain leaves an end of the text if its operands do. -/
theorem leaves_chain (ih : ∀ t, t.length < s.length → Ending t) {level : Level}
    (h : Leaves s (reading (operandOf level s))) : Leaves s (reading (chain level s)) := by
  rw [reading_chain]
  refine h.bind fun first r hr hlt => ?_
  exact ((ih r hlt).steps level first none).mono hr

theorem leaves_operandOf (ih : ∀ t, t.length < s.length → Ending t) (level : Level) :
    Leaves s (reading (operandOf level s)) := by
  have hproduct : Leaves s (reading (operandOf .product s)) := by
    rw [reading_operandOf]
    exact leaves_unary ih
  cases level with
  | sum =>
      rw [reading_operandOf]
      exact leaves_chain ih hproduct
  | product => exact hproduct

theorem leaves_sides (ih : ∀ t, t.length < s.length → Ending t) :
    Leaves s (reading (sides s)) := by
  rw [reading_sides]
  refine (leaves_chain ih (leaves_operandOf ih .sum)).bind fun e r hr hlt => ?_
  dsimp only
  split
  · exact leaves_some hr
  · rename_i c r' hop
    have hr' := (leaves_takePunct _ _ _ _ hop).trans hr
    have hlt' := Nat.lt_trans (length_lt_of_reading hop) hlt
    exact ((ih r' hlt').sides.mono hr').bind fun es rest hrest _ => leaves_some hrest

theorem leaves_tilde (ih : ∀ t, t.length < s.length → Ending t) :
    Leaves s (reading (tilde s)) := by
  rw [reading_tilde]
  split
  · rename_i c r hop
    have hr := leaves_takePunct _ _ _ _ hop
    have hlt := length_lt_of_reading hop
    exact ((ih r hlt).sides.mono hr).bind fun es rest hrest _ => leaves_some hrest
  · refine (leaves_chain ih (leaves_operandOf ih .sum)).bind fun e r hr hlt => ?_
    dsimp only
    split
    · exact leaves_some hr
    · rename_i c r' hop
      have hr' := (leaves_takePunct _ _ _ _ hop).trans hr
      have hlt' := Nat.lt_trans (length_lt_of_reading hop) hlt
      exact ((ih r' hlt').sides.mono hr').bind fun es rest hrest _ => leaves_some hrest

theorem leaves_argumentsFrom (ih : ∀ t, t.length < s.length → Ending t) :
    Leaves s (reading (argumentsFrom s)) := by
  rw [reading_argumentsFrom]
  refine (leaves_tilde ih).bind fun e r hr hlt => ?_
  refine ((leaves_takePunct _ r).mono hr).bind fun separator r' hr' hlt' => ?_
  dsimp only
  split
  · exact leaves_some hr'
  · refine ((ih r' (Nat.lt_trans hlt' hlt)).arguments.mono hr').bind fun es rest hrest _ => ?_
    exact leaves_some hrest

end

/-- **All readers leave an end of the text.** -/
theorem ending (n : Nat) : ∀ s : List Char, s.length < n → Ending s := by
  induction n with
  | zero =>
      intro s hs
      exact absurd hs (Nat.not_lt_zero _)
  | succ n ih =>
      intro s hs
      have hshorter : ∀ t : List Char, t.length < s.length → Ending t :=
        fun t ht => ih t (by omega)
      exact {
        tilde := leaves_tilde hshorter
        sides := leaves_sides hshorter
        operand := leaves_operandOf hshorter
        steps := leaves_chainFrom hshorter
        unary := leaves_unary hshorter
        arguments := leaves_argumentsFrom hshorter }

theorem ending_all (s : List Char) : Ending s := ending _ s (Nat.lt_succ_self _)

/-! ### Whole texts -/

/-- What is left behind an expression, blanks at its start aside, is what is reported. -/
theorem parse_of_reading {input : String} {e : Expr} {rest more : List Char} {c : Char}
    (h : reading (tilde input.toList) = some (e, rest)) (hmore : trimStart rest = c :: more) :
    parse input = .error ⟨byteLength input.toList - byteLength (c :: more),
      .trailing (String.ofList (c :: more))⟩ := by
  simp only [parse, parsePart]
  cases ht : tilde input.toList with
  | error err =>
      rw [ht] at h
      cases h
  | ok t =>
      rw [ht] at h
      cases h
      simp only [hmore]

/-- **What is left over behind an expression is an end of the input.** -/
theorem trailing_suffix {input text : String} {offset : Nat}
    (h : parse input = .error ⟨offset, .trailing text⟩) : text.toList <:+ input.toList := by
  have htilde := (ending_all input.toList).tilde
  simp only [parse, parsePart] at h
  cases ht : Expr.tilde input.toList with
  | error err =>
      rw [ht] at h
      cases h
  | ok t =>
      rw [ht] at h htilde
      have hrest : t.rest <:+ input.toList := htilde t.value t.rest rfl
      dsimp only at h
      split at h
      · cases h
      · cases h
        rw [String.toList_ofList]
        exact (List.dropWhile_suffix isBlank).trans hrest

end Expr

end ModelFormula
