import ModelFormula.Proofs.Grammar.Tokens

/-!
# What is read is derivable

Whatever a reader reads is an instance of its rule, with one exception: where the arguments of a
call cannot be read, an atom falls back on a numeral, so that `inf(` reads as a number with the
parenthesis left over.  No rule allows that, but nothing can follow it either.

* `Grammar.Faithful` — a reading that the rules allow, or that leaves a spoiled name;
* `Grammar.Sound` — the readers that others call, at one text;
* `Grammar.sound` — **they are sound at every text**, by induction on its length;
* `Grammar.derives_of_parse` — **a text that is read as an expression derives it.**
-/

set_option autoImplicit false

namespace ModelFormula

namespace Grammar

/-- A reading is allowed by a rule, unless it leaves a spoiled name. -/
def Faithful {α : Type} (rule : α → List Char → Prop) (r : Option (α × List Char)) : Prop :=
  ∀ v rest, r = some (v, rest) → rule v rest ∨ Spoiled rest

/-- The readers that go on with a shorter text are sound at a text. -/
structure Sound (s : List Char) : Prop where
  tilde : Faithful (Tilde s) (reading (Expr.tilde s))
  sides : ∀ t, Punct '~' t s → Faithful (Sides t) (reading (Expr.sides s))
  operand : ∀ level, Faithful (Operand level s) (reading (Expr.operandOf level s))
  steps : ∀ level acc previous, (previous ≠ none → acc.isCall = true) →
    Faithful (fun e rest => ∃ steps, Steps level s steps rest ∧ grown level acc previous steps = e)
      (reading (Expr.chainFrom level acc previous s))
  unary : Faithful (Unary s) (reading (Expr.unary s))
  arguments : ∀ args rest, reading (Expr.argumentsFrom s) = some (args, rest) →
    Arguments s args rest

section

variable {s : List Char}

/-! ### Atoms -/

theorem group_sound (ih : ∀ t, t.length < s.length → Sound t) {e : Expr} {rest : List Char}
    (h : reading (Expr.group (skipGaps s)) = some (e, rest)) : Atom s e rest := by
  rw [Expr.reading_group] at h
  simp only [Option.bind_eq_bind, Option.bind_eq_some_iff, Prod.exists] at h
  obtain ⟨_, r, hopen, e', r', htilde, c, rest', hclose, h⟩ := h
  cases h
  have hs := eq_cons_of_reading_takeOpening hopen
  have hlt := Nat.lt_of_lt_of_le (length_lt_of_reading hopen) (length_skipGaps_le s)
  rcases (ih r hlt).tilde _ _ htilde with hrule | hspoiled
  · exact .group (punct_of_skipGaps hs) hrule (punct_of_reading_single hclose)
  · rw [hspoiled.reading_takePunct rfl] at hclose
    cases hclose

theorem callOrSymbol_sound (ih : ∀ t, t.length < s.length → Sound t) {e : Expr}
    {rest : List Char} (h : reading (Expr.callOrSymbol (skipGaps s)) = some (e, rest)) :
    Atom s e rest := by
  rw [Expr.reading_callOrSymbol] at h
  simp only [Option.bind_eq_bind, Option.bind_eq_some_iff, Prod.exists] at h
  obtain ⟨name, r, hname, h⟩ := h
  have hrule := name_of_reading_takeName hname
  have hlt := Nat.lt_of_lt_of_le (length_lt_of_reading hname) (length_skipGaps_le s)
  cases hopen : reading (takeOpening r) with
  | none =>
      simp only [hopen] at h
      cases h
      exact .symbol (gap_skipGaps s) hrule
  | some opening =>
      obtain ⟨_, r'⟩ := opening
      have hr := eq_cons_of_reading_takeOpening hopen
      have hlt' := Nat.lt_trans (length_lt_of_reading hopen) hlt
      simp only [hopen, Option.bind_eq_some_iff, Prod.exists] at h
      obtain ⟨args, rest', hargs, h⟩ := h
      cases h
      rw [hr] at hrule
      rw [Expr.reading_arguments] at hargs
      cases hclose : reading (takePunct [')'] r') with
      | some closing =>
          obtain ⟨c, r''⟩ := closing
          rw [hclose] at hargs
          cases hargs
          exact .constant (gap_skipGaps s) hrule (punct_of_reading_single hclose)
      | none =>
          rw [hclose] at hargs
          exact .call (gap_skipGaps s) hrule ((ih r' hlt').arguments _ _ hargs)

/-- A name that cannot be read as a call leaves its own rest where it begins with a numeral. -/
theorem number_sound (hminus : NoPunct ['-'] s) {x : Float} {rest : List Char}
    (hcall : reading (Expr.callOrSymbol (skipGaps s)) = none)
    (h : Numeral.take? (skipGaps s) = some (x, rest)) :
    Atom s (.number x) rest ∨ Spoiled rest := by
  cases hs : skipGaps s with
  | nil =>
      rw [hs] at h
      cases h
  | cons c t =>
      rw [hs] at h hcall
      by_cases hc : isNameStart c = true
      · -- the name was read, so it was the parenthesis that led to arguments that cannot be read
        refine Or.inr ?_
        have hsplit : c :: t = c :: t.takeWhile isNameRest ++ t.dropWhile isNameRest := by
          rw [List.cons_append, List.takeWhile_append_dropWhile]
        rw [Expr.reading_callOrSymbol, reading_takeName_cons hc] at hcall
        dsimp only [Option.bind_eq_bind, Option.bind_some] at hcall
        cases hopen : reading (takeOpening (t.dropWhile isNameRest)) with
        | none =>
            rw [hopen] at hcall
            cases hcall
        | some opening =>
            obtain ⟨_, r⟩ := opening
            rw [hsplit, eq_cons_of_reading_takeOpening hopen] at h
            exact spoiled_of_take? hc (List.all_eq_true.mp List.all_takeWhile) h
      · refine Or.inl (.number (gap_skipGaps s) ?_)
        rw [hs]
        refine ⟨h, stops_cons t ?_⟩
        have hne : c ≠ '-' := fun heq => hminus c t hs (heq ▸ List.mem_singleton_self c)
        simp [hc, hne]

theorem atom_sound (ih : ∀ t, t.length < s.length → Sound t) (hminus : NoPunct ['-'] s) :
    Faithful (Atom s) (reading (Expr.atom s)) := by
  intro e rest h
  rw [Expr.reading_atom] at h
  cases hgroup : reading (Expr.group (skipGaps s)) with
  | some p =>
      rw [hgroup] at h
      cases h
      exact Or.inl (group_sound ih hgroup)
  | none =>
      simp only [hgroup] at h
      cases hcall : reading (Expr.callOrSymbol (skipGaps s)) with
      | some p =>
          rw [hcall] at h
          cases h
          exact Or.inl (callOrSymbol_sound ih hcall)
      | none =>
          simp only [hcall, Option.bind_eq_bind, Option.bind_eq_some_iff, Prod.exists] at h
          obtain ⟨x, rest', htake, h⟩ := h
          cases h
          exact number_sound hminus hcall htake

/-! ### Operands -/

theorem power_sound (ih : ∀ t, t.length < s.length → Sound t) (hminus : NoPunct ['-'] s) :
    Faithful (Power s) (reading (Expr.power s)) := by
  intro e rest h
  rw [Expr.reading_power] at h
  simp only [Option.bind_eq_bind, Option.bind_eq_some_iff, Prod.exists] at h
  obtain ⟨base, r, hbase, h⟩ := h
  have hlt := length_lt_of_reading hbase
  rcases atom_sound ih hminus _ _ hbase with hrule | hspoiled
  · cases hop : reading (takePunct ['^'] r) with
    | none =>
        rw [hop] at h
        cases h
        exact Or.inl (.atom hrule)
    | some op =>
        obtain ⟨c, r'⟩ := op
        simp only [hop, Option.bind_eq_some_iff, Prod.exists] at h
        obtain ⟨f, rest', hunary, h⟩ := h
        cases h
        have hcaret := punct_of_reading_single hop
        have hlt' := Nat.lt_trans (length_lt_of_reading hop) hlt
        exact ((ih r' hlt').unary _ _ hunary).imp_left (.raised hrule hcaret)
  · -- no operator is found behind a spoiled name, so it is left as it is
    rw [hspoiled.reading_takePunct rfl] at h
    cases h
    exact Or.inr hspoiled

theorem unary_sound (ih : ∀ t, t.length < s.length → Sound t) :
    Faithful (Unary s) (reading (Expr.unary s)) := by
  intro e rest h
  rw [Expr.reading_unary] at h
  cases hop : reading (takePunct ['-', '$'] s) with
  | none =>
      rw [hop] at h
      have hminus : NoPunct ['-', '$'] s := reading_takePunct_eq_none_iff.mp hop
      exact (power_sound ih (hminus.of_subset (by decide)) _ _ h).imp_left .power
  | some op =>
      obtain ⟨c, r⟩ := op
      simp only [hop, Option.bind_eq_bind, Option.bind_eq_some_iff, Prod.exists] at h
      obtain ⟨f, rest', hunary, h⟩ := h
      cases h
      obtain ⟨hpunct, hmem⟩ := punct_of_reading_takePunct hop
      have hlt := length_lt_of_reading hop
      refine ((ih r hlt).unary _ _ hunary).imp_left fun hrule => ?_
      rcases List.mem_cons.mp hmem with rfl | hmem
      · exact .minus hpunct hrule
      · obtain rfl := List.mem_singleton.mp hmem
        exact .escape hpunct hrule

/-! ### Chains -/

/-- No operator of a chain goes on with a name. -/
theorem all_operators (level : Level) : level.operators.all isNameEnd = true := by
  cases level <;> rfl

theorem steps_sound (ih : ∀ t, t.length < s.length → Sound t) (level : Level) (acc : Expr)
    (previous : Option Char) (hacc : previous ≠ none → acc.isCall = true) :
    Faithful (fun e rest => ∃ steps, Steps level s steps rest ∧ grown level acc previous steps = e)
      (reading (Expr.chainFrom level acc previous s)) := by
  intro e rest h
  rw [Expr.reading_chainFrom] at h
  cases hop : reading (takePunct level.operators s) with
  | none =>
      rw [hop] at h
      cases h
      exact Or.inl ⟨[], .nil, rfl⟩
  | some op =>
      obtain ⟨op, r⟩ := op
      simp only [hop, Option.bind_eq_bind, Option.bind_eq_some_iff, Prod.exists] at h
      obtain ⟨f, r', hoperand, h⟩ := h
      obtain ⟨hpunct, hmem⟩ := punct_of_reading_takePunct hop
      have hlt := length_lt_of_reading hop
      have hlt' := Nat.lt_trans (length_lt_of_reading hoperand) hlt
      rcases (ih r hlt).operand level _ _ hoperand with hrule | hspoiled
      · refine ((ih r' hlt').steps level _ _ (fun _ => isCall_extended ..) _ _ h).imp_left ?_
        rintro ⟨steps, hsteps, rfl⟩
        exact ⟨(op, f) :: steps, .cons hmem hpunct hrule hsteps, grown_cons hacc⟩
      · rw [Expr.reading_chainFrom, hspoiled.reading_takePunct (all_operators level)] at h
        cases h
        exact Or.inr hspoiled

/-- A chain is sound if its operand is, for its steps stand in a shorter text. -/
theorem chain_sound (ih : ∀ t, t.length < s.length → Sound t) (level : Level)
    (hoperand : Faithful (Operand level s) (reading (Expr.operandOf level s))) :
    Faithful (Chain level s) (reading (Expr.chain level s)) := by
  intro e rest h
  rw [Expr.reading_chain] at h
  simp only [Option.bind_eq_bind, Option.bind_eq_some_iff, Prod.exists] at h
  obtain ⟨first, r, hfirst, h⟩ := h
  have hlt := length_lt_of_reading hfirst
  rcases hoperand _ _ hfirst with hrule | hspoiled
  · refine ((ih r hlt).steps level _ _ (by simp) _ _ h).imp_left ?_
    rintro ⟨steps, hsteps, rfl⟩
    exact .mk hrule hsteps
  · rw [Expr.reading_chainFrom, hspoiled.reading_takePunct (all_operators level)] at h
    cases h
    exact Or.inr hspoiled

theorem operand_sound (ih : ∀ t, t.length < s.length → Sound t) (level : Level) :
    Faithful (Operand level s) (reading (Expr.operandOf level s)) := by
  have hproduct : Faithful (Operand .product s) (reading (Expr.operandOf .product s)) := by
    intro e rest h
    rw [Expr.reading_operandOf] at h
    exact (unary_sound ih _ _ h).imp_left .unary
  cases level with
  | product => exact hproduct
  | sum =>
      intro e rest h
      rw [Expr.reading_operandOf] at h
      exact (chain_sound ih .product hproduct _ _ h).imp_left .product

/-! ### Sides and arguments -/

theorem sides_sound (ih : ∀ t, t.length < s.length → Sound t) {t : List Char}
    (ht : Punct '~' t s) : Faithful (Sides t) (reading (Expr.sides s)) := by
  intro es rest h
  rw [Expr.reading_sides] at h
  simp only [Option.bind_eq_bind, Option.bind_eq_some_iff, Prod.exists] at h
  obtain ⟨e, r, hchain, h⟩ := h
  have hlt := length_lt_of_reading hchain
  rcases chain_sound ih .sum (operand_sound ih .sum) _ _ hchain with hrule | hspoiled
  · cases hop : reading (takePunct ['~'] r) with
    | none =>
        rw [hop] at h
        cases h
        exact Or.inl (.last ht hrule)
    | some op =>
        obtain ⟨c, r'⟩ := op
        simp only [hop, Option.bind_eq_some_iff, Prod.exists] at h
        obtain ⟨es', rest', hsides, h⟩ := h
        cases h
        have htilde := punct_of_reading_single hop
        have hlt' := Nat.lt_trans (length_lt_of_reading hop) hlt
        exact ((ih r' hlt').sides r htilde _ _ hsides).imp_left (.cons ht hrule)
  · rw [hspoiled.reading_takePunct rfl] at h
    cases h
    exact Or.inr hspoiled

theorem tilde_sound (ih : ∀ t, t.length < s.length → Sound t) :
    Faithful (Tilde s) (reading (Expr.tilde s)) := by
  intro e rest h
  rw [Expr.reading_tilde] at h
  cases hleading : reading (takePunct ['~'] s) with
  | some op =>
      obtain ⟨c, r⟩ := op
      simp only [hleading, Option.bind_eq_bind, Option.bind_eq_some_iff, Prod.exists] at h
      obtain ⟨es, rest', hsides, h⟩ := h
      cases h
      have htilde := punct_of_reading_single hleading
      have hlt := length_lt_of_reading hleading
      exact ((ih r hlt).sides s htilde _ _ hsides).imp_left .leading
  | none =>
      simp only [hleading, Option.bind_eq_bind, Option.bind_eq_some_iff, Prod.exists] at h
      obtain ⟨lhs, r, hchain, h⟩ := h
      have hlt := length_lt_of_reading hchain
      rcases chain_sound ih .sum (operand_sound ih .sum) _ _ hchain with hrule | hspoiled
      · cases hop : reading (takePunct ['~'] r) with
        | none =>
            rw [hop] at h
            cases h
            exact Or.inl (.sum hrule)
        | some op =>
            obtain ⟨c, r'⟩ := op
            simp only [hop, Option.bind_eq_some_iff, Prod.exists] at h
            obtain ⟨es, rest', hsides, h⟩ := h
            cases h
            have htilde := punct_of_reading_single hop
            have hlt' := Nat.lt_trans (length_lt_of_reading hop) hlt
            exact ((ih r' hlt').sides r htilde _ _ hsides).imp_left (.between hrule)
      · rw [hspoiled.reading_takePunct rfl] at h
        cases h
        exact Or.inr hspoiled

/-- What follows arguments is not spoiled: they end with a parenthesis. -/
theorem arguments_sound (ih : ∀ t, t.length < s.length → Sound t) {args : List Expr}
    {rest : List Char} (h : reading (Expr.argumentsFrom s) = some (args, rest)) :
    Arguments s args rest := by
  rw [Expr.reading_argumentsFrom] at h
  simp only [Option.bind_eq_bind, Option.bind_eq_some_iff, Prod.exists] at h
  obtain ⟨e, r, htilde, separator, r', hseparator, h⟩ := h
  have hlt := length_lt_of_reading htilde
  have hlt' := Nat.lt_trans (length_lt_of_reading hseparator) hlt
  rcases tilde_sound ih _ _ htilde with hrule | hspoiled
  · obtain ⟨hpunct, hmem⟩ := punct_of_reading_takePunct hseparator
    split at h
    · rename_i hclose
      subst hclose
      cases h
      exact .last hrule hpunct
    · rename_i hclose
      have hcomma : separator = ',' := by
        rcases List.mem_cons.mp hmem with hcomma | hmem
        · exact hcomma
        · exact absurd (List.mem_singleton.mp hmem) hclose
      subst hcomma
      simp only [Option.bind_eq_some_iff, Prod.exists] at h
      obtain ⟨es, rest', hargs, h⟩ := h
      cases h
      exact .cons hrule hpunct ((ih r' hlt').arguments _ _ hargs)
  · rw [hspoiled.reading_takePunct rfl] at hseparator
    cases hseparator

end

/-! ### Whole texts -/

/-- **Whatever is read is derivable, or a spoiled name is left.** -/
theorem sound (n : Nat) : ∀ s : List Char, s.length < n → Sound s := by
  -- the readers call each other at shorter texts only, in a circle
  induction n with
  | zero =>
      intro s hs
      exact absurd hs (Nat.not_lt_zero _)
  | succ n ih =>
      intro s hs
      have hshorter : ∀ t : List Char, t.length < s.length → Sound t :=
        fun t ht => ih t (by omega)
      exact {
        tilde := tilde_sound hshorter
        sides := fun t ht => sides_sound hshorter ht
        operand := operand_sound hshorter
        steps := steps_sound hshorter
        unary := unary_sound hshorter
        arguments := fun _ _ h => arguments_sound hshorter h }

/-- **A text that is read as an expression derives it.** -/
theorem derives_of_parse {input : String} {e : Expr} (h : Expr.parse input = .ok e) :
    Derives input e := by
  obtain ⟨rest, hread, hblank⟩ := Expr.parse_eq_ok_iff.mp h
  rcases (sound _ _ (Nat.lt_succ_self _)).tilde _ _ hread with hrule | hspoiled
  · exact ⟨rest, hrule, hblank⟩
  · exact absurd hblank hspoiled.not_blank

end Grammar

end ModelFormula
