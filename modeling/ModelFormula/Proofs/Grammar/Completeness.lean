import ModelFormula.Proofs.Grammar.Soundness

/-!
# What is derivable is read

The readers are greedy, and a derivation need not be: it may end a name early, or leave an operator
where a chain could go on.  What stands behind an expression in a whole text rules that out, so
that no derivation of a whole text is lost.

* `Grammar.Ends` — nothing that an expression could go on with;
* `Grammar.Tilde.reading`, `Grammar.Chain.reading`, … — a derivation before such a rest is read,
  **by induction on the derivation**, one case for each rule;
* `Grammar.parse_iff_derives` — **a text is read as an expression just if it derives it, and it
  derives no other.**
-/

set_option autoImplicit false

namespace ModelFormula

namespace Grammar

/-! ### What follows an expression -/

/-- A text in which a name before it would not go on, and would not be that of a call. -/
def NameEnds (s : List Char) : Prop := ∀ c t, s = c :: t → isNameEnd c = true

theorem NameEnds.spec {s : List Char} (h : NameEnds s) :
    Stops isNameRest s ∧ reading (takeOpening s) = none := by
  refine ⟨fun c t hs => (isNameEnd_iff.mp (h c t hs)).1, reading_takeOpening_eq_none ?_⟩
  intro t hs
  exact (isNameEnd_iff.mp (h '(' t hs)).2 rfl

/-- Neither the rest of a name nor, behind gaps, one of the operators `ops`. -/
def Ends (ops s : List Char) : Prop := NameEnds s ∧ NoPunct ops s

theorem Ends.of_subset {ops sub s : List Char} (h : Ends ops s) (hsub : sub ⊆ ops) :
    Ends sub s :=
  ⟨h.1, h.2.of_subset hsub⟩

/-- The operators that could go on with an operand of a chain. -/
def afterOperand : Level → List Char
  | .sum => ['*', '/', '&', '^']
  | .product => ['^']

/-- The operators that could go on with a chain. -/
def afterChain (level : Level) : List Char := level.operators ++ afterOperand level

/-- The operators that could go on with an expression. -/
def afterTilde : List Char := '~' :: afterChain .sum

theorem nameEnds_of_punct {s rest : List Char} {c : Char} (h : Punct c s rest)
    (hc : isNameEnd c = true) : NameEnds s := by
  obtain ⟨gaps, hgaps, rfl⟩ := h
  intro d t hd
  cases gaps with
  | nil =>
      cases hd
      exact hc
  | cons g gaps =>
      have hg := hgaps g List.mem_cons_self
      cases hd
      rcases eq_of_isGap hg with rfl | rfl | rfl | rfl <;> rfl

theorem ends_of_punct {ops s rest : List Char} {c : Char} (h : Punct c s rest)
    (hc : isNameEnd c = true) (hgap : isGap c = false) (hops : c ∉ ops) :
    Ends ops s :=
  ⟨nameEnds_of_punct h hc, h.noPunct hgap hops⟩

/-- Nothing goes on after an expression with only blanks behind it. -/
theorem ends_of_blank {ops s : List Char} (h : ∀ c ∈ s, isBlank c = true)
    (hops : ops.any isBlank = false) : Ends ops s := by
  constructor
  · intro c t hs
    have hc := h c (hs ▸ List.mem_cons_self)
    rw [isNameEnd_iff]
    constructor
    · cases hn : isNameRest c with
      | false => rfl
      | true =>
          rw [isBlank_of_isNameRest hn] at hc
          cases hc
    · rintro rfl
      exact absurd hc (by decide)
  · intro c rest hskip hmem
    have hc : c ∈ skipGaps s := hskip ▸ List.mem_cons_self
    exact List.any_eq_false.mp hops c hmem (h c ((List.dropWhile_suffix isGap).subset hc))

theorem operators_disjoint {level : Level} {c : Char} (h : c ∈ level.operators) :
    isGap c = false ∧ c ∉ afterOperand level := by
  cases level with
  | sum =>
      simp only [Level.operators, List.mem_cons, List.not_mem_nil, or_false] at h
      rcases h with rfl | rfl <;> exact ⟨rfl, by decide⟩
  | product =>
      simp only [Level.operators, List.mem_cons, List.not_mem_nil, or_false] at h
      rcases h with rfl | rfl | rfl <;> exact ⟨rfl, by decide⟩

/-- An operator of a chain ends the operand before it. -/
theorem Steps.ends {level : Level} {s rest : List Char} {steps : List (Char × Expr)}
    (h : Steps level s steps rest) (hends : Ends (afterChain level) rest) :
    Ends (afterOperand level) s := by
  cases h with
  | nil => exact hends.of_subset (List.subset_append_right ..)
  | cons hmem hop _ _ =>
      obtain ⟨hgap, hafter⟩ := operators_disjoint hmem
      exact ends_of_punct hop (List.all_eq_true.mp (all_operators level) _ hmem) hgap hafter

/-- A tilde ends the sum before it. -/
theorem Sides.ends {s rest : List Char} {es : List Expr} (h : Sides s es rest) :
    Ends (afterChain .sum) s := by
  cases h with
  | last hop _ => exact ends_of_punct hop rfl rfl (by decide)
  | cons hop _ _ => exact ends_of_punct hop rfl rfl (by decide)

/-! ### First characters -/

theorem Arguments.noPunct {s rest : List Char} {es : List Expr} (h : Arguments s es rest) :
    NoPunct [')'] s := by
  cases h with
  | last htilde _ => exact htilde.noPunct
  | cons htilde _ _ => exact htilde.noPunct

theorem reading_group_eq_none {s : List Char} (h : ∀ rest, s ≠ '(' :: rest) :
    reading (Expr.group s) = none := by
  rw [Expr.reading_group, reading_takeOpening_eq_none h]
  rfl

/-- No group stands where a name does. -/
theorem Name.reading_group {s rest : List Char} {name : String} (h : Name s name rest) :
    reading (Expr.group s) = none := by
  obtain ⟨c, cs, rfl, -, hc, -⟩ := h
  refine reading_group_eq_none ?_
  intro rest heq
  obtain ⟨rfl, -⟩ := List.cons.inj heq
  exact absurd hc (by decide)

/-- Neither a group nor a name stands where a number does. -/
theorem Number.reading_others {s rest : List Char} {x : Float} (h : Number s x rest) :
    reading (Expr.group s) = none ∧ reading (Expr.callOrSymbol s) = none := by
  obtain ⟨c, t, rfl, hc, hname, -⟩ := h.eq_cons
  constructor
  · refine reading_group_eq_none ?_
    intro rest heq
    obtain ⟨rfl, -⟩ := List.cons.inj heq
    exact hc (by decide)
  · rw [Expr.reading_callOrSymbol, reading_takeName_eq_none (stops_cons t hname)]
    rfl

/-! ### Derivations are read -/

mutual

theorem Tilde.reading : ∀ {s rest : List Char} {e : Expr}, Tilde s e rest →
    Ends afterTilde rest → reading (Expr.tilde s) = some (e, rest)
  | s, rest, e, .sum hchain, hends => by
    have hfirst : NoPunct ['~'] s := hchain.noPunct.of_subset (by decide)
    have hlast : NoPunct ['~'] rest := hends.2.of_subset (by decide)
    have hread := Chain.reading hchain (hends.of_subset (by decide))
    rw [Expr.reading_tilde, hfirst.reading_takePunct, hread]
    dsimp only [Option.bind_eq_bind, Option.bind_some]
    rw [hlast.reading_takePunct]
  | s, rest, _, .between hchain hsides, hends => by
    have hfirst : NoPunct ['~'] s := hchain.noPunct.of_subset (by decide)
    have hlhs := Chain.reading hchain hsides.ends
    obtain ⟨r, hop, hrhs⟩ := Sides.reading hsides hends
    rw [Expr.reading_tilde, hfirst.reading_takePunct, hlhs]
    dsimp only [Option.bind_eq_bind, Option.bind_some]
    rw [hop]
    dsimp only
    rw [hrhs]
    rfl
  | s, rest, _, .leading hsides, hends => by
    obtain ⟨r, hop, hrhs⟩ := Sides.reading hsides hends
    rw [Expr.reading_tilde, hop]
    dsimp only
    rw [hrhs]
    rfl

theorem Sides.reading : ∀ {s rest : List Char} {es : List Expr}, Sides s es rest →
    Ends afterTilde rest → ∃ r, reading (takePunct ['~'] s) = some ('~', r) ∧
      reading (Expr.sides r) = some (es, rest)
  | s, rest, _, .last (r := r) hop hchain, hends => by
    have hlast : NoPunct ['~'] rest := hends.2.of_subset (by decide)
    have hread := Chain.reading hchain (hends.of_subset (by decide))
    refine ⟨r, hop.reading_takePunct rfl (by decide), ?_⟩
    rw [Expr.reading_sides, hread]
    dsimp only [Option.bind_eq_bind, Option.bind_some]
    rw [hlast.reading_takePunct]
  | s, rest, _, .cons (r := r) hop hchain hsides, hends => by
    have hside := Chain.reading hchain hsides.ends
    obtain ⟨r', hop', hothers⟩ := Sides.reading hsides hends
    refine ⟨r, hop.reading_takePunct rfl (by decide), ?_⟩
    rw [Expr.reading_sides, hside]
    dsimp only [Option.bind_eq_bind, Option.bind_some]
    rw [hop']
    dsimp only
    rw [hothers]
    rfl

theorem Chain.reading : ∀ {level : Level} {s rest : List Char} {e : Expr}, Chain level s e rest →
    Ends (afterChain level) rest → reading (Expr.chain level s) = some (e, rest)
  | level, s, rest, _, .mk hoperand hsteps, hends => by
    have hfirst := Operand.reading hoperand (hsteps.ends hends)
    rw [Expr.reading_chain, hfirst]
    -- before the first operator the tree need not be a call
    exact Steps.reading hsteps hends (by simp)

theorem Steps.reading : ∀ {level : Level} {s rest : List Char} {steps : List (Char × Expr)},
    Steps level s steps rest → Ends (afterChain level) rest →
      ∀ {acc : Expr} {previous : Option Char}, (previous ≠ none → acc.isCall = true) →
        reading (Expr.chainFrom level acc previous s) =
          some (grown level acc previous steps, rest)
  | level, s, _, _, .nil, hends, acc, previous, _ => by
    -- a chain that ends here does so because no operator of its level follows
    have hlast : NoPunct level.operators s := hends.2.of_subset (List.subset_append_left ..)
    rw [Expr.reading_chainFrom, hlast.reading_takePunct]
    rfl
  | level, s, rest, _, .cons hmem hop hoperand hsteps, hends, acc, previous, hacc => by
    have hread := Operand.reading hoperand (hsteps.ends hends)
    rw [Expr.reading_chainFrom, hop.reading_takePunct (operators_disjoint hmem).1 hmem]
    dsimp only [Option.bind_eq_bind]
    rw [hread, grown_cons hacc]
    exact Steps.reading hsteps hends fun _ => isCall_extended ..

theorem Operand.reading : ∀ {level : Level} {s rest : List Char} {e : Expr},
    Operand level s e rest → Ends (afterOperand level) rest →
      reading (Expr.operandOf level s) = some (e, rest)
  | _, s, rest, e, .product hchain, hends => by
    rw [Expr.reading_operandOf]
    exact Chain.reading hchain hends
  | _, s, rest, e, .unary hunary, hends => by
    rw [Expr.reading_operandOf]
    exact Unary.reading hunary hends

theorem Unary.reading : ∀ {s rest : List Char} {e : Expr}, Unary s e rest → Ends ['^'] rest →
    reading (Expr.unary s) = some (e, rest)
  | s, rest, _, .minus hop hunary, hends => by
    rw [Expr.reading_unary, hop.reading_takePunct rfl (by decide)]
    dsimp only
    rw [Unary.reading hunary hends]
    rfl
  | s, rest, _, .escape hop hunary, hends => by
    rw [Expr.reading_unary, hop.reading_takePunct rfl (by decide)]
    dsimp only
    rw [Unary.reading hunary hends]
    rfl
  | s, rest, e, .power hpower, hends => by
    have hfirst : NoPunct ['-', '$'] s := hpower.noPunct.of_subset (by decide)
    rw [Expr.reading_unary, hfirst.reading_takePunct]
    exact Power.reading hpower hends

theorem Power.reading : ∀ {s rest : List Char} {e : Expr}, Power s e rest → Ends ['^'] rest →
    reading (Expr.power s) = some (e, rest)
  | s, rest, e, .atom hatom, hends => by
    rw [Expr.reading_power, Atom.reading hatom hends.1]
    dsimp only [Option.bind_eq_bind, Option.bind_some]
    rw [hends.2.reading_takePunct]
  | s, rest, _, .raised hatom hop hunary, hends => by
    rw [Expr.reading_power, Atom.reading hatom (nameEnds_of_punct hop rfl)]
    dsimp only [Option.bind_eq_bind, Option.bind_some]
    rw [hop.reading_takePunct rfl (by decide)]
    dsimp only
    rw [Unary.reading hunary hends]
    rfl

theorem Atom.reading : ∀ {s rest : List Char} {e : Expr}, Atom s e rest → NameEnds rest →
    reading (Expr.atom s) = some (e, rest)
  | s, rest, e, .group hopen htilde hclose, _ => by
    have hinner := Tilde.reading htilde (ends_of_punct hclose rfl rfl (by decide))
    have hgroup : reading (Expr.group (skipGaps s)) = some (e, rest) := by
      rw [skipGaps_of_punct hopen rfl, Expr.reading_group, reading_takeOpening_cons]
      dsimp only [Option.bind_eq_bind, Option.bind_some]
      rw [hinner, Option.bind_some, hclose.reading_takePunct rfl (by decide), Option.bind_some]
    rw [Expr.reading_atom, hgroup]
  | s, rest, _, .constant hgap hname hclose, _ => by
    -- the parenthesis that follows the name directly ends it
    rw [Expr.reading_atom, skipGaps_of_name hgap hname, hname.reading_group,
      Expr.reading_callOrSymbol, reading_takeName_of_name hname (stops_cons _ rfl)]
    dsimp only [Option.bind_eq_bind, Option.bind_some]
    rw [reading_takeOpening_cons]
    dsimp only
    rw [Expr.reading_arguments, hclose.reading_takePunct rfl (by decide)]
    rfl
  | s, rest, _, .call hgap hname hargs, _ => by
    rw [Expr.reading_atom, skipGaps_of_name hgap hname, hname.reading_group,
      Expr.reading_callOrSymbol, reading_takeName_of_name hname (stops_cons _ rfl)]
    dsimp only [Option.bind_eq_bind, Option.bind_some]
    rw [reading_takeOpening_cons]
    dsimp only
    rw [Expr.reading_arguments, hargs.noPunct.reading_takePunct]
    dsimp only
    rw [Arguments.reading hargs]
    rfl
  | s, rest, _, .symbol hgap hname, hends => by
    obtain ⟨hrest, hopen⟩ := hends.spec
    rw [Expr.reading_atom, skipGaps_of_name hgap hname, hname.reading_group,
      Expr.reading_callOrSymbol, reading_takeName_of_name hname hrest]
    dsimp only [Option.bind_eq_bind, Option.bind_some]
    rw [hopen]
  | s, rest, _, .number hgap hnumber, _ => by
    obtain ⟨hgroup, hcall⟩ := hnumber.reading_others
    rw [Expr.reading_atom, skipGaps_of_number hgap hnumber, hgroup, hcall, hnumber.1]
    rfl

theorem Arguments.reading : ∀ {s rest : List Char} {es : List Expr}, Arguments s es rest →
    reading (Expr.argumentsFrom s) = some (es, rest)
  | s, rest, _, .last htilde hclose => by
    have harg := Tilde.reading htilde (ends_of_punct hclose rfl rfl (by decide))
    rw [Expr.reading_argumentsFrom, harg]
    dsimp only [Option.bind_eq_bind, Option.bind_some]
    rw [hclose.reading_takePunct rfl (by decide), Option.bind_some, if_pos rfl]
  | s, rest, _, .cons htilde hcomma hargs => by
    have harg := Tilde.reading htilde (ends_of_punct hcomma rfl rfl (by decide))
    rw [Expr.reading_argumentsFrom, harg]
    dsimp only [Option.bind_eq_bind, Option.bind_some]
    rw [hcomma.reading_takePunct rfl (by decide), Option.bind_some]
    dsimp only
    rw [if_neg (by decide), Arguments.reading hargs]
    rfl

end

/-! ### Whole texts -/

theorem parse_of_derives {input : String} {e : Expr} (h : Derives input e) :
    Expr.parse input = .ok e := by
  obtain ⟨rest, htilde, hblank⟩ := h
  have hends : Ends afterTilde rest := ends_of_blank hblank rfl
  exact Expr.parse_eq_ok_iff.mpr ⟨rest, htilde.reading hends, hblank⟩

/-- **A text is read as an expression just if it derives it, and it derives no other.** -/
theorem parse_iff_derives :
    (∀ input e, Expr.parse input = .ok e ↔ Derives input e) ∧
      ∀ input e f, Derives input e → Derives input f → e = f := by
  constructor
  · intro input e
    exact ⟨derives_of_parse, parse_of_derives⟩
  · intro input e f he hf
    have hef := (parse_of_derives he).symm.trans (parse_of_derives hf)
    exact Except.ok.inj hef

end Grammar

end ModelFormula
