import ModelFormula.Proofs.Grammar.Balance
import ModelFormula.Proofs.Grammar.Remainders

/-!
# Where reading fails

Every reader fails where an atom is missing: at a place where no parenthesis is open, and with a
number as what was looked for last.  A fault inside a group or inside the arguments of a call does
not come out, because the atom is then tried as something else; what comes out is that the whole
group, or the whole call, is none.

* `Expr.NoAtom` — **what can stand where an atom is missing**: a group or a call that cannot be read
  to its end, or nothing that an atom begins with;
* `Expr.MissesAtom` — a failure at such a place;
* `Expr.missing` — whenever a reader fails, an atom is missing, by induction on the length;
* `Expr.parse_error_place` — **where a text is refused, and in which words.**
-/

set_option autoImplicit false

namespace ModelFormula

open Grammar

namespace Expr

/-! ### Missing atoms -/

/-- No atom stands at the start of a text: a group begins that cannot be read, or a call whose
arguments cannot be read, or neither a parenthesis nor a name stands there; and no numeral does. -/
def NoAtom (s : List Char) : Prop :=
  Numeral.take? s = none ∧
    ((∃ r, s = '(' :: r ∧ reading (group s) = none) ∨
      (∃ name r, Name s name ('(' :: r) ∧ reading (arguments r) = none) ∨
      Stops (fun c => c == '(' || isNameStart c) s)

/-- A failure where no atom stands, behind a balanced start of a text and its gaps. -/
structure MissesAtom (s : List Char) (f : Failure) : Prop where
  expected_eq : f.expected = .number
  past : Past s f.rest
  sharp : Stops isGap f.rest
  noAtom : NoAtom f.rest

/-- Whenever a reader fails at a text, an atom is missing. -/
def Misses {n : Nat} {α : Type} (s : List Char) (out : Except Failure (Taken n α)) : Prop :=
  ∀ f, out = .error f → MissesAtom s f

theorem MissesAtom.behind {s t : List Char} {f : Failure} (hst : Past s t) (h : MissesAtom t f) :
    MissesAtom s f where
  expected_eq := h.expected_eq
  past := hst.trans h.past
  sharp := h.sharp
  noAtom := h.noAtom

theorem sound_all (s : List Char) : Sound s := sound _ s (Nat.lt_succ_self _)

section

variable {s : List Char}

/-- A name is a variable unless a parenthesis follows it, so it was the arguments that could not be
read. -/
theorem exists_arguments_of_callOrSymbol {c : Char} {t : List Char} (hc : isNameStart c = true)
    (h : reading (callOrSymbol (c :: t)) = none) :
    ∃ name r, Name (c :: t) name ('(' :: r) ∧ reading (arguments r) = none := by
  have hname := reading_takeName_cons (s := t) hc
  have hrule := name_of_reading_takeName hname
  rw [reading_callOrSymbol, hname] at h
  dsimp only [Option.bind_eq_bind, Option.bind_some] at h
  cases hopen : reading (takeOpening (t.dropWhile isNameRest)) with
  | none =>
      rw [hopen] at h
      cases h
  | some opening =>
      obtain ⟨_, r⟩ := opening
      rw [eq_cons_of_reading_takeOpening hopen] at hrule
      simp only [hopen, Option.bind_eq_none_iff] at h
      refine ⟨_, r, hrule, ?_⟩
      rw [Option.eq_none_iff_forall_not_mem]
      rintro ⟨args, rest⟩ hargs
      exact absurd (h _ hargs) (by simp)

theorem noAtom_of_reading (hgroup : reading (group s) = none)
    (hcall : reading (callOrSymbol s) = none) (hnumber : Numeral.take? s = none) : NoAtom s := by
  refine ⟨hnumber, ?_⟩
  cases s with
  | nil => exact .inr (.inr nofun)
  | cons c t =>
      by_cases hopen : c = '('
      · subst hopen
        exact .inl ⟨t, rfl, hgroup⟩
      · by_cases hname : isNameStart c = true
        · exact .inr (.inl (exists_arguments_of_callOrSymbol hname hcall))
        · exact .inr (.inr (stops_cons t (by simp [hopen, hname])))

theorem misses_atom (s : List Char) : Misses s (atom s) := by
  intro f h
  rw [atom] at h
  cases hgroup : group (skipGaps s) with
  | ok t => simp only [hgroup, reduceCtorEq] at h
  | error e =>
      cases hcall : callOrSymbol (skipGaps s) with
      | ok t => simp only [hgroup, hcall, reduceCtorEq] at h
      | error e =>
          cases hnumber : takeNumber (skipGaps s) with
          | ok t => simp only [hgroup, hcall, hnumber, reduceCtorEq] at h
          | error e =>
              simp only [hgroup, hcall, hnumber, Except.error.injEq] at h
              obtain rfl := h
              obtain rfl := failure_of_takeNumber hnumber
              refine ⟨rfl, (gap_skipGaps s).past, stops_dropWhile isGap s, ?_⟩
              refine noAtom_of_reading (by rw [hgroup]; rfl) (by rw [hcall]; rfl) ?_
              rw [← reading_takeNumber, hnumber]
              rfl

/-! ### The lines of the grammar -/

/-- The readers that go on with a shorter text miss an atom whenever they fail. -/
structure Missing (s : List Char) : Prop where
  sides : Misses s (sides s)
  operand : ∀ level, Misses s (operandOf level s)
  steps : ∀ level acc previous, Misses s (chainFrom level acc previous s)
  unary : Misses s (unary s)

/-- An operator is passed with the gaps before it. -/
theorem past_of_takePunct {set t : List Char} {op : Taken t.length Char}
    (hop : takePunct set t = .ok op) (hset : set.all isNameEnd = true) (hclose : ')' ∉ set) :
    Past t op.rest := by
  obtain ⟨hpunct, hmem⟩ := punct_of_reading_takePunct (by rw [hop, reading_ok])
  refine hpunct.past ⟨(isNameEnd_iff.mp (List.all_eq_true.mp hset _ hmem)).2, ?_⟩
  intro hvalue
  exact hclose (hvalue ▸ hmem)

/-- What is read before an operator is allowed by its rule, and the operator is passed with it. -/
theorem past_of_faithful {α : Type} {n : Nat} {rule : α → List Char → Prop}
    {out : Except Failure (Taken n α)} {t : Taken n α} {set : List Char}
    {op : Taken t.rest.length Char} (h : Faithful rule (reading out))
    (hrule : ∀ v r, rule v r → Past s r) (hout : out = .ok t) (hop : takePunct set t.rest = .ok op)
    (hset : set.all isNameEnd = true) (hclose : ')' ∉ set) : Past s op.rest := by
  rcases h t.value t.rest (by rw [hout, reading_ok]) with hv | hspoiled
  · exact (hrule _ _ hv).trans (past_of_takePunct hop hset hclose)
  · have hnone := hspoiled.reading_takePunct hset
    rw [hop] at hnone
    cases hnone

theorem misses_power (ih : ∀ t, t.length < s.length → Missing t) (hminus : NoPunct ['-'] s) :
    Misses s (power s) := by
  intro f h
  rw [power] at h
  cases hbase : atom s with
  | error e =>
      simp only [hbase, Except.error.injEq] at h
      exact h ▸ misses_atom s e hbase
  | ok base =>
      simp only [hbase] at h
      cases hop : takePunct ['^'] base.rest with
      | error e => simp only [hop, reduceCtorEq] at h
      | ok op =>
          simp only [hop] at h
          cases hunary : unary op.rest with
          | ok t => simp only [hunary, reduceCtorEq] at h
          | error e =>
              simp only [hunary, Except.error.injEq] at h
              have hpast := past_of_faithful (atom_sound (fun t _ => sound_all t) hminus)
                (fun _ _ hrule => hrule.past) hbase hop rfl (by decide)
              have hlt := Nat.lt_trans op.shorter base.shorter
              exact h ▸ ((ih _ hlt).unary e hunary).behind hpast

theorem misses_unary (ih : ∀ t, t.length < s.length → Missing t) : Misses s (unary s) := by
  intro f h
  rw [unary] at h
  cases hop : takePunct ['-', '$'] s with
  | error e =>
      simp only [hop] at h
      have hsigns : NoPunct ['-', '$'] s := reading_takePunct_eq_none_iff.mp (by rw [hop]; rfl)
      exact misses_power ih (hsigns.of_subset (by decide)) f h
  | ok op =>
      simp only [hop] at h
      cases hunary : unary op.rest with
      | ok t => simp only [hunary, reduceCtorEq] at h
      | error e =>
          simp only [hunary, Except.error.injEq] at h
          have hpast := past_of_takePunct hop rfl (by decide)
          exact h ▸ ((ih _ op.shorter).unary e hunary).behind hpast

theorem closing_notMem_operators (level : Level) : ')' ∉ level.operators := by
  cases level <;> decide

/-- Where the steps behind an operand fail, the operand was allowed by its rule: they do not begin
behind a spoiled name. -/
theorem misses_steps {level : Level} {first : Taken s.length Expr} {acc : Expr}
    {previous : Option Char} {f : Failure} (hfirst : operandOf level s = .ok first)
    (ih : Missing first.rest) (h : chainFrom level acc previous first.rest = .error f) :
    MissesAtom s f := by
  have hread : reading (operandOf level s) = some (first.value, first.rest) := by
    rw [hfirst, reading_ok]
  rcases (sound_all s).operand level _ _ hread with hrule | hspoiled
  · exact (ih.steps level acc previous f h).behind hrule.past
  · have hnone := hspoiled.reading_takePunct (all_operators level)
    rw [chainFrom] at h
    cases hop : takePunct level.operators first.rest with
    | error e => simp only [hop, reduceCtorEq] at h
    | ok op =>
        rw [hop] at hnone
        cases hnone

theorem misses_chainFrom (ih : ∀ t, t.length < s.length → Missing t) (level : Level) (acc : Expr)
    (previous : Option Char) : Misses s (chainFrom level acc previous s) := by
  intro f h
  rw [chainFrom] at h
  cases hop : takePunct level.operators s with
  | error e => simp only [hop, reduceCtorEq] at h
  | ok op =>
      simp only [hop] at h
      have hpast := past_of_takePunct hop (all_operators level) (closing_notMem_operators level)
      cases hrhs : operandOf level op.rest with
      | error e =>
          simp only [hrhs, Except.error.injEq] at h
          exact h ▸ ((ih _ op.shorter).operand level e hrhs).behind hpast
      | ok rhs =>
          simp only [hrhs] at h
          split at h
          · cases h
          · rename_i e hsteps
            cases h
            have hlt := Nat.lt_trans rhs.shorter op.shorter
            exact (misses_steps hrhs (ih _ hlt) hsteps).behind hpast

/-- A chain misses an atom if its operand does. -/
theorem misses_chain (ih : ∀ t, t.length < s.length → Missing t) {level : Level}
    (hoperand : Misses s (operandOf level s)) : Misses s (chain level s) := by
  intro f h
  rw [chain] at h
  cases hfirst : operandOf level s with
  | error e =>
      simp only [hfirst, Except.error.injEq] at h
      exact h ▸ hoperand e hfirst
  | ok first =>
      simp only [hfirst] at h
      split at h
      · cases h
      · rename_i e hsteps
        cases h
        exact misses_steps hfirst (ih _ first.shorter) hsteps

theorem misses_operandOf (ih : ∀ t, t.length < s.length → Missing t) (level : Level) :
    Misses s (operandOf level s) := by
  have hproduct : Misses s (operandOf .product s) := by
    rw [operandOf]
    exact misses_unary ih
  cases level with
  | product => exact hproduct
  | sum =>
      rw [operandOf]
      exact misses_chain ih hproduct

/-- Where the sums behind a sum and a `~` fail, the sum was allowed by its rule. -/
theorem misses_sidesBehind {side : Taken s.length Expr} {op : Taken side.rest.length Char}
    {f : Failure} (hside : chain .sum s = .ok side) (hop : takePunct ['~'] side.rest = .ok op)
    (ih : Missing op.rest) (h : sides op.rest = .error f) : MissesAtom s f := by
  have hfaithful := chain_sound (fun t _ => sound_all t) .sum ((sound_all s).operand .sum)
  have hpast := past_of_faithful hfaithful (fun _ _ hrule => hrule.past) hside hop rfl (by decide)
  exact (ih.sides f h).behind hpast

theorem misses_sides (ih : ∀ t, t.length < s.length → Missing t) : Misses s (sides s) := by
  intro f h
  rw [sides] at h
  cases hside : chain .sum s with
  | error e =>
      simp only [hside, Except.error.injEq] at h
      exact h ▸ misses_chain ih (misses_operandOf ih .sum) e hside
  | ok side =>
      simp only [hside] at h
      cases hop : takePunct ['~'] side.rest with
      | error e => simp only [hop, reduceCtorEq] at h
      | ok op =>
          simp only [hop] at h
          cases hsides : sides op.rest with
          | ok t => simp only [hsides, reduceCtorEq] at h
          | error e =>
              simp only [hsides, Except.error.injEq] at h
              have hlt := Nat.lt_trans op.shorter side.shorter
              exact h ▸ misses_sidesBehind hside hop (ih _ hlt) hsides

/-- **Whenever a reader fails, an atom is missing.** -/
theorem missing (n : Nat) : ∀ s : List Char, s.length < n → Missing s := by
  induction n with
  | zero =>
      intro s hs
      exact absurd hs (Nat.not_lt_zero _)
  | succ n ih =>
      intro s hs
      have hshorter : ∀ t : List Char, t.length < s.length → Missing t :=
        fun t ht => ih t (by omega)
      exact {
        sides := misses_sides hshorter
        operand := misses_operandOf hshorter
        steps := misses_chainFrom hshorter
        unary := misses_unary hshorter }

theorem missing_all (s : List Char) : Missing s := missing _ s (Nat.lt_succ_self _)

/-- Where no expression can be read, an atom is missing. -/
theorem misses_tilde (s : List Char) : Misses s (tilde s) := by
  intro f h
  rw [tilde] at h
  cases hleading : takePunct ['~'] s with
  | ok op =>
      simp only [hleading] at h
      cases hsides : sides op.rest with
      | ok t => simp only [hsides, reduceCtorEq] at h
      | error e =>
          simp only [hsides, Except.error.injEq] at h
          have hpast := past_of_takePunct hleading rfl (by decide)
          exact h ▸ ((missing_all _).sides e hsides).behind hpast
  | error e =>
      simp only [hleading] at h
      cases hlhs : chain .sum s with
      | error e =>
          simp only [hlhs, Except.error.injEq] at h
          exact h ▸ misses_chain (fun t _ => missing_all t) ((missing_all s).operand .sum) e hlhs
      | ok lhs =>
          simp only [hlhs] at h
          cases hop : takePunct ['~'] lhs.rest with
          | error e => simp only [hop, reduceCtorEq] at h
          | ok op =>
              simp only [hop] at h
              cases hsides : sides op.rest with
              | ok t => simp only [hsides, reduceCtorEq] at h
              | error e =>
                  simp only [hsides, Except.error.injEq] at h
                  exact h ▸ misses_sidesBehind hlhs hop (missing_all _) hsides

end

/-! ### Places -/

theorem byteLength_eq (s : List Char) : byteLength s = (String.ofList s).utf8ByteSize := by
  rw [String.utf8ByteSize_ofList]
  induction s with
  | nil => rfl
  | cons c s ih => rw [byteLength, ih, String.utf8Len_cons, Nat.add_comm]

theorem byteLength_append (s t : List Char) :
    byteLength (s ++ t) = byteLength s + byteLength t := by
  rw [byteLength_eq, byteLength_eq, byteLength_eq, String.ofList_append,
    String.utf8ByteSize_append]

/-- The place behind a start of a text is one between two characters. -/
theorem isValid_byteLength {input : String} {before after : List Char}
    (h : input.toList = before ++ after) :
    byteLength before ≤ input.utf8ByteSize ∧
      String.Pos.Raw.IsValid input ⟨byteLength before⟩ := by
  have hinput : input = String.ofList before ++ String.ofList after := by
    rw [← String.ofList_append, ← h, String.ofList_toList]
  rw [byteLength_eq]
  constructor
  · rw [hinput, String.utf8ByteSize_append]
    exact Nat.le_add_right _ _
  · exact String.Pos.Raw.isValid_iff_exists_append.mpr ⟨_, _, hinput, rfl⟩

/-- The bytes before an end of a text are those that are not in it. -/
theorem byteLength_sub {s before after : List Char} (h : s = before ++ after) :
    byteLength s - byteLength after = byteLength before := by
  rw [h, byteLength_append, Nat.add_sub_cancel]

/-- Behind the expression that is read stand blanks, and then what is left of the text. -/
theorem blanks_of_parsePart {s : List Char} {t : Taken s.length Expr} (h : parsePart s = .ok t) :
    ∃ read blanks, s = (read ++ blanks) ++ trimStart t.rest ∧
      t.rest = blanks ++ trimStart t.rest ∧ ∀ c ∈ blanks, isBlank c = true := by
  obtain ⟨read, hread⟩ : t.rest <:+ s :=
    (ending_all s).tilde t.value t.rest (by rw [← parsePart, h, reading_ok])
  have hblanks : t.rest = t.rest.takeWhile isBlank ++ trimStart t.rest :=
    List.takeWhile_append_dropWhile.symm
  refine ⟨read, _, ?_, hblanks, List.all_eq_true.mp List.all_takeWhile⟩
  rw [List.append_assoc, ← hblanks, hread]

/-- **Where a text is refused, and in which words.**  The place is one between two characters.  If
an expression was read, more text begins there, which is quoted as it is, and only blanks stand
between the two.  Otherwise a number was expected: an atom is missing there, no gap stands there,
and no parenthesis is open before it, so that of groups and calls that cannot be read the outermost
is the one that is missing. -/
theorem parse_error_place {input : String} {error : ParseError} (h : parse input = .error error) :
    error.offset ≤ input.utf8ByteSize ∧ String.Pos.Raw.IsValid input ⟨error.offset⟩ ∧
      ∃ before after, input.toList = before ++ after ∧ byteLength before = error.offset ∧
        match parsePart input.toList with
        | .ok t =>
          (∃ c more, after = c :: more ∧ isBlank c = false) ∧
            error.fault.message = "unexpected `" ++ String.ofList after ++ "`" ∧
            ∃ read blanks, before = read ++ blanks ∧ t.rest = blanks ++ after ∧
              ∀ c ∈ blanks, isBlank c = true
        | .error f =>
          f.expected = .number ∧ error.fault.message = "expected a number" ∧
            Stops isGap after ∧ Balanced before ∧ NoAtom after := by
  simp only [parse] at h
  cases hpart : parsePart input.toList with
  | ok t =>
      obtain ⟨read, blanks, hsplit, hblanks, hall⟩ := blanks_of_parsePart hpart
      simp only [hpart] at h
      cases hafter : trimStart t.rest with
      | nil => simp only [hafter, reduceCtorEq] at h
      | cons c more =>
          rw [hafter] at h hsplit hblanks
          obtain rfl := Except.error.inj h
          rw [byteLength_sub hsplit]
          obtain ⟨hle, hvalid⟩ := isValid_byteLength hsplit
          refine ⟨hle, hvalid, _, _, hsplit, rfl, ⟨c, more, rfl, ?_⟩, rfl, read, blanks, rfl,
            hblanks, hall⟩
          exact stops_dropWhile isBlank t.rest c more hafter
  | error f =>
      obtain ⟨hexpected, ⟨before, hsplit, hbalanced⟩, hsharp, hatom⟩ :=
        misses_tilde input.toList f hpart
      simp only [hpart] at h
      obtain rfl := Except.error.inj h
      rw [byteLength_sub hsplit]
      obtain ⟨hle, hvalid⟩ := isValid_byteLength hsplit
      refine ⟨hle, hvalid, before, f.rest, hsplit, rfl, hexpected, ?_, hsharp, hbalanced, hatom⟩
      rw [hexpected]
      rfl

theorem parse_eq_error {input : String} {error : ParseError}
    (h : (match parse input with | .ok _ => none | .error e => some e) = some error) :
    parse input = .error error := by
  cases hparse : parse input with
  | ok e =>
      rw [hparse] at h
      cases h
  | error e =>
      rw [hparse] at h
      exact congrArg Except.error (Option.some.inj h)

/-- In `y ~ f(a, (b)` it is the call that is missing, though the group in it can be read and the
call is not closed.  In the other text a parenthesis is left, behind a blank of two bytes. -/
theorem parse_error_place_call :
    (parse "y ~ f(a, (b)" = .error ⟨4, .expected .number⟩ ∧
      ∃ before after, "y ~ f(a, (b)".toList = before ++ after ∧ byteLength before = 4 ∧
        Balanced before ∧ NoAtom after) ∧
    parse "y ~ a\u00a0)" = .error ⟨7, .trailing ")"⟩ ∧
      String.Pos.Raw.IsValid "y ~ a\u00a0)" ⟨7⟩ := by
  have hcall : parse "y ~ f(a, (b)" = .error ⟨4, .expected .number⟩ :=
    parse_eq_error (by decide +kernel)
  have hleft : parse "y ~ a\u00a0)" = .error ⟨7, .trailing ")"⟩ :=
    parse_eq_error (by decide +kernel)
  have hnone : reading (parsePart "y ~ f(a, (b)".toList) = none := by decide +kernel
  refine ⟨⟨hcall, ?_⟩, hleft, (parse_error_place hleft).2.1⟩
  obtain ⟨-, -, before, after, hsplit, hoffset, hcase⟩ := parse_error_place hcall
  refine ⟨before, after, hsplit, hoffset, ?_⟩
  cases hpart : parsePart "y ~ f(a, (b)".toList with
  | ok t =>
      rw [hpart, reading_ok] at hnone
      cases hnone
  | error f =>
      rw [hpart] at hcase
      exact hcase.2.2.2

end Expr

end ModelFormula
