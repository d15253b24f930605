import ModelFormula.Proofs.Grammar.Kept

/-!
# Every reader keeps what it read

The lines of the grammar one by one, and the induction on the length of the text that joins them.

* `Expr.symbols` — the variables of an expression in order, with repetitions;
* `Grammar.callOrSymbol_continues`, `Grammar.atom_continued` — names, calls and numbers, **where the
  exception comes from**;
* `Expr.run` — the rest of a chain, whatever has been read of it;
* `Grammar.Continuing` — the readers that others call, at one text;
* `Grammar.continuing` — **all of them keep what they read at every text, or misread it.**
-/

set_option autoImplicit false

namespace ModelFormula

/-! ### Variables -/

namespace Expr

/-- The variables of an expression in the order of the text, with repetitions. -/
def symbols (e : Expr) : List String := e.nodes.filterMap symbol?

/-- The variables of each of a list of expressions. -/
def symbolsAll (es : List Expr) : List String := (nodesAll es).filterMap symbol?

@[simp] theorem symbols_call (op : String) (args : List Expr) :
    (call op args).symbols = symbolsAll args := by
  rw [symbols, nodes_call, List.filterMap_cons_none (symbol?_call op args), symbolsAll]

@[simp] theorem symbols_symbol (name : String) : (symbol name).symbols = [name] := rfl
@[simp] theorem symbols_number (x : Float) : (number x).symbols = [] := rfl
@[simp] theorem symbols_absent : absent.symbols = [] := rfl
@[simp] theorem symbolsAll_nil : symbolsAll [] = [] := rfl

@[simp] theorem symbolsAll_cons (e : Expr) (es : List Expr) :
    symbolsAll (e :: es) = e.symbols ++ symbolsAll es := by
  rw [symbolsAll, nodesAll_cons, List.filterMap_append, symbols, symbolsAll]

theorem symbolsAll_append (es fs : List Expr) :
    symbolsAll (es ++ fs) = symbolsAll es ++ symbolsAll fs := by
  induction es with
  | nil => rfl
  | cons e es ih => rw [List.cons_append, symbolsAll_cons, ih, symbolsAll_cons, List.append_assoc]

theorem symbols_negated (e : Expr) : e.negated.symbols = e.symbols := by
  cases e <;> simp [negated]

theorem symbols_escape (e : Expr) : e.escape.symbols = e.symbols := by
  rw [escape, symbols_call, symbolsAll_cons, symbolsAll_nil, List.append_nil]

theorem symbols_extended (acc : Expr) (op : Char) (e : Expr) (goesOn : Bool) :
    (acc.extended op e goesOn).symbols = acc.symbols ++ e.symbols := by
  cases acc <;> cases goesOn <;> simp [extended, symbolsAll_append]

/-- The rest of a chain: an operand, from which `k` makes the tree so far, and what follows it. -/
def run (level : Level) (k : Expr → Expr) (previous : Option Char) : Grammar.Reader Expr :=
  fun s => do
    let (e, r) ← reading (operandOf level s)
    reading (chainFrom level (k e) previous r)

theorem reading_chain_eq_run (level : Level) (s : List Char) :
    reading (chain level s) = run level id none s := by
  rw [reading_chain]
  rfl

end Expr

namespace Grammar

open ModelFormula.Expr

/-! ### The readers as readers that may go on -/

theorem power_eq_goOn :
    (fun x => reading (Expr.power x)) = goOn (fun x => reading (Expr.atom x)) ['^'] id
      (fun base _ x => do
        let (e, rest) ← reading (Expr.unary x)
        some (.call "^" [base, e], rest)) := by
  funext s
  rw [reading_power]
  rfl

theorem run_eq_goOn (level : Level) (k : Expr → Expr) (previous : Option Char) :
    Expr.run level k previous = goOn (fun x => reading (Expr.operandOf level x)) level.operators k
      (fun e op => Expr.run level (fun f => (k e).extended op f
        (op == level.collapsing && previous == some level.collapsing)) (some op)) := by
  funext s
  refine congrArg (Option.bind (reading (Expr.operandOf level s))) (funext fun first => ?_)
  exact reading_chainFrom level (k first.1) previous first.2

theorem sides_eq_goOn :
    (fun x => reading (Expr.sides x)) = goOn (fun x => reading (Expr.chain .sum x)) ['~']
      (fun e => [e])
      (fun e _ x => do
        let (es, rest) ← reading (Expr.sides x)
        some (e :: es, rest)) := by
  funext s
  rw [reading_sides]
  rfl

/-- An expression with a left side, or without a `~`. -/
def tildeBehind : Reader Expr :=
  goOn (fun x => reading (Expr.chain .sum x)) ['~'] id
    (fun e _ x => do
      let (es, rest) ← reading (Expr.sides x)
      some (.call "~" (e :: es), rest))

theorem reading_tilde_of_noPunct {s : List Char} (h : NoPunct ['~'] s) :
    reading (Expr.tilde s) = tildeBehind s := by
  rw [reading_tilde, h.reading_takePunct]
  rfl

/-! ### What the induction says -/

/-- The readers that go on with a shorter text keep what they read at a text, or misread it. -/
structure Continuing (s : List Char) : Prop where
  tilde : Continued (Ends afterTilde) symbols (fun x => reading (Expr.tilde x)) s
  sides : Continued (Ends afterTilde) symbolsAll (fun x => reading (Expr.sides x)) s
  run : ∀ level k previous p, (∀ e, (k e).symbols = p ++ e.symbols) →
    Continued (Ends (afterChain level)) symbols (Expr.run level k previous) s
  unary : Continued (Ends (afterOperand .product)) symbols (fun x => reading (Expr.unary x)) s
  arguments : ∀ es rest, reading (Expr.argumentsFrom s) = some (es, rest) →
    Closed (fun x => reading (Expr.argumentsFrom x)) s es rest

section

variable {s : List Char}

/-! ### Atoms -/

/-- A group ends with its parenthesis, whatever follows it. -/
theorem group_closed (ih : ∀ t, t.length < s.length → Continuing t) {e : Expr} {rest : List Char}
    (h : reading (Expr.group s) = some (e, rest)) :
    Closed (fun x => reading (Expr.group x)) s e rest := by
  rw [reading_group] at h
  simp only [Option.bind_eq_bind, Option.bind_eq_some_iff, Prod.exists] at h
  obtain ⟨_, r, hopen, e', r', htilde, c, rest', hclose, h⟩ := h
  cases h
  have hlt := length_lt_of_reading hopen
  obtain rfl := eq_cons_of_reading_takeOpening hopen
  have hc : c = ')' := List.mem_singleton.mp (punct_of_reading_takePunct hclose).2
  subst hc
  obtain ⟨w, rfl, hsharp, hagain⟩ := ((ih r hlt).tilde _ _ htilde).before_punct rfl hclose
    (by decide) fun x y hx => ends_of_punct hx rfl rfl (by decide)
  refine ⟨'(' :: w, rfl, hsharp.cons '(', ?_⟩
  intro z
  obtain ⟨y, hread, hpunct⟩ := hagain z
  dsimp only
  rw [List.cons_append, reading_group, reading_takeOpening_cons]
  simp only [Option.bind_eq_bind, Option.bind_some, hread, hpunct]

/-- The arguments of a call end with their parenthesis, whatever follows it. -/
theorem arguments_closed (ih : Continuing s) {es : List Expr} {rest : List Char}
    (h : reading (Expr.arguments s) = some (es, rest)) :
    Closed (fun x => reading (Expr.arguments x)) s es rest := by
  rw [reading_arguments] at h
  cases hclose : reading (takePunct [')'] s) with
  | some closing =>
      obtain ⟨c, r⟩ := closing
      rw [hclose] at h
      cases h
      obtain ⟨gaps, hgaps, rfl⟩ := punct_of_reading_single hclose
      refine ⟨gaps ++ [')'], by simp, (endsSharp_singleton (by decide)).prepend gaps, ?_⟩
      intro z
      have hpunct : Punct ')' (gaps ++ [')'] ++ z) z := ⟨gaps, hgaps, by simp⟩
      dsimp only
      rw [reading_arguments, hpunct.reading_takePunct rfl (by decide)]
  | none =>
      rw [hclose] at h
      have hnone : NoPunct [')'] s := reading_takePunct_eq_none_iff.mp hclose
      obtain ⟨w, rfl, hsharp, hagain⟩ := ih.arguments _ _ h
      refine ⟨w, rfl, hsharp, ?_⟩
      intro z
      dsimp only
      rw [reading_arguments, (hsharp.noPunct rest hnone).reading_takePunct]
      exact hagain z

section

variable {c : Char} {cs r rest : List Char}

/-- A name that does not go on is kept if nothing goes on with it. -/
theorem symbol_continues (hc : isNameStart c = true) (hcs : ∀ d ∈ cs, isNameRest d = true)
    (hends : NameEnds rest) :
    Continues NameEnds symbols (fun x => reading (Expr.callOrSymbol x)) (c :: cs ++ rest)
      (.symbol (String.ofList (c :: cs))) rest := by
  have hall : ∀ d ∈ c :: cs, isNameRest d = true :=
    List.forall_mem_cons.mpr ⟨isNameRest_of_isNameStart hc, hcs⟩
  have hsharp : EndsSharp (c :: cs) :=
    endsSharp_of_forall (by simp) fun d hd => isBlank_of_isNameRest (hall d hd)
  refine ⟨c :: cs, rfl, hsharp, .inl ?_⟩
  intro r' hr
  obtain ⟨hrest', hopen'⟩ := (hr.elim hends.of_isPrefix id).spec
  dsimp only
  rw [reading_callOrSymbol, reading_takeName_of_name ⟨c, cs, rfl, rfl, hc, hcs⟩ hrest']
  simp only [Option.bind_eq_bind, Option.bind_some, hopen']

/-- A call is kept whatever follows it. -/
theorem call_closed (hc : isNameStart c = true) (hcs : ∀ d ∈ cs, isNameRest d = true)
    (ih : Continuing r) {args : List Expr}
    (h : reading (Expr.arguments r) = some (args, rest)) :
    Closed (fun x => reading (Expr.callOrSymbol x)) (c :: cs ++ '(' :: r)
      (.call (String.ofList (c :: cs)) args) rest := by
  obtain ⟨w, rfl, hsharp, hagain⟩ := arguments_closed ih h
  refine ⟨c :: cs ++ '(' :: w, by simp, (hsharp.cons '(').prepend _, ?_⟩
  intro z
  have hsplit : c :: cs ++ '(' :: w ++ z = c :: cs ++ '(' :: (w ++ z) := by simp
  dsimp only
  rw [hsplit, reading_callOrSymbol,
    reading_takeName_of_name ⟨c, cs, rfl, rfl, hc, hcs⟩ (stops_cons _ (by decide))]
  simp only [Option.bind_eq_bind, Option.bind_some, reading_takeOpening_cons, hagain z]

end

/-- A call is kept whatever follows it, a name if it does not go on. -/
theorem callOrSymbol_continues (ih : ∀ t, t.length < s.length → Continuing t) {e : Expr}
    {rest : List Char} (h : reading (Expr.callOrSymbol s) = some (e, rest)) :
    Continues NameEnds symbols (fun x => reading (Expr.callOrSymbol x)) s e rest := by
  rw [reading_callOrSymbol] at h
  simp only [Option.bind_eq_bind, Option.bind_eq_some_iff, Prod.exists] at h
  obtain ⟨name, r, hname, h⟩ := h
  have hlt := length_lt_of_reading hname
  obtain ⟨c, cs, rfl, rfl, hc, hcs⟩ := name_of_reading_takeName hname
  cases hopen : reading (takeOpening r) with
  | none =>
      simp only [hopen] at h
      cases h
      refine symbol_continues hc hcs ?_
      rw [List.cons_append, reading_takeName_cons hc] at hname
      simp only [Option.some.injEq, Prod.mk.injEq] at hname
      intro d t hd
      refine isNameEnd_iff.mpr ⟨?_, ?_⟩
      · rw [← hname.2] at hd
        exact stops_dropWhile _ _ d t hd
      · rintro rfl
        rw [hd, reading_takeOpening_cons] at hopen
        cases hopen
  | some opening =>
      obtain ⟨_, r'⟩ := opening
      obtain rfl := eq_cons_of_reading_takeOpening hopen
      simp only [hopen, Option.bind_eq_some_iff, Prod.exists] at h
      obtain ⟨args, rest', hargs, h⟩ := h
      cases h
      have hshorter := Nat.lt_trans (length_lt_of_reading hopen) hlt
      exact (call_closed hc hcs (ih r' hshorter) hargs).continues

/-- What an atom is read as, once the gaps before it are left out. -/
def atomAt (s : List Char) : Option (Expr × List Char) :=
  match reading (Expr.group s) with
  | some p => some p
  | none =>
    match reading (Expr.callOrSymbol s) with
    | some p => some p
    | none => do
      let (x, rest) ← Numeral.take? s
      some (.number x, rest)

/-- Where a name stands that is read neither as a call nor as a variable, a parenthesis ends it. -/
theorem name_of_unread_call {c : Char} {w rest : List Char} (hc : isNameStart c = true)
    (hw : Solid (c :: w)) (h : reading (Expr.callOrSymbol (c :: w ++ rest)) = none) :
    ∃ cs q, rest = cs ++ '(' :: q ∧ ∀ d ∈ w ++ cs, isNameRest d = true := by
  rw [reading_callOrSymbol, List.cons_append, reading_takeName_cons hc] at h
  dsimp only [Option.bind_eq_bind, Option.bind_some] at h
  cases hopen : reading (takeOpening ((w ++ rest).dropWhile isNameRest)) with
  | none =>
      rw [hopen] at h
      cases h
  | some opening =>
      obtain ⟨_, q⟩ := opening
      have hall : ∀ d ∈ (w ++ rest).takeWhile isNameRest, isNameRest d = true :=
        List.all_eq_true.mp List.all_takeWhile
      have hsplit : w ++ rest = (w ++ rest).takeWhile isNameRest ++ '(' :: q := by
        rw [← eq_cons_of_reading_takeOpening hopen, List.takeWhile_append_dropWhile]
      rcases List.append_eq_append_iff.mp hsplit with ⟨cs, htake, hrest⟩ | ⟨cs, hw', hrest⟩
      · exact ⟨cs, q, hrest, htake ▸ hall⟩
      · cases cs with
        | nil => exact ⟨[], q, hrest.symm, by rwa [List.append_nil, hw', List.append_nil]⟩
        | cons d cs =>
            -- no parenthesis stands in a numeral
            cases hrest
            have hparen : '(' ∈ w := by
              rw [hw']
              exact List.mem_append_right _ List.mem_cons_self
            exact absurd (hw _ (List.mem_cons_of_mem c hparen)) (by decide)

/-- A number is kept, unless a name stands at its place: this name is that of a call which cannot be
read, and would be a variable. -/
theorem number_continues {c : Char} {t : List Char} {x : Float} {rest : List Char}
    (hgroup : reading (Expr.group (c :: t)) = none)
    (hcall : reading (Expr.callOrSymbol (c :: t)) = none)
    (h : Numeral.take? (c :: t) = some (x, rest)) :
    Continues NameEnds symbols atomAt (c :: t) (.number x) rest := by
  have hlt := Numeral.length_lt_of_take? h
  obtain ⟨w, hw, hsolid, hagain⟩ := Numeral.take?_again h
  have hparen : c ≠ '(' := by
    rintro rfl
    rw [take?_eq_none (by decide)] at h
    cases h
  cases w with
  | nil =>
      rw [hw] at hlt
      exact absurd hlt (Nat.lt_irrefl _)
  | cons d w =>
      cases hw
      refine ⟨c :: w, rfl, endsSharp_of_forall (by simp) fun d hd => hsolid.isBlank hd, ?_⟩
      -- no group stands at either text
      have hnogroup : ∀ r, reading (Expr.group (c :: w ++ r)) = none := fun r =>
        reading_group_eq_none fun rest' heq => hparen (List.cons.inj heq).1
      by_cases hc : isNameStart c = true
      · right
        obtain ⟨cs, q, hrest, hcs⟩ := name_of_unread_call hc hsolid hcall
        refine ⟨cs, q, .symbol (String.ofList (c :: w ++ cs)), String.ofList (c :: w ++ cs), hrest,
          fun d hd => hcs d (List.mem_append_right w hd), ?_, rfl⟩
        have hname : Name (c :: w ++ cs) (String.ofList (c :: w ++ cs)) [] :=
          ⟨c, w ++ cs, by simp, rfl, hc, hcs⟩
        rw [atomAt, hnogroup cs, reading_callOrSymbol, reading_takeName_of_name hname nofun]
        rfl
      · left
        intro r hr
        have hresumes : Resumes rest r := hr.imp_right fun hends => hends.spec.1
        have hname : reading (Expr.callOrSymbol (c :: w ++ r)) = none := by
          rw [reading_callOrSymbol, List.cons_append,
            reading_takeName_eq_none (stops_cons _ (by simpa using hc))]
          rfl
        rw [atomAt, hnogroup r, hname, hagain r hresumes]
        rfl

/-- Without the gaps before it, an atom keeps what it read or misreads it. -/
theorem atomAt_continued (ih : ∀ t, t.length < s.length → Continuing t) :
    Continued NameEnds symbols atomAt s := by
  intro e rest h
  rw [atomAt] at h
  cases hgroup : reading (Expr.group s) with
  | some p =>
      rw [hgroup] at h
      cases h
      obtain ⟨w, rfl, hsharp, hagain⟩ := group_closed ih hgroup
      refine Closed.continues ⟨w, rfl, hsharp, ?_⟩
      intro r
      have hread : reading (Expr.group (w ++ r)) = some (e, r) := hagain r
      rw [atomAt, hread]
  | none =>
      simp only [hgroup] at h
      cases hcall : reading (Expr.callOrSymbol s) with
      | some p =>
          rw [hcall] at h
          cases h
          have hcontinues := callOrSymbol_continues ih hcall
          obtain ⟨⟨name, r⟩, hname, -⟩ :=
            Option.bind_eq_some_iff.mp ((reading_callOrSymbol s).symm.trans hcall)
          have hfirst : NoPunct ['('] s := (name_of_reading_takeName hname).noPunct (gap_refl s) rfl
          refine hcontinues.first hfirst ?_
          intro x u t hx hread
          have hnogroup : reading (Expr.group x) = none := by
            refine reading_group_eq_none ?_
            rintro r rfl
            exact hx '(' r rfl (by decide)
          rw [atomAt, hnogroup]
          dsimp only at hread ⊢
          rw [hread]
      | none =>
          simp only [hcall, Option.bind_eq_bind, Option.bind_eq_some_iff, Prod.exists] at h
          obtain ⟨x, rest', htake, h⟩ := h
          cases h
          cases s with
          | nil => cases htake
          | cons c t => exact number_continues hgroup hcall htake

theorem atom_continued (ih : ∀ t, t.length < s.length → Continuing t) :
    Continued NameEnds symbols (fun x => reading (Expr.atom x)) s := by
  have hatom : (fun x => reading (Expr.atom x)) = fun x => atomAt (skipGaps x) :=
    funext fun x => reading_atom x
  have hshorter : ∀ t, t.length < (skipGaps s).length → Continuing t :=
    fun t ht => ih t (Nat.lt_of_lt_of_le ht (length_skipGaps_le s))
  rw [hatom]
  exact fun e rest h => (atomAt_continued hshorter e rest h).skipGaps

/-! ### Operands -/

theorem power_continued (ih : ∀ t, t.length < s.length → Continuing t) :
    Continued (Ends (afterOperand .product)) symbols (fun x => reading (Expr.power x)) s := by
  rw [power_eq_goOn]
  refine continued_goOn (p := []) rfl rfl (fun _ => rfl) (atom_continued ih) (fun r hr => hr)
    ?before ?next
  case before =>
    intro c hc x y hx
    obtain rfl := List.mem_singleton.mp hc
    exact nameEnds_of_punct hx rfl
  case next =>
    intro base c r hr _ e rest h
    obtain ⟨⟨f, rest'⟩, hunary, hf⟩ := Option.bind_eq_some_iff.mp h
    cases hf
    exact ((ih r hr).unary _ _ hunary).map (k := fun u => Expr.call "^" [base, u])
      (p := base.symbols) fun u => by simp

theorem unary_continued (ih : ∀ t, t.length < s.length → Continuing t) :
    Continued (Ends (afterOperand .product)) symbols (fun x => reading (Expr.unary x)) s := by
  intro e rest h
  dsimp only at h
  rw [reading_unary] at h
  cases hop : reading (takePunct ['-', '$'] s) with
  | none =>
      rw [hop] at h
      refine (power_continued ih e rest h).first (reading_takePunct_eq_none_iff.mp hop) ?_
      intro x u t hx hread
      rw [reading_unary, hx.reading_takePunct]
      exact hread
  | some op =>
      obtain ⟨c, r⟩ := op
      simp only [hop, Option.bind_eq_bind, Option.bind_eq_some_iff, Prod.exists] at h
      obtain ⟨f, rest', hunary, h⟩ := h
      cases h
      refine ((ih r (length_lt_of_reading hop)).unary _ _ hunary).behind_punct
        (k := fun u => if c = '-' then negated u else escape u) (p := []) hop rfl ?_ ?_
      · intro u
        split
        · exact symbols_negated u
        · exact symbols_escape u
      · intro x y u t hpunct hread
        rw [reading_unary, hpunct]
        simp only [hread, Option.bind_eq_bind, Option.bind_some]

/-! ### Chains -/

/-- The operators of a chain are no blanks. -/
theorem any_isBlank_operators (level : Level) : level.operators.any isBlank = false := by
  cases level <;> rfl

/-- The rest of a chain is continued if its operand is, for what follows the operand stands in a
shorter text. -/
theorem run_continued (ih : ∀ t, t.length < s.length → Continuing t) {level : Level}
    (hoperand : Continued (Ends (afterOperand level)) symbols
      (fun x => reading (Expr.operandOf level x)) s)
    (k : Expr → Expr) (previous : Option Char) {p : List String}
    (hk : ∀ e, (k e).symbols = p ++ e.symbols) :
    Continued (Ends (afterChain level)) symbols (Expr.run level k previous) s := by
  rw [run_eq_goOn]
  refine continued_goOn (all_operators level) (any_isBlank_operators level) hk hoperand ?follow
    ?before ?next
  case follow =>
    intro r hr
    exact ⟨hr.of_subset (List.subset_append_right ..),
      hr.2.of_subset (List.subset_append_left ..)⟩
  case before =>
    intro c hc x y hx
    obtain ⟨hgap, hafter⟩ := operators_disjoint hc
    exact ends_of_punct hx (List.all_eq_true.mp (all_operators level) c hc) hgap hafter
  case next =>
    intro e op r hr _
    exact (ih r hr).run level _ _ (k e).symbols fun f => symbols_extended _ _ _ _

theorem chain_continued (ih : ∀ t, t.length < s.length → Continuing t) {level : Level}
    (hoperand : Continued (Ends (afterOperand level)) symbols
      (fun x => reading (Expr.operandOf level x)) s) :
    Continued (Ends (afterChain level)) symbols (fun x => reading (Expr.chain level x)) s := by
  simp only [reading_chain_eq_run]
  exact run_continued ih hoperand id none (p := []) fun _ => rfl

theorem operand_continued (ih : ∀ t, t.length < s.length → Continuing t) (level : Level) :
    Continued (Ends (afterOperand level)) symbols
      (fun x => reading (Expr.operandOf level x)) s := by
  have hproduct : Continued (Ends (afterOperand .product)) symbols
      (fun x => reading (Expr.operandOf .product x)) s := by
    simp only [reading_operandOf]
    exact unary_continued ih
  cases level with
  | product => exact hproduct
  | sum =>
      simp only [reading_operandOf]
      exact chain_continued ih hproduct

/-! ### Sides and arguments -/

/-- Sums that may be followed by further sides. -/
theorem goOn_sides_continued (ih : ∀ t, t.length < s.length → Continuing t) {α : Type}
    {vars : α → List String} {done : Expr → α} {k : Expr → List Expr → α}
    (hdone : ∀ e, vars (done e) = e.symbols)
    (hk : ∀ e es, vars (k e es) = e.symbols ++ symbolsAll es) :
    Continued (Ends afterTilde) vars
      (goOn (fun x => reading (Expr.chain .sum x)) ['~'] done fun e _ x => do
        let (es, rest) ← reading (Expr.sides x)
        some (k e es, rest)) s := by
  refine continued_goOn (p := []) rfl rfl hdone (chain_continued ih (operand_continued ih .sum))
    ?follow ?before ?next
  case follow =>
    intro r hr
    exact ⟨hr.of_subset (by decide), hr.2.of_subset (by decide)⟩
  case before =>
    intro c hc x y hx
    obtain rfl := List.mem_singleton.mp hc
    exact ends_of_punct hx rfl rfl (by decide)
  case next =>
    intro e c r hr _ b rest h
    obtain ⟨⟨es, rest'⟩, hsides, hes⟩ := Option.bind_eq_some_iff.mp h
    cases hes
    exact ((ih r hr).sides _ _ hsides).map (k := k e) (p := e.symbols) (hk e)

theorem sides_continued (ih : ∀ t, t.length < s.length → Continuing t) :
    Continued (Ends afterTilde) symbolsAll (fun x => reading (Expr.sides x)) s := by
  rw [sides_eq_goOn]
  exact goOn_sides_continued ih (fun e => by simp) fun e es => by simp

theorem tilde_continued (ih : ∀ t, t.length < s.length → Continuing t) :
    Continued (Ends afterTilde) symbols (fun x => reading (Expr.tilde x)) s := by
  intro e rest h
  dsimp only at h
  cases hop : reading (takePunct ['~'] s) with
  | none =>
      have hnone : NoPunct ['~'] s := reading_takePunct_eq_none_iff.mp hop
      have hbehind : Continued (Ends afterTilde) symbols tildeBehind s :=
        goOn_sides_continued (k := fun e es => Expr.call "~" (e :: es)) ih (fun _ => rfl)
          fun e es => by simp
      rw [reading_tilde_of_noPunct hnone] at h
      refine (hbehind e rest h).first hnone ?_
      intro x u t hx hread
      rwa [reading_tilde_of_noPunct hx]
  | some op =>
      obtain ⟨c, r⟩ := op
      rw [reading_tilde] at h
      simp only [hop, Option.bind_eq_bind, Option.bind_eq_some_iff, Prod.exists] at h
      obtain ⟨es, rest', hsides, h⟩ := h
      cases h
      refine ((ih r (length_lt_of_reading hop)).sides _ _ hsides).behind_punct
        (k := fun es => Expr.call "~" (.absent :: es)) (p := []) hop rfl (fun u => by simp) ?_
      intro x y u t hpunct hread
      rw [reading_tilde, hpunct]
      simp only [hread, Option.bind_eq_bind, Option.bind_some]

theorem argumentsFrom_closed (ih : ∀ t, t.length < s.length → Continuing t) {es : List Expr}
    {rest : List Char} (h : reading (Expr.argumentsFrom s) = some (es, rest)) :
    Closed (fun x => reading (Expr.argumentsFrom x)) s es rest := by
  rw [reading_argumentsFrom] at h
  simp only [Option.bind_eq_bind, Option.bind_eq_some_iff, Prod.exists] at h
  obtain ⟨e, r, htilde, separator, r', hseparator, h⟩ := h
  have hlt := length_lt_of_reading htilde
  have hlt' := Nat.lt_trans (length_lt_of_reading hseparator) hlt
  obtain ⟨-, hmem⟩ := punct_of_reading_takePunct hseparator
  have hclosing : isBlank separator = false ∧
      ∀ x y, Punct separator x y → Ends afterTilde x := by
    simp only [List.mem_cons, List.not_mem_nil, or_false] at hmem
    rcases hmem with rfl | rfl
    · exact ⟨by decide, fun x y hx => ends_of_punct hx rfl rfl (by decide)⟩
    · exact ⟨by decide, fun x y hx => ends_of_punct hx rfl rfl (by decide)⟩
  obtain ⟨w, hw, hsharp, hagain⟩ :=
    (tilde_continued ih _ _ htilde).before_punct rfl hseparator hclosing.1 hclosing.2
  split at h
  · rename_i hclose
    cases h
    refine ⟨w, hw, hsharp, ?_⟩
    intro z
    obtain ⟨y, hread, hpunct⟩ := hagain z
    dsimp only at hread ⊢
    rw [reading_argumentsFrom]
    simp only [hread, Option.bind_eq_bind, Option.bind_some, hpunct, if_pos hclose]
  · rename_i hclose
    simp only [Option.bind_eq_some_iff, Prod.exists] at h
    obtain ⟨es', rest', hargs, h⟩ := h
    cases h
    obtain ⟨w', rfl, hsharp', hagain'⟩ := (ih r' hlt').arguments _ _ hargs
    refine ⟨w ++ w', by rw [hw, List.append_assoc], hsharp'.prepend w, ?_⟩
    intro z
    obtain ⟨y, hread, hpunct⟩ := hagain (w' ++ z)
    have hargs' : reading (Expr.argumentsFrom (w' ++ z)) = some (es', z) := hagain' z
    dsimp only at hread ⊢
    rw [reading_argumentsFrom, List.append_assoc]
    simp only [hread, Option.bind_eq_bind, Option.bind_some, hpunct, if_neg hclose, hargs']

end

/-! ### All readers -/

/-- **All readers keep what they read at every text, or misread it.** -/
theorem continuing (n : Nat) : ∀ s : List Char, s.length < n → Continuing s := by
  induction n with
  | zero =>
      intro s hs
      exact absurd hs (Nat.not_lt_zero _)
  | succ n ih =>
      intro s hs
      have hshorter : ∀ t : List Char, t.length < s.length → Continuing t :=
        fun t ht => ih t (by omega)
      exact {
        tilde := tilde_continued hshorter
        sides := sides_continued hshorter
        run := fun level k previous _ hk =>
          run_continued hshorter (operand_continued hshorter level) k previous hk
        unary := unary_continued hshorter
        arguments := fun _ _ h => argumentsFrom_closed hshorter h }

end Grammar

end ModelFormula
