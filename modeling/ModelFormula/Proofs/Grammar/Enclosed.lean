import ModelFormula.Proofs.Grammar.Parts

/-!
# Texts in parentheses

A text that is an expression is the same expression in parentheses and as an argument of a call,
if nothing but gaps stands at its end.  Behind a whole text every blank may stand; before a comma or
a parenthesis only gaps may, as before every token.

* `trailingBlanks`, `endsInGaps` — the blanks at the end of a text, and whether they are gaps;
* `Grammar.reading_takePunct_blanks` — a comma or a parenthesis **behind gaps, but not behind
  another blank**;
* `Expr.reading_group_enclosed`, `Expr.reading_argumentsFrom_enclosed` — what is read of texts in
  parentheses;
* `Expr.parse_enclosed` — **texts that end in gaps are read in parentheses and as arguments, and no
  others are.**
-/

set_option autoImplicit false

namespace ModelFormula

/-! ### Blanks at the end -/

/-- The blanks at the end of a text. -/
def trailingBlanks (s : List Char) : List Char := (s.reverse.takeWhile isBlank).reverse

/-- Whether the blanks at the end of a text are gaps. -/
def endsInGaps (s : List Char) : Bool := (trailingBlanks s).all isGap

namespace Grammar

theorem isBlank_of_mem_trailingBlanks {s : List Char} :
    ∀ c ∈ trailingBlanks s, isBlank c = true := by
  intro c hc
  rw [trailingBlanks, List.mem_reverse] at hc
  exact List.all_eq_true.mp List.all_takeWhile c hc

theorem trailingBlanks_append {w blanks : List Char} (hw : EndsSharp w)
    (hblanks : ∀ c ∈ blanks, isBlank c = true) : trailingBlanks (w ++ blanks) = blanks := by
  obtain ⟨t, d, rfl, hd⟩ := hw
  have hrun : ∀ c ∈ blanks.reverse, isBlank c = true := fun c hc =>
    hblanks c (List.mem_reverse.mp hc)
  have hstops : Stops isBlank (t ++ [d]).reverse := by
    rw [List.reverse_append, List.reverse_singleton]
    exact stops_cons _ hd
  rw [trailingBlanks, List.reverse_append, (takeWhile_append_of_stops hrun hstops).1,
    List.reverse_reverse]

theorem skipGaps_cons (c : Char) (s : List Char) :
    skipGaps (c :: s) = if isGap c then skipGaps s else c :: s := by
  rw [skipGaps, List.dropWhile_cons, skipGaps]

section

variable {blanks rest : List Char} {c : Char}

/-- What ends a name does so behind blanks. -/
theorem ends_of_blanks {ops : List Char} (hblanks : ∀ d ∈ blanks, isBlank d = true)
    (hc : isNameEnd c = true) (hgap : isGap c = false) (hops : c ∉ ops)
    (hblank : ops.any isBlank = false) : Ends ops (blanks ++ c :: rest) := by
  induction blanks with
  | nil => exact ends_of_punct (gap_refl _) hc hgap hops
  | cons b blanks ih =>
      obtain ⟨hb, hothers⟩ := List.forall_mem_cons.mp hblanks
      refine ⟨?_, ?_⟩
      · intro d t hd
        cases hd
        exact (ends_of_blank (List.forall_mem_singleton.mpr hb) hblank).1 b [] rfl
      · intro d t hd
        rw [List.cons_append, skipGaps_cons] at hd
        split at hd
        · exact (ih hothers).2 d t hd
        · cases hd
          intro hmem
          exact List.any_eq_false.mp hblank b hmem hb

/-- Punctuation is found behind gaps, but not behind another blank. -/
theorem reading_takePunct_blanks {set : List Char} (hblanks : ∀ d ∈ blanks, isBlank d = true)
    (hset : set.any isBlank = false) (hgap : isGap c = false) (hc : c ∈ set) :
    reading (takePunct set (blanks ++ c :: rest)) =
      if blanks.all isGap then some (c, rest) else none := by
  by_cases hall : blanks.all isGap = true
  · have hpunct : Punct c (blanks ++ c :: rest) rest := ⟨blanks, List.all_eq_true.mp hall, rfl⟩
    rw [if_pos hall]
    exact hpunct.reading_takePunct hgap hc
  · rw [if_neg hall]
    refine NoPunct.reading_takePunct ?_
    induction blanks with
    | nil => exact absurd rfl hall
    | cons b blanks ih =>
        obtain ⟨hb, hothers⟩ := List.forall_mem_cons.mp hblanks
        intro d t hd
        rw [List.cons_append, skipGaps_cons] at hd
        split at hd
        · rename_i hgapb
          refine ih hothers ?_ d t hd
          simpa [hgapb] using hall
        · cases hd
          intro hmem
          exact List.any_eq_false.mp hset b hmem hb

end

end Grammar

namespace Expr

open Grammar

/-! ### What is read of a text before punctuation -/

/-- A whole text. -/
abbrev Accepted (s : List Char) (e : Expr) : Prop := parse (String.ofList s) = .ok e

section

variable {s rest : List Char} {e : Expr}

/-- All of a text but the blanks at its end is kept. -/
theorem exists_kept_of_accepted (h : Accepted s e) : ∃ w, s = w ++ trailingBlanks s ∧
    EndsSharp w ∧ Kept (Ends afterTilde) (fun x => reading (tilde x)) w e (trailingBlanks s) := by
  obtain ⟨blanks, hread, hblanks⟩ := reading_tilde_of_parse h
  obtain ⟨w, rfl, hsharp, hkept | hmisread⟩ :=
    (continuing _ s (Nat.lt_succ_self _)).tilde _ _ hread
  · rw [trailingBlanks_append hsharp hblanks]
    exact ⟨w, rfl, hsharp, hkept⟩
  · exact absurd hblanks hmisread.spoiled.not_blank

/-- What is read of a text that is an expression is read of it before anything that does not go on
with it; the blanks at its end are left. -/
theorem reading_tilde_append (h : Accepted s e)
    (hrest : Ends afterTilde (trailingBlanks s ++ rest)) :
    reading (tilde (s ++ rest)) = some (e, trailingBlanks s ++ rest) := by
  obtain ⟨w, hs, -, hkept⟩ := exists_kept_of_accepted h
  have hread := hkept _ (.inr hrest)
  rwa [← List.append_assoc, ← hs] at hread

/-- No expression begins with a closing parenthesis. -/
theorem noPunct_of_accepted (h : Accepted s e) : NoPunct [')'] (s ++ rest) := by
  obtain ⟨w, hs, hsharp, -⟩ := exists_kept_of_accepted h
  obtain ⟨blanks, htilde, -⟩ := derives_of_parse h
  have hfirst := htilde.noPunct
  rw [String.toList_ofList, hs] at hfirst
  rw [hs, List.append_assoc]
  exact hsharp.noPunct _ hfirst

/-- A text in parentheses is a group if it ends in gaps. -/
theorem reading_group_enclosed (h : Accepted s e) :
    reading (group ('(' :: (s ++ ')' :: rest))) =
      if endsInGaps s then some (e, rest) else none := by
  have hends : Ends afterTilde (trailingBlanks s ++ ')' :: rest) :=
    ends_of_blanks isBlank_of_mem_trailingBlanks rfl rfl (by decide) rfl
  rw [reading_group, reading_takeOpening_cons]
  simp only [Option.bind_eq_bind, Option.bind_some]
  rw [reading_tilde_append h hends, Option.bind_some]
  dsimp only
  rw [reading_takePunct_blanks isBlank_of_mem_trailingBlanks rfl rfl (by decide), endsInGaps]
  split <;> rfl

end

/-- Texts with commas between them are arguments if all of them end in gaps. -/
theorem reading_argumentsFrom_enclosed {s rest : List Char} {e : Expr} (h : Accepted s e)
    {texts : List (List Char)} {es : List Expr} (htexts : List.Forall₂ Accepted texts es) :
    reading (argumentsFrom (s ++ (following [','] texts ++ ')' :: rest))) =
      if (s :: texts).all endsInGaps then some (e :: es, rest) else none := by
  induction htexts generalizing s e with
  | nil =>
      have hends : Ends afterTilde (trailingBlanks s ++ ')' :: rest) :=
        ends_of_blanks isBlank_of_mem_trailingBlanks rfl rfl (by decide) rfl
      rw [following, List.flatMap_nil, List.nil_append, reading_argumentsFrom,
        reading_tilde_append h hends]
      simp only [Option.bind_eq_bind, Option.bind_some]
      rw [reading_takePunct_blanks isBlank_of_mem_trailingBlanks rfl rfl (by decide)]
      simp only [List.all_cons, List.all_nil, Bool.and_true, endsInGaps]
      split <;> rfl
  | @cons t f texts es ht _ ih =>
      have hends : Ends afterTilde
          (trailingBlanks s ++ ',' :: (t ++ (following [','] texts ++ ')' :: rest))) :=
        ends_of_blanks isBlank_of_mem_trailingBlanks rfl rfl (by decide) rfl
      have hsplit : following [','] (t :: texts) ++ ')' :: rest =
          ',' :: (t ++ (following [','] texts ++ ')' :: rest)) := by
        simp [following]
      rw [hsplit, reading_argumentsFrom, reading_tilde_append h hends]
      simp only [Option.bind_eq_bind, Option.bind_some]
      rw [reading_takePunct_blanks isBlank_of_mem_trailingBlanks rfl rfl (by decide),
        List.all_cons, endsInGaps]
      by_cases hgaps : (trailingBlanks s).all isGap = true
      · rw [if_pos hgaps, hgaps, Bool.true_and, Option.bind_some]
        dsimp only
        rw [if_neg (by decide), ih ht]
        split <;> rfl
      · rw [if_neg hgaps, Bool.eq_false_of_not_eq_true hgaps]
        rfl

/-! ### Whole texts -/

/-- A text in parentheses is read if it ends in gaps, and only then. -/
theorem parse_group_enclosed {s : List Char} {e : Expr} (h : Accepted s e) :
    (endsInGaps s = true → Accepted ('(' :: (s ++ [')'])) e) ∧
      ((∃ m, Accepted ('(' :: (s ++ [')'])) m) → endsInGaps s = true) := by
  have hskip : skipGaps ('(' :: (s ++ [')'])) = '(' :: (s ++ [')']) := rfl
  have hfirst : NoPunct ['~', '-', '$'] ('(' :: (s ++ [')'])) :=
    noPunct_of_skipGaps hskip (by decide)
  have hgroup : reading (group ('(' :: (s ++ [')']))) = _ := reading_group_enclosed h
  have hatom : reading (atom ('(' :: (s ++ [')']))) =
      if endsInGaps s then some (e, []) else none := by
    have hcall : reading (callOrSymbol ('(' :: (s ++ [')']))) = none := by
      rw [reading_callOrSymbol, reading_takeName_eq_none (stops_cons _ (by decide))]
      rfl
    rw [reading_atom, hskip, hgroup, hcall, take?_eq_none (by decide)]
    cases endsInGaps s <;> rfl
  constructor
  · intro hgaps
    rw [if_pos hgaps] at hatom
    exact parse_of_reading_tilde (reading_tilde_of_atom hatom hfirst nofun) nofun
  · rintro ⟨m, hm⟩
    obtain ⟨rest, hread, -⟩ := reading_tilde_of_parse hm
    obtain ⟨v, r, hv⟩ := exists_reading_atom hread hfirst
    rw [hatom] at hv
    split at hv
    · assumption
    · cases hv

/-- What is read of a name with an argument list, before a numeral is looked for. -/
theorem reading_callOrSymbol_enclosed {name : String} (hname : IsName name) {s : List Char}
    {e : Expr} (h : Accepted s e) {texts : List (List Char)} {es : List Expr}
    (htexts : List.Forall₂ Accepted texts es) :
    reading (callOrSymbol (name.toList ++ '(' :: (s ++ (following [','] texts ++ [')'])))) =
      if (s :: texts).all endsInGaps then some (.call name (e :: es), []) else none := by
  rw [reading_callOrSymbol,
    reading_takeName_of_name (name_append hname _) (stops_cons _ (by decide))]
  simp only [Option.bind_eq_bind, Option.bind_some, reading_takeOpening_cons]
  rw [reading_arguments, (noPunct_of_accepted h).reading_takePunct]
  dsimp only
  rw [reading_argumentsFrom_enclosed h htexts]
  split <;> rfl

/-- Texts are read as the arguments of a call if all of them end in gaps, and only then. -/
theorem parse_call_enclosed {name : String} (hname : IsName name) {s : List Char} {e : Expr}
    (h : Accepted s e) {texts : List (List Char)} {es : List Expr}
    (htexts : List.Forall₂ Accepted texts es) :
    ((s :: texts).all endsInGaps = true →
      Accepted (name.toList ++ '(' :: (s ++ (following [','] texts ++ [')'])))
        (.call name (e :: es))) ∧
    ((∃ m, Accepted (name.toList ++ '(' :: (s ++ (following [','] texts ++ [')']))) m) →
      (s :: texts).all endsInGaps = true) := by
  have htoken := name_append hname ('(' :: (s ++ (following [','] texts ++ [')'])))
  have hfirst : NoPunct ['~', '-', '$']
      (name.toList ++ '(' :: (s ++ (following [','] texts ++ [')']))) :=
    htoken.noPunct (gap_refl _) rfl
  have hcall := reading_callOrSymbol_enclosed hname h htexts
  have hatom := reading_atom (name.toList ++ '(' :: (s ++ (following [','] texts ++ [')'])))
  rw [skipGaps_of_name (gap_refl _) htoken, htoken.reading_group, hcall] at hatom
  constructor
  · intro hgaps
    rw [if_pos hgaps] at hatom
    exact parse_of_reading_tilde (reading_tilde_of_atom hatom hfirst nofun) nofun
  · rintro ⟨m, hm⟩
    by_contra hgaps
    rw [if_neg hgaps] at hatom
    obtain ⟨rest, hread, hblank⟩ := reading_tilde_of_parse hm
    obtain ⟨v, r, hv⟩ := exists_reading_atom hread hfirst
    -- all that is left for the name is to begin with a numeral, which leaves it spoiled
    obtain ⟨⟨x, r'⟩, htake, hx⟩ := Option.bind_eq_some_iff.mp (hatom.symm.trans hv)
    obtain ⟨c, cs, hchars, hc, hcs⟩ := hname
    rw [hchars] at htake
    have hspoiled : Spoiled r' := spoiled_of_take? hc hcs htake
    have hlast : NoPunct afterTilde r' :=
      reading_takePunct_eq_none_iff.mp (hspoiled.reading_takePunct rfl)
    cases hx
    rw [reading_tilde_of_atom hv hfirst hlast] at hread
    cases hread
    exact hspoiled.not_blank hblank

/-- Blanks behind a name are left of it. -/
theorem parse_name_blanks {name : String} (hname : IsName name) (blanks : List Char)
    (hblanks : ∀ c ∈ blanks, isBlank c = true) :
    parse (String.ofList (name.toList ++ blanks)) = .ok (.symbol name) := by
  have hatom : Atom (name.toList ++ blanks) (.symbol name) blanks :=
    .symbol (gap_refl _) (name_append hname blanks)
  have htilde : Tilde (name.toList ++ blanks) (.symbol name) blanks := .sum hatom.sum
  exact parse_of_reading_tilde (htilde.reading (ends_of_blank hblanks rfl)) hblanks

theorem accepted_toList {s : String} {e : Expr} (h : parse s = .ok e) : Accepted s.toList e := by
  rwa [Accepted, String.ofList_toList]

theorem call_enclosed_eq (name s : String) (texts : List String) :
    name ++ "(" ++ ",".intercalate (s :: texts) ++ ")" = String.ofList (name.toList ++
      '(' :: (s.toList ++ (following [','] (texts.map String.toList) ++ [')']))) := by
  have hjoined := joined_cons [','] s.toList (texts.map String.toList)
  rw [joined] at hjoined
  apply String.toList_inj.mp
  rw [String.toList_ofList, String.toList_append, String.toList_append, String.toList_append,
    String.toList_intercalate, List.map_cons]
  change name.toList ++ ['('] ++ List.intercalate [','] _ ++ [')'] = _
  rw [hjoined]
  simp

/-- **Texts that are expressions can be put in parentheses and passed as arguments if they end in
gaps, and only then.**  In parentheses a text is read as the expression that it is on its own, and
texts with commas between them as the arguments of a call in their order; where another blank stands
at the end of a text, neither is read as anything. -/
theorem parse_enclosed :
    (∀ (s : String) (e : Expr), parse s = .ok e →
      (endsInGaps s.toList = true → parse ("(" ++ s ++ ")") = .ok e) ∧
      ((∃ m, parse ("(" ++ s ++ ")") = .ok m) → endsInGaps s.toList = true)) ∧
    ∀ (name : String) (texts : List String) (es : List Expr), IsName name → texts ≠ [] →
      List.Forall₂ (fun s e => parse s = .ok e) texts es →
      ((∀ s ∈ texts, endsInGaps s.toList = true) →
        parse (name ++ "(" ++ ",".intercalate texts ++ ")") = .ok (.call name es)) ∧
      ((∃ m, parse (name ++ "(" ++ ",".intercalate texts ++ ")") = .ok m) →
        ∀ s ∈ texts, endsInGaps s.toList = true) := by
  constructor
  · intro s e hs
    have hchars : "(" ++ s ++ ")" = String.ofList ('(' :: (s.toList ++ [')'])) :=
      String.toList_inj.mp (by simp)
    rw [hchars]
    exact parse_group_enclosed (accepted_toList hs)
  · intro name texts es hname hne htexts
    cases htexts with
    | nil => exact absurd rfl hne
    | @cons s e texts es hs htexts =>
        have hothers : List.Forall₂ Accepted (texts.map String.toList) es :=
          List.forall₂_map_left_iff.mpr (htexts.imp fun _ _ => accepted_toList)
        have hall : ((s :: texts).map String.toList).all endsInGaps = true ↔
            ∀ t ∈ s :: texts, endsInGaps t.toList = true := by
          rw [List.all_map, List.all_eq_true]
          rfl
        rw [call_enclosed_eq, ← hall]
        exact parse_call_enclosed hname (accepted_toList hs) hothers

/-- A gap behind `a` stays one before a parenthesis and before a comma. -/
theorem parse_enclosed_gap : (parse "a " = .ok (.symbol "a") ∧ parse "b" = .ok (.symbol "b")) ∧
    parse "(a )" = .ok (.symbol "a") ∧
    parse "f(a ,b)" = .ok (.call "f" [.symbol "a", .symbol "b"]) := by
  have ha : parse "a " = .ok (.symbol "a") :=
    parse_name_blanks isName_a [' '] (List.forall_mem_singleton.mpr rfl)
  have hb : parse "b" = .ok (.symbol "b") :=
    parse_name_blanks isName_b [] (List.forall_mem_nil _)
  have hgaps : ∀ s ∈ ["a ", "b"], endsInGaps s.toList = true := by decide
  have hf : IsName "f" := isName_of_all rfl rfl rfl
  refine ⟨⟨ha, hb⟩, ?group, ?call⟩
  case group => exact (parse_enclosed.1 "a " _ ha).1 rfl
  case call =>
    exact (parse_enclosed.2 "f" ["a ", "b"] _ hf (by simp) (.cons ha (.cons hb .nil))).1 hgaps

/-- A no-break space may stand behind the variable `a`, but not behind it in parentheses. -/
theorem parse_group_noBreakSpace : parse "a\u00a0" = .ok (.symbol "a") ∧
    (∀ m, parse "(a\u00a0)" ≠ .ok m) ∧ ∀ m, parse "f(a\u00a0)" ≠ .ok m := by
  have ha : parse "a\u00a0" = .ok (.symbol "a") :=
    parse_name_blanks isName_a ['\u00a0'] (List.forall_mem_singleton.mpr rfl)
  have hgaps : endsInGaps "a\u00a0".toList = false := by decide
  have haccepted := accepted_toList ha
  refine ⟨ha, ?group, ?call⟩
  case group =>
    intro m hm
    have hends := (parse_group_enclosed haccepted).2 ⟨m, hm⟩
    rw [hgaps] at hends
    cases hends
  case call =>
    intro m hm
    have hf : IsName "f" := isName_of_all rfl rfl rfl
    have hends := (parse_call_enclosed hf haccepted .nil).2 ⟨m, hm⟩
    rw [List.all_cons, hgaps] at hends
    cases hends

end Expr

end ModelFormula
