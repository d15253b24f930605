import ModelFormula.Proofs.Grammar.Tokens

/-!
# How far a numeral looks ahead

A numeral ends where the next character cannot go on with it.  Put before another text it is read
again, provided that this text begins like the one before, or with a character that no name goes on
with; only names look further than one character, as `inf` does for `infinity`.

* `Begins` — a text that begins with the character another one begins with, or with none of a name;
* `Decimal.take?_again` — **digits, point and power of ten look one character ahead**;
* `Resumes` — a start of another text, or a text that goes on with no name;
* `Numeral.dropName?_again` — a name that does not stand in a text does not stand in a resumed one;
* `Numeral.take?_again` — **a numeral is read again before whatever resumes the text behind it.**
-/

set_option autoImplicit false

namespace ModelFormula

open Grammar

/-! ### One character ahead -/

/-- A text whose first character, if it has one, is that of `rest` or goes on with no name. -/
def Begins (rest r : List Char) : Prop :=
  ∀ c t, r = c :: t → (∃ u, rest = c :: u) ∨ isNameRest c = false

theorem Begins.append {rest r : List Char} (h : Begins rest r) (w : List Char) :
    Begins (w ++ rest) (w ++ r) := by
  cases w with
  | nil => exact h
  | cons c w =>
      intro d t heq
      cases heq
      exact .inl ⟨_, rfl⟩

/-- What the text before stopped at, the new one stops at. -/
theorem Begins.stops {p : Char → Bool} {rest r : List Char} (h : Begins rest r)
    (hp : ∀ c, p c = true → isNameRest c = true) (hrest : Stops p rest) : Stops p r := by
  intro c t hr
  rcases h c t hr with ⟨u, hu⟩ | hc
  · exact hrest c u hu
  · cases hpc : p c with
    | false => rfl
    | true =>
        rw [hp c hpc] at hc
        cases hc

theorem stops_dropWhile (p : Char → Bool) (s : List Char) : Stops p (s.dropWhile p) := by
  intro c t hs
  have hc := List.head?_dropWhile_not p s
  rw [hs] at hc
  simpa using hc

theorem isNameRest_of_isDigit {c : Char} (h : c.isDigit = true) : isNameRest c = true := by
  simp [isNameRest, Char.isAlphanum, h]

/-! ### Characters of numerals -/

/-- A text of characters of names and signs, as every numeral is. -/
def Solid (s : List Char) : Prop := ∀ c ∈ s, isNameRest c = true ∨ c = '+' ∨ c = '-'

theorem Solid.append {s t : List Char} (hs : Solid s) (ht : Solid t) : Solid (s ++ t) :=
  List.forall_mem_append.mpr ⟨hs, ht⟩

theorem solid_of_isNameRest {s : List Char} (h : ∀ c ∈ s, isNameRest c = true) : Solid s :=
  fun c hc => .inl (h c hc)

theorem Solid.isBlank {s : List Char} (h : Solid s) {c : Char} (hc : c ∈ s) :
    ModelFormula.isBlank c = false := by
  rcases h c hc with hname | rfl | rfl
  · exact isBlank_of_isNameRest hname
  · decide
  · decide

theorem solid_takeWhile_isDigit (s : List Char) : Solid (s.takeWhile Char.isDigit) :=
  solid_of_isNameRest fun _ hc =>
    isNameRest_of_isDigit (List.all_eq_true.mp List.all_takeWhile _ hc)

/-! ### Decimals -/

/-- A sign, if there is one, is read again before any text with the same first character. -/
theorem takeSign_again (s : List Char) : ∃ w, s = w ++ (takeSign s).2 ∧ Solid w ∧
    ∀ c t u, (takeSign s).2 = c :: t → takeSign (w ++ c :: u) = ((takeSign s).1, c :: u) := by
  unfold takeSign
  split
  · exact ⟨['+'], rfl, List.forall_mem_singleton.mpr (by simp), fun _ _ _ _ => rfl⟩
  · exact ⟨['-'], rfl, List.forall_mem_singleton.mpr (by simp), fun _ _ _ _ => rfl⟩
  · rename_i hplus hminus
    refine ⟨[], rfl, List.forall_mem_nil _, ?_⟩
    rintro c t u rfl
    refine takeSign_eq_self ?_ ?_ u
    · rintro rfl
      exact hplus t rfl
    · rintro rfl
      exact hminus t rfl

namespace Decimal

theorem takeFraction_of_stops {s : List Char} (h : Stops (fun c => c == '.') s) :
    takeFraction s = ([], s) := by
  unfold takeFraction
  split
  · exact absurd (h '.' _ rfl) (by decide)
  · rfl

theorem takeFraction_again (s : List Char) : ∃ w, s = w ++ (takeFraction s).2 ∧ Solid w ∧
    ∀ r, Begins (takeFraction s).2 r → takeFraction (w ++ r) = ((takeFraction s).1, r) := by
  by_cases hpoint : ∃ t, s = '.' :: t
  · obtain ⟨t, rfl⟩ := hpoint
    refine ⟨'.' :: t.takeWhile Char.isDigit, ?_, ?_, ?_⟩
    · rw [takeFraction, List.cons_append, List.takeWhile_append_dropWhile]
    · exact List.forall_mem_cons.mpr ⟨.inl rfl, solid_takeWhile_isDigit t⟩
    · intro r hr
      have hstops : Stops Char.isDigit r :=
        hr.stops (fun _ => isNameRest_of_isDigit) (stops_dropWhile _ t)
      obtain ⟨htake, hdrop⟩ := takeWhile_append_of_stops
        (List.all_eq_true.mp (List.all_takeWhile (l := t))) hstops
      rw [List.cons_append, takeFraction, takeFraction, htake, hdrop]
  · have hstops : Stops (fun c => c == '.') s := by
      intro c t hs
      refine beq_eq_false_iff_ne.mpr ?_
      rintro rfl
      exact hpoint ⟨t, hs⟩
    rw [takeFraction_of_stops hstops]
    refine ⟨[], rfl, List.forall_mem_nil _, ?_⟩
    intro r hr
    refine takeFraction_of_stops (hr.stops ?_ hstops)
    intro c hc
    rw [beq_iff_eq.mp hc]
    decide

theorem takePower?_of_stops {s : List Char} (h : Stops (fun c => c == 'e' || c == 'E') s) :
    takePower? s = some (0, s) := by
  cases s with
  | nil => rfl
  | cons c t =>
      have hc := h c t rfl
      simp only [Bool.or_eq_false_iff, beq_eq_false_iff_ne] at hc
      rw [takePower?, if_neg (by simp [hc.1, hc.2])]

/-- A power of ten looks one character ahead if its mark is there. -/
theorem takePower?_mark_again {c : Char} {t rest : List Char} {k : Int} (hc : c = 'e' ∨ c = 'E')
    (h : takePower? (c :: t) = some (k, rest)) :
    ∃ w, c :: t = w ++ rest ∧ Solid w ∧
      ∀ r, Begins rest r → takePower? (w ++ r) = some (k, r) := by
  obtain ⟨sign, hsign, hsolid, hagain⟩ := takeSign_again t
  simp only [takePower?, if_pos hc] at h
  split at h
  · cases h
  · rename_i hdigits
    cases h
    refine ⟨c :: sign ++ (takeSign t).2.takeWhile Char.isDigit, ?_, ?_, ?_⟩
    · rw [List.append_assoc, List.takeWhile_append_dropWhile, List.cons_append, ← hsign]
    · refine Solid.append (List.forall_mem_cons.mpr ⟨?_, hsolid⟩) (solid_takeWhile_isDigit _)
      rcases hc with rfl | rfl <;> exact .inl rfl
    · intro r hr
      have hstops : Stops Char.isDigit r :=
        hr.stops (fun _ => isNameRest_of_isDigit) (stops_dropWhile _ _)
      obtain ⟨htake, hdrop⟩ := takeWhile_append_of_stops
        (List.all_eq_true.mp (List.all_takeWhile (l := (takeSign t).2))) hstops
      -- the sign looks at the first digit, and there is one
      have hread : takeSign (sign ++ ((takeSign t).2.takeWhile Char.isDigit ++ r)) =
          ((takeSign t).1, (takeSign t).2.takeWhile Char.isDigit ++ r) := by
        obtain ⟨d, ds, hds⟩ := List.exists_cons_of_ne_nil hdigits
        have hfirst : (takeSign t).2 = d :: (ds ++ (takeSign t).2.dropWhile Char.isDigit) := by
          rw [← List.cons_append, ← hds, List.takeWhile_append_dropWhile]
        rw [hds]
        exact hagain d _ (ds ++ r) hfirst
      simp only [List.append_assoc, List.cons_append, takePower?, if_pos hc, hread, htake, hdrop,
        if_neg hdigits]

theorem takePower?_again {s rest : List Char} {k : Int} (h : takePower? s = some (k, rest)) :
    ∃ w, s = w ++ rest ∧ Solid w ∧ ∀ r, Begins rest r → takePower? (w ++ r) = some (k, r) := by
  by_cases hmark : ∃ c t, s = c :: t ∧ (c = 'e' ∨ c = 'E')
  · obtain ⟨c, t, rfl, hc⟩ := hmark
    exact takePower?_mark_again hc h
  · have hstops : Stops (fun c => c == 'e' || c == 'E') s := by
      intro c t hs
      simp only [Bool.or_eq_false_iff, beq_eq_false_iff_ne]
      exact ⟨fun hc => hmark ⟨c, t, hs, .inl hc⟩, fun hc => hmark ⟨c, t, hs, .inr hc⟩⟩
    rw [takePower?_of_stops hstops] at h
    cases h
    refine ⟨[], rfl, List.forall_mem_nil _, ?_⟩
    intro r hr
    refine takePower?_of_stops (hr.stops ?_ hstops)
    intro c hc
    simp only [Bool.or_eq_true, beq_iff_eq] at hc
    rcases hc with rfl | rfl <;> decide

/-- **Digits, point and power of ten look one character ahead.** -/
theorem take?_again {s rest : List Char} {d : Decimal} (h : take? s = some (d, rest)) :
    ∃ w, s = w ++ rest ∧ Solid w ∧ ∀ r, Begins rest r → take? (w ++ r) = some (d, r) := by
  simp only [take?] at h
  split at h
  · cases h
  · rename_i hsome
    split at h
    · cases h
    · rename_i k rest' hpower
      cases h
      obtain ⟨fraction, hfraction, hsolid, hfagain⟩ := takeFraction_again (s.dropWhile Char.isDigit)
      obtain ⟨power, hrest, hsolid', hpagain⟩ := takePower?_again hpower
      have hwhole : s.takeWhile Char.isDigit ++ s.dropWhile Char.isDigit = s :=
        List.takeWhile_append_dropWhile
      refine ⟨s.takeWhile Char.isDigit ++ (fraction ++ power), ?_, ?_, ?_⟩
      · rw [List.append_assoc, List.append_assoc, ← hrest, ← hfraction, hwhole]
      · exact (solid_takeWhile_isDigit s).append (hsolid.append hsolid')
      · intro r hr
        have hbehind : Begins (takeFraction (s.dropWhile Char.isDigit)).2 (power ++ r) := by
          rw [hrest]
          exact hr.append power
        have hdigits : Stops Char.isDigit (fraction ++ (power ++ r)) := by
          refine Begins.stops ?_ (fun _ => isNameRest_of_isDigit) (stops_dropWhile _ s)
          rw [hfraction]
          exact hbehind.append fraction
        obtain ⟨htake, hdrop⟩ := takeWhile_append_of_stops
          (List.all_eq_true.mp (List.all_takeWhile (l := s))) hdigits
        simp only [List.append_assoc, take?, htake, hdrop, hfagain _ hbehind, hpagain r hr,
          if_neg hsome]

end Decimal

/-! ### Names of numbers -/

/-- A start of `rest`, or a text that goes on with no name. -/
def Resumes (rest r : List Char) : Prop := r <+: rest ∨ Stops isNameRest r

theorem Resumes.begins {rest r : List Char} (h : Resumes rest r) : Begins rest r := by
  intro c t hr
  rcases h with ⟨u, rfl⟩ | hstops
  · exact .inl ⟨t ++ u, by rw [hr, List.cons_append]⟩
  · exact .inr (hstops c t hr)

namespace Numeral

/-- A name is dropped if it stands at the start of a text, in any letter case. -/
theorem dropName?_eq_some_iff {name s rest : List Char} :
    dropName? name s = some rest ↔ ∃ w, s = w ++ rest ∧ w.map Char.toLower = name := by
  induction name generalizing s with
  | nil => simp [dropName?, eq_comm]
  | cons c name ih =>
      cases s with
      | nil => simp [dropName?]
      | cons d s =>
          rw [dropName?]
          constructor
          · intro h
            split at h
            · rename_i hd
              obtain ⟨w, rfl, rfl⟩ := ih.mp h
              exact ⟨d :: w, rfl, by rw [List.map_cons, hd]⟩
            · cases h
          · rintro ⟨w, hs, hw⟩
            cases w with
            | nil => cases hw
            | cons e w =>
                cases hs
                rw [List.map_cons, List.cons.injEq] at hw
                rw [if_pos hw.1]
                exact ih.mpr ⟨w, rfl, hw.2⟩

/-- A character that is a letter of a name of a number, in any letter case, starts names. -/
theorem isNameStart_of_toLower {c : Char} {name : List Char} {x : Float} (hname : (name, x) ∈ names)
    (h : c.toLower ∈ name) : isNameStart c = true := by
  by_cases hupper : c.isUpper = true
  · simp [isNameStart, Char.isAlpha, hupper]
  · have hlower : c.toLower = c := by
      rw [Char.toLower, dif_neg]
      simpa [Char.isUpper] using hupper
    rw [hlower] at h
    simp only [names, List.mem_cons, List.not_mem_nil, or_false, Prod.mk.injEq] at hname
    have hletter : c ∈ ['i', 'n', 'f', 't', 'y', 'a'] := by
      rcases hname with ⟨rfl, -⟩ | ⟨rfl, -⟩ | ⟨rfl, -⟩ <;> revert h <;> simp <;> tauto
    simp only [List.mem_cons, List.not_mem_nil, or_false] at hletter
    rcases hletter with rfl | rfl | rfl | rfl | rfl | rfl <;> rfl

theorem solid_of_map_toLower {w name : List Char} {x : Float} (hname : (name, x) ∈ names)
    (hw : w.map Char.toLower = name) : Solid w := by
  refine solid_of_isNameRest fun c hc => ?_
  refine isNameRest_of_isNameStart (isNameStart_of_toLower hname ?_)
  rw [← hw]
  exact List.mem_map_of_mem hc

/-- A name that does not stand at the start of a text does not stand there when the text goes on in
another way. -/
theorem dropName?_again {name w rest r : List Char} {x : Float} (hname : (name, x) ∈ names)
    (hr : Resumes rest r) (h : dropName? name (w ++ rest) = none) :
    dropName? name (w ++ r) = none := by
  rw [Option.eq_none_iff_forall_not_mem]
  intro t ht
  obtain ⟨u, hsplit, hu⟩ := dropName?_eq_some_iff.mp ht
  -- it would stand there before as well, unless it goes on in what is new
  have hnew : ¬u <+: w ++ rest := by
    rintro ⟨v, hv⟩
    rw [dropName?_eq_some_iff.mpr ⟨u, hv.symm, hu⟩] at h
    cases h
  rcases List.append_eq_append_iff.mp hsplit with ⟨v, rfl, hv⟩ | ⟨v, hv, -⟩
  · rcases hr with ⟨r', rfl⟩ | hstops
    · exact hnew ⟨t ++ r', by rw [hv]; simp⟩
    · cases v with
      | nil => exact hnew ⟨rest, by rw [List.append_nil]⟩
      | cons c v =>
          have hc := hstops c _ hv
          have hmem : c.toLower ∈ name := by
            rw [← hu]
            exact List.mem_map_of_mem (List.mem_append_right w List.mem_cons_self)
          rw [isNameRest_of_isNameStart (isNameStart_of_toLower hname hmem)] at hc
          cases hc
  · exact hnew ⟨v ++ rest, by rw [hv, List.append_assoc]⟩

/-! ### Numerals -/

theorem unsigned?_again {s rest : List Char} {x : Float} (h : unsigned? s = some (x, rest)) :
    ∃ w, s = w ++ rest ∧ Solid w ∧ ∀ r, Resumes rest r → unsigned? (w ++ r) = some (x, r) := by
  unfold unsigned? at h
  split at h
  · rename_i found hfound
    cases h
    obtain ⟨before, ⟨name, y⟩, after, hnames, hfirst, hbefore⟩ :=
      List.findSome?_eq_some_iff.mp hfound
    obtain ⟨rest', hdrop, hrest⟩ := Option.map_eq_some_iff.mp hfirst
    cases hrest
    obtain ⟨w, rfl, hw⟩ := dropName?_eq_some_iff.mp hdrop
    have hname : (name, y) ∈ names := by simp [hnames]
    refine ⟨w, rfl, solid_of_map_toLower hname hw, ?_⟩
    intro r hr
    have hagain : names.findSome? (fun n => (dropName? n.1 (w ++ r)).map fun rest => (n.2, rest)) =
        some (y, r) := by
      refine List.findSome?_eq_some_iff.mpr ⟨before, (name, y), after, hnames, ?_, ?_⟩
      · rw [dropName?_eq_some_iff.mpr ⟨w, rfl, hw⟩, Option.map_some]
      · intro n hn
        have hmem : (n.1, n.2) ∈ names := by simp [hnames, hn]
        rw [Option.map_eq_none_iff]
        exact dropName?_again hmem hr (Option.map_eq_none_iff.mp (hbefore n hn))
    rw [unsigned?, hagain]
  · rename_i hnone
    obtain ⟨⟨d, rest'⟩, hd, hvalue⟩ := Option.map_eq_some_iff.mp h
    cases hvalue
    obtain ⟨w, rfl, hsolid, hagain⟩ := Decimal.take?_again hd
    refine ⟨w, rfl, hsolid, ?_⟩
    intro r hr
    have hnames : names.findSome? (fun n => (dropName? n.1 (w ++ r)).map fun rest => (n.2, rest)) =
        none := by
      rw [List.findSome?_eq_none_iff] at hnone ⊢
      intro n hn
      rw [Option.map_eq_none_iff]
      exact dropName?_again hn hr (Option.map_eq_none_iff.mp (hnone n hn))
    rw [unsigned?, hnames, hagain r hr.begins]
    rfl

/-- **A numeral is read again before whatever resumes the text behind it.** -/
theorem take?_again {s rest : List Char} {x : Float} (h : take? s = some (x, rest)) :
    ∃ w, s = w ++ rest ∧ Solid w ∧ ∀ r, Resumes rest r → take? (w ++ r) = some (x, r) := by
  obtain ⟨⟨y, rest'⟩, hunsigned, hvalue⟩ := Option.map_eq_some_iff.mp h
  cases hvalue
  obtain ⟨sign, hsign, hsolid, hsagain⟩ := takeSign_again s
  obtain ⟨w, hw, hsolid', hagain⟩ := unsigned?_again hunsigned
  refine ⟨sign ++ w, ?_, hsolid.append hsolid', ?_⟩
  · rw [List.append_assoc, ← hw, ← hsign]
  · intro r hr
    have hread : takeSign (sign ++ (w ++ r)) = ((takeSign s).1, w ++ r) := by
      cases w with
      | nil =>
          -- a numeral is never empty
          have hlt := length_lt_of_unsigned? hunsigned
          rw [hw] at hlt
          exact absurd hlt (Nat.lt_irrefl _)
      | cons c w => exact hsagain c (w ++ rest') (w ++ r) hw
    rw [take?, List.append_assoc, hread, hagain r hr]
    rfl

end Numeral

end ModelFormula
