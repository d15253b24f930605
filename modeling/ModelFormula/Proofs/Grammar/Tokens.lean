import ModelFormula.Proofs.Grammar.Readers
import ModelFormula.Proofs.Grammar.Rules

/-!
# Tokens of the grammar and of the readers

The rules take a token wherever the characters allow it, the readers take the longest one.  These
lemmas say when the two agree, and with what an expression can begin.

* `Grammar.skipGaps_of_punct`, `Grammar.punct_of_skipGaps` — gaps are skipped up to the token;
* `Grammar.reading_takeName_of_name` — a name is read to its end if no character goes on with it;
* `Grammar.Spoiled` — a text that goes on with the rest of a name and a parenthesis; after it
  **no reader finds another operator**;
* `Grammar.NoPunct` — a text that begins with none of some characters, as every expression does
  with those that stand before or behind it.
-/

set_option autoImplicit false

namespace ModelFormula

namespace Grammar

/-! ### Gaps and punctuation -/

theorem gap_skipGaps (s : List Char) : Gap s (skipGaps s) :=
  ⟨s.takeWhile isGap, fun _ h => List.all_eq_true.mp List.all_takeWhile _ h,
    List.takeWhile_append_dropWhile.symm⟩

theorem eq_of_isGap {c : Char} (h : isGap c = true) :
    c = ' ' ∨ c = '\t' ∨ c = '\r' ∨ c = '\n' := by
  simpa [isGap, or_assoc] using h

theorem skipGaps_of_gap {s t : List Char} (h : Gap s t) (ht : Stops isGap t) : skipGaps s = t := by
  obtain ⟨gaps, hgaps, rfl⟩ := h
  exact (takeWhile_append_of_stops hgaps ht).2

theorem punct_of_skipGaps {s rest : List Char} {c : Char} (h : skipGaps s = c :: rest) :
    Punct c s rest := by
  have hgap := gap_skipGaps s
  rw [h] at hgap
  exact hgap

theorem skipGaps_of_punct {s rest : List Char} {c : Char} (h : Punct c s rest)
    (hc : isGap c = false) : skipGaps s = c :: rest :=
  skipGaps_of_gap h (stops_cons rest hc)

theorem punct_of_reading_takePunct {set s rest : List Char} {c : Char}
    (h : reading (takePunct set s) = some (c, rest)) : Punct c s rest ∧ c ∈ set := by
  obtain ⟨hskip, hmem⟩ := reading_takePunct_eq_some_iff.mp h
  exact ⟨punct_of_skipGaps hskip, hmem⟩

/-- Where one character is asked for, it is the one taken. -/
theorem punct_of_reading_single {op c : Char} {s rest : List Char}
    (h : reading (takePunct [op] s) = some (c, rest)) : Punct op s rest := by
  obtain ⟨hpunct, hmem⟩ := punct_of_reading_takePunct h
  rw [List.mem_singleton.mp hmem] at hpunct
  exact hpunct

theorem Punct.reading_takePunct {set s rest : List Char} {c : Char} (h : Punct c s rest)
    (hgap : isGap c = false) (hc : c ∈ set) : reading (takePunct set s) = some (c, rest) :=
  reading_takePunct_eq_some_iff.mpr ⟨skipGaps_of_punct h hgap, hc⟩

/-! ### Names -/

theorem name_of_reading_takeName {s rest : List Char} {name : String}
    (h : reading (takeName s) = some (name, rest)) : Name s name rest := by
  cases ht : takeName s with
  | error e => simp [ht] at h
  | ok t =>
      simp only [ht, reading_ok, Option.some.injEq, Prod.mk.injEq] at h
      obtain ⟨rfl, rfl⟩ := h
      obtain ⟨c, cs, hs, hname, hc, hcs⟩ := append_of_takeName ht
      exact ⟨c, cs, hs, hname, hc, hcs⟩

theorem isNameRest_of_isNameStart {c : Char} (h : isNameStart c = true) : isNameRest c = true := by
  simp only [isNameStart, Bool.or_eq_true] at h
  simp only [isNameRest, Char.isAlphanum, Bool.or_eq_true]
  exact Or.inl (h.imp_left Or.inl)

/-- The characters of a name are in ASCII, above the operators. -/
theorem range_of_isNameRest {c : Char} (h : isNameRest c = true) :
    46 ≤ c.toNat ∧ c.toNat ≤ 122 := by
  simp only [isNameRest, Char.isAlphanum, Char.isAlpha, Char.isUpper, Char.isLower, Char.isDigit,
    Bool.or_eq_true, Bool.and_eq_true, decide_eq_true_eq, beq_iff_eq, ge_iff_le,
    UInt32.le_iff_toNat_le] at h
  have h0 : ('0' : Char).val.toNat = 48 := rfl
  have h9 : ('9' : Char).val.toNat = 57 := rfl
  have hA : ('A' : Char).val.toNat = 65 := rfl
  have hZ : ('Z' : Char).val.toNat = 90 := rfl
  have ha : ('a' : Char).val.toNat = 97 := rfl
  have hz : ('z' : Char).val.toNat = 122 := rfl
  have hval : c.toNat = c.val.toNat := rfl
  rcases h with (((h | h) | h) | rfl) | rfl
  · omega
  · omega
  · omega
  · decide
  · decide

/-- The characters of a name stand where no range of blanks does. -/
theorem isBlank_of_isNameRest {c : Char} (h : isNameRest c = true) : isBlank c = false := by
  have hrange := range_of_isNameRest h
  cases hb : isBlank c with
  | false => rfl
  | true =>
      obtain ⟨r, hr, hlow, hhigh⟩ := inRanges_iff.mp hb
      simp only [blankRanges, List.mem_cons, List.not_mem_nil, or_false] at hr
      rcases hr with rfl | rfl | rfl | rfl | rfl | rfl | rfl | rfl | rfl | rfl <;>
        simp only at hlow hhigh <;> omega

theorem isGap_of_isNameRest {c : Char} (h : isNameRest c = true) : isGap c = false := by
  cases hg : isGap c with
  | false => rfl
  | true =>
      have hblank := isBlank_of_isGap hg
      rw [isBlank_of_isNameRest h] at hblank
      cases hblank

theorem isDigit_of_isNameStart {c : Char} (h : isNameStart c = true) : c.isDigit = false := by
  cases hd : c.isDigit with
  | false => rfl
  | true =>
      simp only [isNameStart, Char.isAlpha, Char.isUpper, Char.isLower, Bool.or_eq_true,
        Bool.and_eq_true, decide_eq_true_eq, beq_iff_eq, ge_iff_le, UInt32.le_iff_toNat_le] at h
      simp only [Char.isDigit, Bool.and_eq_true, decide_eq_true_eq, ge_iff_le,
        UInt32.le_iff_toNat_le] at hd
      have h9 : ('9' : Char).val.toNat = 57 := rfl
      have hA : ('A' : Char).val.toNat = 65 := rfl
      have ha : ('a' : Char).val.toNat = 97 := rfl
      rcases h with (h | h) | rfl
      · omega
      · omega
      · exact absurd hd (by decide)

/-- A name is read to its end if no character goes on with it. -/
theorem reading_takeName_of_name {s rest : List Char} {name : String} (h : Name s name rest)
    (hrest : Stops isNameRest rest) : reading (takeName s) = some (name, rest) := by
  obtain ⟨c, cs, rfl, rfl, hc, hcs⟩ := h
  obtain ⟨htake, hdrop⟩ := takeWhile_append_of_stops hcs hrest
  rw [List.cons_append, reading_takeName_cons hc, htake, hdrop]

theorem skipGaps_of_name {s t rest : List Char} {name : String} (h : Gap s t)
    (hname : Name t name rest) : skipGaps s = t := by
  obtain ⟨c, cs, rfl, -, hc, -⟩ := hname
  exact skipGaps_of_gap h (stops_cons _ (isGap_of_isNameRest (isNameRest_of_isNameStart hc)))

/-! ### Numbers -/

/-- The characters that no numeral begins with. -/
def noNumeral : List Char :=
  ['~', '$', '(', ')', ',', '^', '*', '/', '&', ' ', '\t', '\r', '\n']

theorem take?_eq_none {c : Char} (hc : c ∈ noNumeral) (s : List Char) :
    Numeral.take? (c :: s) = none := by
  simp only [noNumeral, List.mem_cons, List.not_mem_nil, or_false] at hc
  rcases hc with rfl | rfl | rfl | rfl | rfl | rfl | rfl | rfl | rfl | rfl | rfl | rfl | rfl <;> rfl

/-- A number begins with a character that begins neither a name nor another token. -/
theorem Number.eq_cons {s rest : List Char} {x : Float} (h : Number s x rest) :
    ∃ c t, s = c :: t ∧ c ∉ noNumeral ∧ isNameStart c = false ∧ c ≠ '-' := by
  obtain ⟨htake, hstops⟩ := h
  cases s with
  | nil => cases htake
  | cons c t =>
      have hc := hstops c t rfl
      simp only [Bool.or_eq_false_iff, beq_eq_false_iff_ne] at hc
      refine ⟨c, t, rfl, ?_, hc.1, hc.2⟩
      intro hmem
      rw [take?_eq_none hmem] at htake
      cases htake

theorem skipGaps_of_number {s t rest : List Char} {x : Float} (h : Gap s t)
    (hnumber : Number t x rest) : skipGaps s = t := by
  obtain ⟨c, t', rfl, hc, -, -⟩ := hnumber.eq_cons
  refine skipGaps_of_gap h (stops_cons _ ?_)
  cases hg : isGap c with
  | false => rfl
  | true =>
      rcases eq_of_isGap hg with rfl | rfl | rfl | rfl <;> exact absurd (by simp [noNumeral]) hc

/-! ### Spoiled names -/

/-- The rest of a name and then a parenthesis: what is left where a call with a spoiled list of
arguments, such as `inf(`, begins with a numeral. -/
def Spoiled (s : List Char) : Prop :=
  ∃ cs r, s = cs ++ '(' :: r ∧ ∀ d ∈ cs, isNameRest d = true

/-- Whether a character neither goes on with a name nor makes it the name of a call. -/
def isNameEnd (c : Char) : Bool := !isNameRest c && c != '('

theorem isNameEnd_iff {c : Char} : isNameEnd c = true ↔ isNameRest c = false ∧ c ≠ '(' := by
  simp [isNameEnd]

/-- No operator follows a spoiled name. -/
theorem Spoiled.reading_takePunct {s set : List Char} (h : Spoiled s)
    (hset : set.all isNameEnd = true) : reading (takePunct set s) = none := by
  obtain ⟨cs, r, rfl, hcs⟩ := h
  rw [reading_takePunct_eq_none_iff]
  intro c rest hs hmem
  obtain ⟨hname, hparen⟩ := isNameEnd_iff.mp (List.all_eq_true.mp hset c hmem)
  cases cs with
  | nil =>
      obtain ⟨rfl, -⟩ := List.cons.inj (hs.symm.trans rfl)
      exact hparen rfl
  | cons d cs =>
      have hd : isNameRest d = true := hcs d List.mem_cons_self
      have hskip : skipGaps (d :: cs ++ '(' :: r) = d :: (cs ++ '(' :: r) := by
        simp [skipGaps, isGap_of_isNameRest hd]
      obtain ⟨rfl, -⟩ := List.cons.inj (hs.symm.trans hskip)
      rw [hname] at hd
      cases hd

theorem Spoiled.not_blank {s : List Char} (h : Spoiled s) : ¬∀ c ∈ s, isBlank c = true := by
  obtain ⟨cs, r, rfl, -⟩ := h
  intro hblank
  have := hblank '(' (by simp)
  exact absurd this (by decide)

/-- What follows a name inside a text that goes on with a parenthesis. -/
theorem spoiled_of_dropName? {name cs r rest : List Char} (hname : '(' ∉ name)
    (hcs : ∀ d ∈ cs, isNameRest d = true)
    (h : Numeral.dropName? name (cs ++ '(' :: r) = some rest) : Spoiled rest := by
  induction name generalizing cs with
  | nil =>
      simp only [Numeral.dropName?, Option.some.injEq] at h
      exact ⟨cs, r, h.symm, hcs⟩
  | cons c name ih =>
      rw [List.mem_cons, not_or] at hname
      cases cs with
      | nil =>
          have hlower : ('(' : Char).toLower = '(' := rfl
          simp only [List.nil_append, Numeral.dropName?, hlower] at h
          rw [if_neg hname.1] at h
          cases h
      | cons d cs =>
          simp only [List.cons_append, Numeral.dropName?] at h
          split at h
          · exact ih hname.2 (fun e he => hcs e (List.mem_cons_of_mem d he)) h
          · cases h

/-- No digits stand where a name does. -/
theorem decimalTake?_eq_none {c : Char} (h : isNameStart c = true) (s : List Char) :
    Decimal.take? (c :: s) = none := by
  have hdigit := isDigit_of_isNameStart h
  have hpoint : c ≠ '.' := ne_of_apply h rfl
  have hwhole : (c :: s).takeWhile Char.isDigit = [] := by simp [hdigit]
  have hdrop : (c :: s).dropWhile Char.isDigit = c :: s := by simp [hdigit]
  have hfraction : Decimal.takeFraction (c :: s) = ([], c :: s) := by
    unfold Decimal.takeFraction
    split
    · rename_i heq
      exact absurd (List.cons.inj heq).1 hpoint
    · rfl
  simp only [Decimal.take?, hwhole, hdrop, hfraction, and_self, ↓reduceIte]

/-- A numeral at the start of a name ends inside the name: it is a name itself. -/
theorem spoiled_of_take? {c : Char} {cs r rest : List Char} {x : Float}
    (hc : isNameStart c = true) (hcs : ∀ d ∈ cs, isNameRest d = true)
    (h : Numeral.take? (c :: cs ++ '(' :: r) = some (x, rest)) : Spoiled rest := by
  have hall : ∀ d ∈ c :: cs, isNameRest d = true :=
    List.forall_mem_cons.mpr ⟨isNameRest_of_isNameStart hc, hcs⟩
  have hsign : takeSign (c :: cs ++ '(' :: r) = (false, c :: cs ++ '(' :: r) :=
    takeSign_eq_self (ne_of_apply hc rfl) (ne_of_apply hc rfl) _
  have hdecimal : Decimal.take? (c :: cs ++ '(' :: r) = none := decimalTake?_eq_none hc _
  obtain ⟨p, hp, hrest⟩ := Option.map_eq_some_iff.mp h
  obtain ⟨-, rfl⟩ := Prod.mk.inj hrest
  rw [hsign] at hp
  unfold Numeral.unsigned? at hp
  split at hp
  · -- one of the three names was read
    rename_i found hfound
    obtain ⟨n, hn, hmap⟩ := List.exists_of_findSome?_eq_some hfound
    obtain ⟨rest', hdrop, rfl⟩ := Option.map_eq_some_iff.mp hmap
    cases hp
    have hparen : '(' ∉ n.1 := by
      simp only [Numeral.names, List.mem_cons, List.not_mem_nil, or_false] at hn
      rcases hn with rfl | rfl | rfl <;> decide
    exact spoiled_of_dropName? hparen hall hdrop
  · rw [hdecimal] at hp
    cases hp

/-! ### First characters -/

/-- None of the characters of `set` behind the gaps. -/
def NoPunct (set s : List Char) : Prop := ∀ c rest, skipGaps s = c :: rest → c ∉ set

theorem NoPunct.reading_takePunct {set s : List Char} (h : NoPunct set s) :
    reading (takePunct set s) = none :=
  reading_takePunct_eq_none_iff.mpr h

theorem NoPunct.of_subset {set sub s : List Char} (h : NoPunct set s) (hsub : sub ⊆ set) :
    NoPunct sub s :=
  fun c rest hs hc => h c rest hs (hsub hc)

theorem noPunct_of_skipGaps {set s t : List Char} {c : Char} (h : skipGaps s = c :: t)
    (hc : c ∉ set) : NoPunct set s := by
  intro d rest hd
  obtain ⟨rfl, -⟩ := List.cons.inj (h.symm.trans hd)
  exact hc

theorem Punct.noPunct {set s r : List Char} {c : Char} (h : Punct c s r) (hgap : isGap c = false)
    (hc : c ∉ set) : NoPunct set s :=
  noPunct_of_skipGaps (skipGaps_of_punct h hgap) hc

theorem Name.noPunct {set s t rest : List Char} {name : String} (hname : Name t name rest)
    (h : Gap s t) (hset : set.any isNameStart = false) : NoPunct set s := by
  have hskip := skipGaps_of_name h hname
  obtain ⟨c, cs, rfl, -, hc, -⟩ := hname
  refine noPunct_of_skipGaps hskip ?_
  intro hmem
  exact List.any_eq_false.mp hset c hmem hc

theorem Number.noPunct {set s t rest : List Char} {x : Float} (hnumber : Number t x rest)
    (h : Gap s t) (hset : set ⊆ '-' :: noNumeral) : NoPunct set s := by
  have hskip := skipGaps_of_number h hnumber
  obtain ⟨c, t', rfl, hc, -, hminus⟩ := hnumber.eq_cons
  refine noPunct_of_skipGaps hskip ?_
  intro hmem
  rcases List.mem_cons.mp (hset hmem) with rfl | hmem
  · exact hminus rfl
  · exact hc hmem

/-- An atom begins with none of the characters that stand before or behind an operand. -/
theorem Atom.noPunct {s rest : List Char} {e : Expr} (h : Atom s e rest) :
    NoPunct ['~', '$', '-', ')'] s := by
  cases h with
  | group hopen _ _ => exact hopen.noPunct rfl (by decide)
  | constant hgap hname _ => exact hname.noPunct hgap rfl
  | call hgap hname _ => exact hname.noPunct hgap rfl
  | symbol hgap hname => exact hname.noPunct hgap rfl
  | number hgap hnumber => exact hnumber.noPunct hgap (by decide)

theorem Power.noPunct {s rest : List Char} {e : Expr} (h : Power s e rest) :
    NoPunct ['~', '$', '-', ')'] s := by
  cases h with
  | atom hatom => exact hatom.noPunct
  | raised hatom _ _ => exact hatom.noPunct

theorem Unary.noPunct {s rest : List Char} {e : Expr} (h : Unary s e rest) :
    NoPunct ['~', ')'] s := by
  cases h with
  | minus hop _ => exact hop.noPunct rfl (by decide)
  | escape hop _ => exact hop.noPunct rfl (by decide)
  | power hpower => exact hpower.noPunct.of_subset (by decide)

theorem Operand.noPunct {level : Level} {s rest : List Char} {e : Expr}
    (h : Operand level s e rest) : NoPunct ['~', ')'] s := by
  cases h with
  | unary hunary => exact hunary.noPunct
  | product hchain =>
      obtain ⟨hoperand, _⟩ := hchain
      cases hoperand with
      | unary hunary => exact hunary.noPunct

theorem Chain.noPunct {level : Level} {s rest : List Char} {e : Expr}
    (h : Chain level s e rest) : NoPunct ['~', ')'] s := by
  obtain ⟨hoperand, _⟩ := h
  exact hoperand.noPunct

theorem Tilde.noPunct {s rest : List Char} {e : Expr} (h : Tilde s e rest) :
    NoPunct [')'] s := by
  cases h with
  | sum hchain => exact hchain.noPunct.of_subset (by decide)
  | between hchain _ => exact hchain.noPunct.of_subset (by decide)
  | leading hsides =>
      cases hsides with
      | last hop _ => exact hop.noPunct rfl (by decide)
      | cons hop _ _ => exact hop.noPunct rfl (by decide)

end Grammar

end ModelFormula
