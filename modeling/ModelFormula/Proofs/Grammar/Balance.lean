import ModelFormula.Proofs.Grammar.Numerals
import ModelFormula.Proofs.Grammar.Soundness

/-!
# Parentheses in what is read

An operator, a name and a number have no parentheses, and the rules open and close them in pairs, so
every text that a rule allows is balanced.

* `Balanced` — no parenthesis is closed that is not open, and none is left open;
* `Past`, `Closes` — what is left of a text behind a balanced start, and behind the parenthesis that
  closes after it;
* `Grammar.Tilde.past`, … — **what the rules allow is balanced**, by induction on derivations.
-/

set_option autoImplicit false

namespace ModelFormula

/-! ### Balanced texts -/

/-- No parenthesis is closed that is not open, and none is left open. -/
structure Balanced (s : List Char) : Prop where
  count_eq : s.count '(' = s.count ')'
  count_le : ∀ p, p <+: s → p.count ')' ≤ p.count '('

section

variable {s t : List Char}

theorem balanced_of_forall (h : ∀ c ∈ s, c ≠ '(' ∧ c ≠ ')') : Balanced s := by
  have hnone : ∀ p, p <+: s → p.count '(' = 0 ∧ p.count ')' = 0 := by
    intro p hp
    rw [List.count_eq_zero, List.count_eq_zero]
    exact ⟨fun hmem => (h _ (hp.subset hmem)).1 rfl, fun hmem => (h _ (hp.subset hmem)).2 rfl⟩
  have hs := hnone s (List.prefix_refl s)
  exact ⟨by rw [hs.1, hs.2], fun p hp => by rw [(hnone p hp).1, (hnone p hp).2]⟩

theorem Balanced.append (hs : Balanced s) (ht : Balanced t) : Balanced (s ++ t) where
  count_eq := by rw [List.count_append, List.count_append, hs.count_eq, ht.count_eq]
  count_le p hp := by
    rcases Nat.le_total p.length s.length with hle | hle
    · exact hs.count_le p (List.prefix_of_prefix_length_le hp (List.prefix_append s t) hle)
    · obtain ⟨q, rfl⟩ := List.prefix_of_prefix_length_le (List.prefix_append s t) hp hle
      have hq := ht.count_le q ((List.prefix_append_right_inj s).mp hp)
      rw [List.count_append, List.count_append, hs.count_eq]
      omega

theorem Balanced.parens (hs : Balanced s) : Balanced ('(' :: s ++ [')']) where
  count_eq := by simp [List.count_append, hs.count_eq]
  count_le p hp := by
    cases p with
    | nil => simp
    | cons c p =>
        rw [List.cons_append, List.cons_prefix_cons, List.prefix_concat_iff] at hp
        obtain ⟨rfl, rfl | hp⟩ := hp
        · simp [List.count_append, hs.count_eq]
        · have hle := hs.count_le p hp
          rw [List.count_cons_of_ne (by decide), List.count_cons_self]
          omega

end

/-- What is left of a text behind a balanced start. -/
def Past (s t : List Char) : Prop := ∃ w, s = w ++ t ∧ Balanced w

/-- What is left of a text behind a balanced start and the parenthesis that closes after it. -/
def Closes (s t : List Char) : Prop := ∃ w, s = w ++ ')' :: t ∧ Balanced w

section

variable {s t u : List Char}

theorem past_of_forall {w : List Char} (hs : s = w ++ t) (h : ∀ c ∈ w, c ≠ '(' ∧ c ≠ ')') :
    Past s t :=
  ⟨w, hs, balanced_of_forall h⟩

theorem past_refl (s : List Char) : Past s s := past_of_forall (w := []) rfl nofun

theorem Past.trans (hst : Past s t) (htu : Past t u) : Past s u := by
  obtain ⟨w, rfl, hw⟩ := hst
  obtain ⟨x, rfl, hx⟩ := htu
  exact ⟨w ++ x, (List.append_assoc ..).symm, hw.append hx⟩

theorem Past.closes (hst : Past s t) (htu : Closes t u) : Closes s u := by
  obtain ⟨w, rfl, hw⟩ := hst
  obtain ⟨x, rfl, hx⟩ := htu
  exact ⟨w ++ x, (List.append_assoc ..).symm, hw.append hx⟩

/-- Parentheses around a balanced text are passed together. -/
theorem Closes.past (h : Closes s t) : Past ('(' :: s) t := by
  obtain ⟨w, rfl, hw⟩ := h
  exact ⟨'(' :: w ++ [')'], by simp, hw.parens⟩

end

/-! ### Tokens -/

namespace Grammar

theorem ne_parens_of_isGap {c : Char} (h : isGap c = true) : c ≠ '(' ∧ c ≠ ')' := by
  rcases eq_of_isGap h with rfl | rfl | rfl | rfl <;> decide

theorem ne_parens_of_isNameRest {c : Char} (h : isNameRest c = true) : c ≠ '(' ∧ c ≠ ')' := by
  constructor
  · rintro rfl
    cases h
  · rintro rfl
    cases h

theorem Gap.past {s t : List Char} (h : Gap s t) : Past s t := by
  obtain ⟨gaps, hgaps, hs⟩ := h
  exact past_of_forall hs fun c hc => ne_parens_of_isGap (hgaps c hc)

theorem Punct.past {s t : List Char} {c : Char} (h : Punct c s t) (hc : c ≠ '(' ∧ c ≠ ')') :
    Past s t :=
  (Gap.past h).trans (past_of_forall (w := [c]) rfl (List.forall_mem_singleton.mpr hc))

theorem Punct.closes {s t : List Char} (h : Punct ')' s t) : Closes s t :=
  (Gap.past h).closes ⟨[], rfl, balanced_of_forall nofun⟩

theorem Name.past {s t : List Char} {name : String} (h : Name s name t) : Past s t := by
  obtain ⟨c, cs, hs, -, hc, hcs⟩ := h
  refine past_of_forall hs (List.forall_mem_cons.mpr ⟨?_, ?_⟩)
  · exact ne_parens_of_isNameRest (isNameRest_of_isNameStart hc)
  · exact fun d hd => ne_parens_of_isNameRest (hcs d hd)

theorem Number.past {s t : List Char} {x : Float} (h : Number s x t) : Past s t := by
  obtain ⟨w, hs, hsolid, -⟩ := Numeral.take?_again h.1
  refine past_of_forall hs fun c hc => ?_
  rcases hsolid c hc with hname | rfl | rfl
  · exact ne_parens_of_isNameRest hname
  · decide
  · decide

theorem ne_parens_of_operator {level : Level} {op : Char} (h : op ∈ level.operators) :
    op ≠ '(' ∧ op ≠ ')' := by
  constructor
  · rintro rfl
    revert h
    cases level <;> decide
  · rintro rfl
    revert h
    cases level <;> decide

/-! ### What the rules allow -/

mutual

theorem Tilde.past : ∀ {s rest : List Char} {e : Expr}, Tilde s e rest → Past s rest
  | _, _, _, .sum hchain => hchain.past
  | _, _, _, .between hchain hsides => hchain.past.trans hsides.past
  | _, _, _, .leading hsides => hsides.past

theorem Sides.past : ∀ {s rest : List Char} {es : List Expr}, Sides s es rest → Past s rest
  | _, _, _, .last hop hchain => (hop.past (by decide)).trans hchain.past
  | _, _, _, .cons hop hchain hsides =>
    (hop.past (by decide)).trans (hchain.past.trans hsides.past)

theorem Chain.past : ∀ {level : Level} {s rest : List Char} {e : Expr},
    Chain level s e rest → Past s rest
  | _, _, _, _, .mk hoperand hsteps => hoperand.past.trans hsteps.past

theorem Steps.past : ∀ {level : Level} {s rest : List Char} {steps : List (Char × Expr)},
    Steps level s steps rest → Past s rest
  | _, s, _, _, .nil => past_refl s
  | _, _, _, _, .cons hop hpunct hoperand hsteps =>
    (hpunct.past (ne_parens_of_operator hop)).trans (hoperand.past.trans hsteps.past)

theorem Operand.past : ∀ {level : Level} {s rest : List Char} {e : Expr},
    Operand level s e rest → Past s rest
  | _, _, _, _, .product hchain => hchain.past
  | _, _, _, _, .unary hunary => hunary.past

theorem Unary.past : ∀ {s rest : List Char} {e : Expr}, Unary s e rest → Past s rest
  | _, _, _, .minus hop hunary => (hop.past (by decide)).trans hunary.past
  | _, _, _, .escape hop hunary => (hop.past (by decide)).trans hunary.past
  | _, _, _, .power hpower => hpower.past

theorem Power.past : ∀ {s rest : List Char} {e : Expr}, Power s e rest → Past s rest
  | _, _, _, .atom hatom => hatom.past
  | _, _, _, .raised hatom hop hunary =>
    hatom.past.trans ((hop.past (by decide)).trans hunary.past)

theorem Atom.past : ∀ {s rest : List Char} {e : Expr}, Atom s e rest → Past s rest
  | _, _, _, .group hopen htilde hclose =>
    (Gap.past hopen).trans (htilde.past.closes hclose.closes).past
  | _, _, _, .constant hgap hname hclose => hgap.past.trans (hname.past.trans hclose.closes.past)
  | _, _, _, .call hgap hname hargs => hgap.past.trans (hname.past.trans hargs.closes.past)
  | _, _, _, .symbol hgap hname => hgap.past.trans hname.past
  | _, _, _, .number hgap hnumber => hgap.past.trans hnumber.past

theorem Arguments.closes : ∀ {s rest : List Char} {es : List Expr},
    Arguments s es rest → Closes s rest
  | _, _, _, .last htilde hclose => htilde.past.closes hclose.closes
  | _, _, _, .cons htilde hop hargs =>
    htilde.past.closes ((hop.past (by decide)).closes hargs.closes)

end

end Grammar

end ModelFormula
