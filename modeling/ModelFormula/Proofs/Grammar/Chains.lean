import ModelFormula.Proofs.Grammar.Parts

/-!
# Chains of operand texts

Texts that are operands on their own stay the same operands with an operator between each two, and
with parentheses around all of them they are one operand again.

* `Grammar.Separates` — an operator with gaps around it;
* `Expr.IsOperand` — a text that is an operand of a chain, **but for gaps at its end**;
* `Expr.exists_chain` — what is derived of operand texts joined by an operator;
* `Expr.parse_intercalate` — **they are read as one call**;
* `Expr.isOperand_group` — in parentheses, as one operand.
-/

set_option autoImplicit false

namespace ModelFormula

namespace Grammar

/-- An operator with gaps around it, if there are any. -/
def Separates (op : Char) (s : List Char) : Prop := ∃ after, Punct op s after ∧ Gap after []

theorem Gap.append {s t u : List Char} (h : Gap s t) : Gap (s ++ u) (t ++ u) := by
  obtain ⟨gaps, hgaps, rfl⟩ := h
  exact ⟨gaps, hgaps, List.append_assoc ..⟩

/-- Behind gaps and before a text there is still the operator. -/
theorem Separates.punct {op : Char} {sep gaps : List Char} (h : Separates op sep)
    (hgaps : ∀ c ∈ gaps, isGap c = true) (rest : List Char) :
    ∃ s, Punct op (gaps ++ (sep ++ rest)) s ∧ Gap s rest := by
  obtain ⟨after, ⟨before, hbefore, rfl⟩, hafter⟩ := h
  refine ⟨after ++ rest, ⟨gaps ++ before, ?_, by simp⟩, hafter.append⟩
  intro c hc
  exact (List.mem_append.mp hc).elim (hgaps c) (hbefore c)

/-- What ends a name leaves nothing of it. -/
theorem NameEnds.not_spoiled {s : List Char} (h : NameEnds s) : ¬Spoiled s := by
  rintro ⟨cs, q, rfl, hcs⟩
  cases cs with
  | nil => exact (isNameEnd_iff.mp (h '(' q rfl)).2 rfl
  | cons c cs =>
      have hend := (isNameEnd_iff.mp (h c _ rfl)).1
      rw [hcs c List.mem_cons_self] at hend
      cases hend

end Grammar

namespace Expr

open Grammar

/-! ### Operand texts -/

/-- A text that is an operand of a chain, but for gaps at its end. -/
def IsOperand (level : Level) (s : List Char) (e : Expr) : Prop :=
  ∃ gaps, reading (operandOf level s) = some (e, gaps) ∧ ∀ c ∈ gaps, isGap c = true

theorem isOperand_of_operand {level : Level} {s : List Char} {e : Expr}
    (h : Operand level s e []) : IsOperand level s e :=
  ⟨[], h.reading (ends_of_blank (List.forall_mem_nil _) (by cases level <;> rfl)), by simp⟩

theorem isOperand_symbol {name : String} (hname : IsName name) (level : Level) :
    IsOperand level name.toList (.symbol name) := by
  have hline : level.strength + 1 ≤ 4 := by cases level <;> decide
  have hread := (reads_symbol hname).loosen hline [] trivial
  rw [List.append_nil] at hread
  exact isOperand_of_operand (operand_of_line hread)

section

variable {level : Level} {op : Char} {sep s : List Char} {e : Expr} {texts : List (List Char)}
  {es : List Expr}

/-- An operand text stays an operand before anything that does not go on with it. -/
theorem IsOperand.exists_operand (h : IsOperand level s e) :
    ∃ gaps, (∀ c ∈ gaps, isGap c = true) ∧ ∀ rest, Ends (afterOperand level) (gaps ++ rest) →
      Operand level (s ++ rest) e (gaps ++ rest) := by
  obtain ⟨gaps, hread, hgaps⟩ := h
  refine ⟨gaps, hgaps, ?_⟩
  intro rest hends
  obtain ⟨w, rfl, -, hkept | hmisread⟩ :=
    operand_continued (fun t _ => continuing _ t (Nat.lt_succ_self _)) level _ _ hread
  · have hagain := hkept (gaps ++ rest) (.inr hends)
    rw [← List.append_assoc] at hagain
    have hfaithful := (sound _ _ (Nat.lt_succ_self _)).operand level _ _ hagain
    exact hfaithful.resolve_right hends.1.not_spoiled
  · exact absurd (fun c hc => isBlank_of_isGap (hgaps c hc)) hmisread.spoiled.not_blank

/-- Joined operand texts are an operand and the steps of a chain. -/
theorem exists_steps (hop : op ∈ level.operators) (hsep : Separates op sep)
    (hs : IsOperand level s e) (h : List.Forall₂ (IsOperand level) texts es) :
    ∃ gaps, (∀ c ∈ gaps, isGap c = true) ∧ ∀ rest, Ends (afterOperand level) (gaps ++ rest) →
      ∃ r, Operand level (s ++ (following sep texts ++ rest)) e r ∧
        Steps level r (es.map fun f => (op, f)) (gaps ++ rest) := by
  induction h generalizing s e with
  | nil =>
      obtain ⟨gaps, hgaps, hoperand⟩ := hs.exists_operand
      exact ⟨gaps, hgaps, fun rest hends => ⟨_, hoperand rest hends, .nil⟩⟩
  | @cons t f texts es ht _ ih =>
      obtain ⟨between, hbetween, hoperand⟩ := hs.exists_operand
      obtain ⟨gaps, hgaps, hothers⟩ := ih ht
      refine ⟨gaps, hgaps, ?_⟩
      intro rest hends
      obtain ⟨r, hnext, hsteps⟩ := hothers rest hends
      obtain ⟨u, hpunct, hgap⟩ := hsep.punct hbetween (t ++ (following sep texts ++ rest))
      obtain ⟨hopGap, hopAfter⟩ := operators_disjoint hop
      have hopEnd := List.all_eq_true.mp (all_operators level) _ hop
      have hsplit : following sep (t :: texts) ++ rest =
          sep ++ (t ++ (following sep texts ++ rest)) := by
        simp [following]
      rw [hsplit]
      refine ⟨_, hoperand _ (ends_of_punct hpunct hopEnd hopGap hopAfter), ?_⟩
      exact .cons hop hpunct (hnext.of_gap hgap) hsteps

/-- Joined by the operator of a run, operand texts derive one call. -/
theorem exists_chain (hsep : Separates level.collapsing sep)
    (h : List.Forall₂ (IsOperand level) texts es) (hlen : 2 ≤ texts.length) :
    ∃ gaps, (∀ c ∈ gaps, isGap c = true) ∧ ∀ rest, Ends (afterChain level) (gaps ++ rest) →
      Chain level (joined sep texts ++ rest) (.call level.collapsing.toString es)
        (gaps ++ rest) := by
  have hop : level.collapsing ∈ level.operators := by cases level <;> exact List.mem_cons_self
  cases h with
  | nil => exact absurd hlen (by simp)
  | @cons s e texts es hs h =>
      have hne : es ≠ [] := by
        rintro rfl
        rw [List.forall₂_nil_right_iff.mp h] at hlen
        exact absurd hlen (by simp)
      obtain ⟨gaps, hgaps, hparts⟩ := exists_steps hop hsep hs h
      refine ⟨gaps, hgaps, ?_⟩
      intro rest hends
      obtain ⟨r, hoperand, hsteps⟩ :=
        hparts rest (hends.of_subset (List.subset_append_right ..))
      rw [joined_cons, List.append_assoc, ← chainTree_map hne (.inl rfl)]
      exact .mk hoperand hsteps

theorem tilde_of_chain {rest : List Char} (h : Chain level s e rest) : Tilde s e rest := by
  rw [← line_chain] at h
  exact Line.loosen (Nat.zero_le _) h

/-- Operand texts that the operator of a run joins are read as one call. -/
theorem parse_joined (hsep : Separates level.collapsing sep)
    (h : List.Forall₂ (IsOperand level) texts es) (hlen : 2 ≤ texts.length) :
    parse (String.ofList (joined sep texts)) = .ok (.call level.collapsing.toString es) := by
  obtain ⟨gaps, hgaps, hchain⟩ := exists_chain hsep h hlen
  have hblank : ∀ c ∈ gaps, isBlank c = true := fun c hc => isBlank_of_isGap (hgaps c hc)
  have hends : Ends (afterChain level) (gaps ++ []) := by
    rw [List.append_nil]
    exact ends_of_blank hblank (by cases level <;> rfl)
  have hall := tilde_of_chain (hchain [] hends)
  rw [List.append_nil, List.append_nil] at hall
  exact parse_of_derives ⟨gaps, by rwa [String.toList_ofList], hblank⟩

/-- In parentheses they are one operand again. -/
theorem isOperand_inParens (hsep : Separates level.collapsing sep)
    (h : List.Forall₂ (IsOperand level) texts es) (hlen : 2 ≤ texts.length) :
    IsOperand level (inParens (joined sep texts)) (.call level.collapsing.toString es) := by
  obtain ⟨gaps, hgaps, hchain⟩ := exists_chain hsep h hlen
  have hclose : Punct ')' (gaps ++ [')']) [] := ⟨gaps, hgaps, rfl⟩
  have hends : Ends (afterChain level) (gaps ++ [')']) :=
    ends_of_punct hclose rfl rfl (by cases level <;> decide)
  have hatom : Atom (inParens (joined sep texts)) (.call level.collapsing.toString es) [] :=
    .group (gap_refl _) (tilde_of_chain (hchain [')'] hends)) hclose
  have hline : level.strength + 1 ≤ 4 := by cases level <;> decide
  exact isOperand_of_operand (operand_of_line (Line.loosen hline hatom))

end

/-! ### Strings -/

theorem intercalate_eq_ofList (sep : String) (texts : List String) :
    sep.intercalate texts = String.ofList (joined sep.toList (texts.map String.toList)) := by
  rw [joined, ← String.toList_intercalate, String.ofList_toList]

section

variable {level : Level} {sep : String} {texts : List String} {es : List Expr}

/-- **Operand texts that the operator of a run joins are read as one call.** -/
theorem parse_intercalate (hsep : Separates level.collapsing sep.toList)
    (h : List.Forall₂ (fun s e => IsOperand level s.toList e) texts es)
    (hlen : 2 ≤ texts.length) :
    parse (sep.intercalate texts) = .ok (.call level.collapsing.toString es) := by
  rw [intercalate_eq_ofList]
  exact parse_joined hsep (List.forall₂_map_left_iff.mpr h) (by rwa [List.length_map])

theorem isOperand_group (hsep : Separates level.collapsing sep.toList)
    (h : List.Forall₂ (fun s e => IsOperand level s.toList e) texts es)
    (hlen : 2 ≤ texts.length) :
    IsOperand level ("(" ++ sep.intercalate texts ++ ")").toList
      (.call level.collapsing.toString es) := by
  have hchars : ("(" ++ sep.intercalate texts ++ ")").toList =
      inParens (joined sep.toList (texts.map String.toList)) := by
    simp [intercalate_eq_ofList, inParens]
  rw [hchars]
  exact isOperand_inParens hsep (List.forall₂_map_left_iff.mpr h) (by rwa [List.length_map])

end

end Expr

end ModelFormula
