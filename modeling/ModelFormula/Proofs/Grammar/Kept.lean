import ModelFormula.Proofs.Grammar.Completeness
import ModelFormula.Proofs.Grammar.Numerals

/-!
# Readings that do not depend on the text behind them

A reader looks past what it reads: at the next character, which could go on with a name or a
number, and behind gaps at the next operator.  What it read is read again if the text behind is cut
off at any place, or replaced by one that nothing goes on with.  There is one exception, a call that
cannot be read and whose name begins with a numeral: cut off at the end of its name, it is a
variable.

* `Kept` — a reading that is kept before other texts;
* `Misread` — the exception, in which **one more variable is read** from a text that is cut off;
* `Continues` — one of the two, for what a reader took off the front of a text;
* `Continues.before_punct` — what stands before a character of punctuation is kept;
* `continued_goOn` — **a reader that may go on behind an operator**, as five of the six lines of the
  grammar do.
-/

set_option autoImplicit false

namespace ModelFormula

namespace Grammar

/-! ### Ends of texts -/

/-- A text that ends with a character that is no blank. -/
def EndsSharp (s : List Char) : Prop := ∃ t c, s = t ++ [c] ∧ isBlank c = false

theorem EndsSharp.prepend {s : List Char} (h : EndsSharp s) (t : List Char) :
    EndsSharp (t ++ s) := by
  obtain ⟨u, c, rfl, hc⟩ := h
  exact ⟨t ++ u, c, (List.append_assoc ..).symm, hc⟩

theorem endsSharp_singleton {c : Char} (h : isBlank c = false) : EndsSharp [c] := ⟨[], c, rfl, h⟩

theorem EndsSharp.cons {s : List Char} (h : EndsSharp s) (c : Char) : EndsSharp (c :: s) :=
  h.prepend [c]

theorem endsSharp_of_forall {s : List Char} (hs : s ≠ []) (h : ∀ c ∈ s, isBlank c = false) :
    EndsSharp s :=
  ⟨s.dropLast, s.getLast hs, (List.dropLast_append_getLast hs).symm, h _ (List.getLast_mem hs)⟩

theorem EndsSharp.ne_nil {s : List Char} (h : EndsSharp s) : s ≠ [] := by
  obtain ⟨t, c, rfl, -⟩ := h
  simp

/-- The gaps before a text do not depend on what follows it. -/
theorem EndsSharp.skipGaps {s : List Char} (h : EndsSharp s) :
    ∃ c t, ∀ r, ModelFormula.skipGaps (s ++ r) = c :: (t ++ r) := by
  have hsome : ModelFormula.skipGaps s ≠ [] := by
    obtain ⟨t, c, rfl, hc⟩ := h
    intro hnil
    have hgap := List.dropWhile_eq_nil_iff.mp hnil c (by simp)
    rw [isBlank_of_isGap hgap] at hc
    cases hc
  obtain ⟨c, t, hskip⟩ := List.exists_cons_of_ne_nil hsome
  refine ⟨c, t, fun r => ?_⟩
  have hstops : Stops isGap (c :: (t ++ r)) := by
    refine stops_cons _ ?_
    exact stops_dropWhile isGap s c t hskip
  have hgap : Gap (s ++ r) (c :: (t ++ r)) := by
    obtain ⟨gaps, hgaps, hs⟩ := gap_skipGaps s
    rw [hskip] at hs
    exact ⟨gaps, hgaps, by rw [hs, List.append_assoc, List.cons_append]⟩
  exact skipGaps_of_gap hgap hstops

theorem EndsSharp.noPunct {s set r : List Char} (h : EndsSharp s) (rest : List Char)
    (hr : NoPunct set (s ++ rest)) : NoPunct set (s ++ r) := by
  obtain ⟨c, t, hskip⟩ := h.skipGaps
  exact noPunct_of_skipGaps (hskip r) (hr c _ (hskip rest))

/-! ### Starts of texts -/

theorem NameEnds.of_isPrefix {s r : List Char} (h : NameEnds s) (hr : r <+: s) : NameEnds r := by
  obtain ⟨u, rfl⟩ := hr
  intro c t hc
  exact h c (t ++ u) (by rw [hc, List.cons_append])

theorem NoPunct.of_isPrefix {set s r : List Char} (h : NoPunct set s) (hr : r <+: s) :
    NoPunct set r := by
  obtain ⟨u, rfl⟩ := hr
  intro c t hskip
  have hgap := gap_skipGaps r
  rw [hskip] at hgap
  obtain ⟨gaps, hgaps, hsplit⟩ := hgap
  refine h c (t ++ u) (skipGaps_of_gap ⟨gaps, hgaps, ?_⟩ (stops_cons _ ?_))
  · rw [hsplit, List.append_assoc, List.cons_append]
  · exact stops_dropWhile isGap r c t hskip

/-! ### Readings -/

section

variable {α β γ : Type}

/-- What is read off the front of a text, and the rest. -/
abbrev Reader (α : Type) := List Char → Option (α × List Char)

/-- A reading that is kept before every start of the rest, and before every text that may follow. -/
def Kept (follow : List Char → Prop) (read : Reader α) (w : List Char) (v : α)
    (rest : List Char) : Prop :=
  ∀ r, r <+: rest ∨ follow r → read (w ++ r) = some (v, r)

/-- A reading that leaves the end of a name with a parenthesis; if the text is cut off before the
parenthesis, the name is read as a variable. -/
def Misread (vars : α → List String) (read : Reader α) (w : List Char) (v : α)
    (rest : List Char) : Prop :=
  ∃ cs q u name, rest = cs ++ '(' :: q ∧ (∀ c ∈ cs, isNameRest c = true) ∧
    read (w ++ cs) = some (u, []) ∧ vars u = vars v ++ [name]

theorem Misread.spoiled {vars : α → List String} {read : Reader α} {w rest : List Char} {v : α}
    (h : Misread vars read w v rest) : Spoiled rest := by
  obtain ⟨cs, q, u, name, hrest, hcs, -, -⟩ := h
  exact ⟨cs, q, hrest, hcs⟩

/-- What a reader took off the front of a text, which is kept or misread. -/
def Continues (follow : List Char → Prop) (vars : α → List String) (read : Reader α)
    (s : List Char) (v : α) (rest : List Char) : Prop :=
  ∃ w, s = w ++ rest ∧ EndsSharp w ∧
    (Kept follow read w v rest ∨ Misread vars read w v rest)

/-- Whatever a reader takes off the front of a text is kept or misread. -/
def Continued (follow : List Char → Prop) (vars : α → List String) (read : Reader α)
    (s : List Char) : Prop :=
  ∀ v rest, read s = some (v, rest) → Continues follow vars read s v rest

/-- What a reader took off the front of a text, which is kept before every other text. -/
def Closed (read : Reader α) (s : List Char) (v : α) (rest : List Char) : Prop :=
  ∃ w, s = w ++ rest ∧ EndsSharp w ∧ ∀ r, read (w ++ r) = some (v, r)

variable {follow : List Char → Prop} {vars : α → List String} {vars' : β → List String}
  {read : Reader α} {read' : Reader β} {s rest : List Char} {v : α}

theorem Closed.continues (h : Closed read s v rest) : Continues follow vars read s v rest := by
  obtain ⟨w, hs, hsharp, hread⟩ := h
  exact ⟨w, hs, hsharp, .inl fun r _ => hread r⟩

/-! ### One reading after the other -/

/-- A reading behind a text that changes nothing but the value. -/
theorem Continues.behind {w : List Char} {k : α → β} {p : List String}
    (h : Continues follow vars read s v rest) (hk : ∀ u, vars' (k u) = p ++ vars u)
    (hread : ∀ x u t, read x = some (u, t) → read' (w ++ x) = some (k u, t)) :
    Continues follow vars' read' (w ++ s) (k v) rest := by
  obtain ⟨w', rfl, hsharp, hcases⟩ := h
  refine ⟨w ++ w', (List.append_assoc ..).symm, hsharp.prepend w, ?_⟩
  rcases hcases with hkept | ⟨cs, q, u, name, hrest, hcs, hcut, hvars⟩
  · left
    intro r hr
    rw [List.append_assoc]
    exact hread _ _ _ (hkept r hr)
  · right
    refine ⟨cs, q, k u, name, hrest, hcs, ?_, ?_⟩
    · rw [List.append_assoc]
      exact hread _ _ _ hcut
    · rw [hk, hk, hvars, List.append_assoc]

/-- A reading with another value. -/
theorem Continues.map {k : α → β} {p : List String} (h : Continues follow vars read s v rest)
    (hk : ∀ u, vars' (k u) = p ++ vars u) :
    Continues follow vars' (fun x => do let (u, t) ← read x; some (k u, t)) s (k v) rest :=
  h.behind (w := []) hk fun x u t hx => by simp [hx]

/-- A reading at a text that no character of `set` comes first in. -/
theorem Continues.first {set : List Char} {read' : Reader α} (hset : NoPunct set s)
    (h : Continues follow vars read s v rest)
    (hread : ∀ x u t, NoPunct set x → read x = some (u, t) → read' x = some (u, t)) :
    Continues follow vars read' s v rest := by
  obtain ⟨w, rfl, hsharp, hcases⟩ := h
  have hfirst : ∀ r, NoPunct set (w ++ r) := fun r => hsharp.noPunct rest hset
  refine ⟨w, rfl, hsharp, ?_⟩
  rcases hcases with hkept | ⟨cs, q, u, name, hrest, hcs, hcut, hvars⟩
  · left
    intro r hr
    exact hread _ _ _ (hfirst r) (hkept r hr)
  · right
    exact ⟨cs, q, u, name, hrest, hcs, hread _ _ _ (hfirst cs) hcut, hvars⟩

/-- A reading behind gaps. -/
theorem Continues.skipGaps (h : Continues follow vars read (ModelFormula.skipGaps s) v rest) :
    Continues follow vars (fun x => read (ModelFormula.skipGaps x)) s v rest := by
  obtain ⟨w, hw, hsharp, hcases⟩ := h
  obtain ⟨gaps, hgaps, hs⟩ := gap_skipGaps s
  have hskip : ∀ r, ModelFormula.skipGaps (gaps ++ w ++ r) = w ++ r := by
    intro r
    refine skipGaps_of_gap ⟨gaps, hgaps, List.append_assoc ..⟩ ?_
    obtain ⟨c, t, rfl⟩ := List.exists_cons_of_ne_nil hsharp.ne_nil
    exact stops_cons _ (stops_dropWhile isGap s c _ hw)
  refine ⟨gaps ++ w, by rw [List.append_assoc, ← hw, ← hs], hsharp.prepend gaps, ?_⟩
  rcases hcases with hkept | ⟨cs, q, u, name, hrest, hcs, hcut, hvars⟩
  · left
    intro r hr
    dsimp only
    rw [hskip]
    exact hkept r hr
  · right
    refine ⟨cs, q, u, name, hrest, hcs, ?_, hvars⟩
    dsimp only
    rw [hskip]
    exact hcut

/-- A reading behind a character of punctuation. -/
theorem Continues.behind_punct {set r : List Char} {c : Char} {k : α → β} {p : List String}
    (hop : reading (takePunct set s) = some (c, r)) (hset : set.any isGap = false)
    (h : Continues follow vars read r v rest) (hk : ∀ u, vars' (k u) = p ++ vars u)
    (hread : ∀ x y u t, reading (takePunct set x) = some (c, y) → read y = some (u, t) →
      read' x = some (k u, t)) :
    Continues follow vars' read' s (k v) rest := by
  obtain ⟨⟨gaps, hgaps, rfl⟩, hmem⟩ := punct_of_reading_takePunct hop
  have hsplit : ∀ z, gaps ++ c :: z = gaps ++ [c] ++ z := fun z => by simp
  rw [hsplit]
  refine h.behind hk ?_
  intro x u t hx
  have hpunct : Punct c (gaps ++ [c] ++ x) x := ⟨gaps, hgaps, (hsplit x).symm⟩
  have hgap : isGap c = false := by simpa using List.any_eq_false.mp hset c hmem
  exact hread _ _ _ _ (hpunct.reading_takePunct hgap hmem) hx

/-- **What stands before a character of punctuation is kept**, and is read again together with it
before every other text. -/
theorem Continues.before_punct {set r rest : List Char} {c : Char}
    (h : Continues follow vars read s v r) (hset : set.all isNameEnd = true)
    (hop : reading (takePunct set r) = some (c, rest)) (hblank : isBlank c = false)
    (hfollow : ∀ x y, Punct c x y → follow x) :
    ∃ w, s = w ++ rest ∧ EndsSharp w ∧ ∀ z, ∃ y, read (w ++ z) = some (v, y) ∧
      reading (takePunct set y) = some (c, z) := by
  obtain ⟨hpunct, hmem⟩ := punct_of_reading_takePunct hop
  obtain ⟨gaps, hgaps, rfl⟩ := hpunct
  have hgap : isGap c = false := by
    cases hg : isGap c with
    | false => rfl
    | true =>
        rw [isBlank_of_isGap hg] at hblank
        cases hblank
  obtain ⟨w, rfl, -, hkept | hmisread⟩ := h
  · refine ⟨w ++ (gaps ++ [c]), by simp, ?_, ?_⟩
    · exact ((endsSharp_singleton hblank).prepend gaps).prepend w
    · intro z
      have hnext : Punct c (gaps ++ c :: z) z := ⟨gaps, hgaps, rfl⟩
      refine ⟨gaps ++ c :: z, ?_, hnext.reading_takePunct hgap hmem⟩
      have hread := hkept (gaps ++ c :: z) (.inr (hfollow _ _ hnext))
      simpa using hread
  · rw [hmisread.spoiled.reading_takePunct hset] at hop
    cases hop

/-- A reader that goes on behind a character of `set`, if there is one. -/
def goOn (read : Reader α) (set : List Char) (done : α → β) (next : α → Char → Reader β) :
    Reader β := fun s => do
  let (v, r) ← read s
  match reading (takePunct set r) with
  | none => some (done v, r)
  | some (c, r') => next v c r'

section

variable {follow' : List Char → Prop} {set : List Char} {done : α → β}
  {next : α → Char → Reader β} {p : List String}

/-- Where no operator follows, a reading is kept or misread as it was. -/
theorem Continues.goOn_done (h : Continues follow vars read s v rest) (hnone : NoPunct set rest)
    (hdone : ∀ u, vars' (done u) = p ++ vars u)
    (hfollow : ∀ r, follow' r → follow r ∧ NoPunct set r) :
    Continues follow' vars' (goOn read set done next) s (done v) rest := by
  have hstop : ∀ x u t, read x = some (u, t) → NoPunct set t →
      goOn read set done next x = some (done u, t) := by
    intro x u t hx ht
    simp only [goOn, hx, Option.bind_eq_bind, Option.bind_some, ht.reading_takePunct]
  obtain ⟨w, rfl, hsharp, hkept | ⟨cs, q, u, name, hrest, hcs, hcut, hvars⟩⟩ := h
  · refine ⟨w, rfl, hsharp, .inl ?_⟩
    rintro r (hr | hr)
    · exact hstop _ _ _ (hkept r (.inl hr)) (hnone.of_isPrefix hr)
    · obtain ⟨hends, hnone'⟩ := hfollow r hr
      exact hstop _ _ _ (hkept r (.inr hends)) hnone'
  · refine ⟨w, rfl, hsharp, .inr ⟨cs, q, done u, name, hrest, hcs, hstop _ _ _ hcut nofun, ?_⟩⟩
    rw [hdone, hdone, hvars, List.append_assoc]

/-- **A reader that may go on behind an operator is continued if its parts are.** -/
theorem continued_goOn (hset : set.all isNameEnd = true) (hblank : set.any isBlank = false)
    (hdone : ∀ u, vars' (done u) = p ++ vars u) (hread : Continued follow vars read s)
    (hfollow : ∀ r, follow' r → follow r ∧ NoPunct set r)
    (hbefore : ∀ c ∈ set, ∀ x y, Punct c x y → follow x)
    (hnext : ∀ v c r, r.length < s.length → c ∈ set → Continued follow' vars' (next v c) r) :
    Continued follow' vars' (goOn read set done next) s := by
  intro b rest hb
  obtain ⟨⟨v, r⟩, hv, h⟩ := Option.bind_eq_some_iff.mp hb
  clear hb
  have hfirst := hread v r hv
  cases hop : reading (takePunct set r) with
  | none =>
      simp only [hop] at h
      cases h
      exact hfirst.goOn_done (reading_takePunct_eq_none_iff.mp hop) hdone hfollow
  | some op =>
      obtain ⟨c, r'⟩ := op
      simp only [hop] at h
      obtain ⟨-, hmem⟩ := punct_of_reading_takePunct hop
      obtain ⟨w, rfl, hsharp, hagain⟩ :=
        hfirst.before_punct hset hop (by simpa using List.any_eq_false.mp hblank c hmem)
          (hbefore c hmem)
      have hlt : r'.length < (w ++ r').length := by
        obtain ⟨t, d, rfl, -⟩ := hsharp
        rw [List.length_append, List.length_append, List.length_singleton]
        omega
      have hlast := hnext v c r' hlt hmem b rest h
      refine hlast.behind (k := id) (p := []) (fun _ => rfl) ?_
      intro x u t hx
      obtain ⟨y, hy, hpunct⟩ := hagain x
      simp only [goOn, hy, Option.bind_eq_bind, Option.bind_some, hpunct, id]
      exact hx

end

end

end Grammar

end ModelFormula
