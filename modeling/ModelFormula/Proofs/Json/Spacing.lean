import ModelFormula.Proofs.Json.Documents

/-!
# Documents with each element on a line of its own

The lines and blanks between the elements of a document are left aside by a reader that only has to
know whether it is inside a string.  What is left is the document on one line, so both texts tell
documents apart equally well.

* `Document.unspaced` — a text without the blanks and line feeds outside its strings;
* `Document.unspaced_prettyAt` — **what is left of a document with each element on its line is the
  document on one line**, whatever follows;
* `Document.pretty_inj` — distinct documents have distinct texts.
-/

set_option autoImplicit false

namespace ModelFormula

namespace Document

/-! ### Induction over documents -/

/-- Induction that treats all elements alike, and all fields. -/
@[elab_as_elim]
theorem inductionElements {motive : Document → Prop} (null : motive .null)
    (number : ∀ value, motive (.number value)) (string : ∀ s, motive (.string s))
    (array : ∀ ds, (∀ d ∈ ds, motive d) → motive (.array ds))
    (object : ∀ fields : List (String × Document), (∀ field ∈ fields, motive field.2) →
      motive (.object fields)) (d : Document) : motive d := by
  refine Document.rec (motive_2 := fun ds => ∀ d ∈ ds, motive d)
    (motive_3 := fun fields => ∀ field ∈ fields, motive field.2)
    (motive_4 := fun field => motive field.2) null number string array object ?_ ?_ ?_ ?_ ?_ d
  · intro d hd
    cases hd
  · intro d ds hd hds
    exact List.forall_mem_cons.mpr ⟨hd, hds⟩
  · intro field hfield
    cases hfield
  · intro field fields hfield hfields
    exact List.forall_mem_cons.mpr ⟨hfield, hfields⟩
  · intro key d hd
    exact hd

/-! ### Leaving blanks aside -/

/-- Where a reader of a document is. -/
inductive Place where
  /-- Between strings. -/
  | outside
  /-- In a string. -/
  | inside
  /-- In a string, behind a backslash. -/
  | escaped

/-- A text read on from a place, without the blanks and line feeds outside its strings. -/
def unspacedFrom : Place → List Char → List Char
  | _, [] => []
  | .outside, c :: s =>
    if c = ' ' ∨ c = '\n' then unspacedFrom .outside s
    else c :: unspacedFrom (if c = '"' then .inside else .outside) s
  | .inside, c :: s =>
    c :: unspacedFrom (if c = '"' then .outside else if c = '\\' then .escaped else .inside) s
  | .escaped, c :: s => c :: unspacedFrom .inside s

/-- A text without the blanks and line feeds outside its strings. -/
def unspaced (s : List Char) : List Char := unspacedFrom .outside s

/-- A character that is kept outside strings, and begins none. -/
def isSolid (c : Char) : Bool := c != ' ' && c != '\n' && c != '"'

theorem unspaced_append_of_isSolid {s : List Char} (h : ∀ c ∈ s, isSolid c = true)
    (rest : List Char) : unspaced (s ++ rest) = s ++ unspaced rest := by
  induction s with
  | nil => rfl
  | cons c s ih =>
      obtain ⟨hc, hs⟩ := List.forall_mem_cons.mp h
      simp only [isSolid, Bool.and_eq_true, bne_iff_ne] at hc
      obtain ⟨⟨hblank, hline⟩, hquote⟩ := hc
      have htail := ih hs
      unfold unspaced at htail ⊢
      rw [List.cons_append, unspacedFrom, if_neg (by simp [hblank, hline]), if_neg hquote, htail,
        List.cons_append]

theorem unspaced_replicate (n : Nat) (rest : List Char) :
    unspaced (List.replicate n ' ' ++ rest) = unspaced rest := by
  induction n with
  | zero => rfl
  | succ n ih =>
      rw [List.replicate_succ, List.cons_append, unspaced, unspacedFrom, if_pos (Or.inl rfl)]
      exact ih

/-- The start of a line is left aside. -/
theorem unspaced_newLine (depth : Nat) (rest : List Char) :
    unspaced (newLine depth ++ rest) = unspaced rest := by
  rw [newLine, List.cons_append, unspaced, unspacedFrom, if_pos (Or.inr rfl)]
  exact unspaced_replicate _ rest

theorem unspaced_space (rest : List Char) : unspaced (' ' :: rest) = unspaced rest :=
  unspaced_replicate 1 rest

/-! ### Strings and numbers -/

theorem unspacedFrom_inside_of_isAlphanum {ds : List Char} (h : ∀ d ∈ ds, d.isAlphanum = true)
    (rest : List Char) :
    unspacedFrom .inside (ds ++ rest) = ds ++ unspacedFrom .inside rest := by
  induction ds with
  | nil => rfl
  | cons d ds ih =>
      obtain ⟨hd, hds⟩ := List.forall_mem_cons.mp h
      have hquote : d ≠ '"' := ne_of_apply hd rfl
      have hbackslash : d ≠ '\\' := ne_of_apply hd rfl
      rw [List.cons_append, unspacedFrom, if_neg hquote, if_neg hbackslash, ih hds,
        List.cons_append]

/-- An escaped character is kept, and a reader of it stays inside the string. -/
theorem unspacedFrom_escape {c : Char} {text : List Char} (h : Escape c text) (rest : List Char) :
    unspacedFrom .inside (text ++ rest) = text ++ unspacedFrom .inside rest := by
  cases h with
  | plain hquote hbackslash =>
      rw [List.singleton_append, unspacedFrom, if_neg hquote, if_neg hbackslash,
        List.singleton_append]
  | letter d hd hc => simp [unspacedFrom]
  | digits ds hlength hvalue hdigits =>
      have htail := unspacedFrom_inside_of_isAlphanum hdigits rest
      simp [unspacedFrom, htail]

theorem unspaced_stringText (s : String) (rest : List Char) :
    unspaced (stringText s ++ rest) = stringText s ++ unspaced rest := by
  have hinside (cs : List Char) : unspacedFrom .inside (cs.flatMap escapeJson ++ '"' :: rest) =
      cs.flatMap escapeJson ++ '"' :: unspaced rest := by
    induction cs with
    | nil => rfl
    | cons c cs ih =>
        rw [List.flatMap_cons, List.append_assoc, unspacedFrom_escape (escape_escapeJson c), ih,
          List.append_assoc]
  have hstring (rest : List Char) : stringText s ++ rest =
      '"' :: (s.toList.flatMap escapeJson ++ '"' :: rest) := by
    simp [stringText, quoted]
  rw [hstring, hstring, ← hinside]
  rfl

theorem isSolid_of_isNumeralChar {c : Char} (h : isNumeralChar c = true) : isSolid c = true := by
  have hblank : c ≠ ' ' := ne_of_apply h rfl
  have hline : c ≠ '\n' := ne_of_apply h rfl
  have hquote : c ≠ '"' := ne_of_apply h rfl
  simp [isSolid, hblank, hline, hquote]

theorem isSolid_nullText : ∀ c ∈ nullText, isSolid c = true :=
  List.all_eq_true.mp rfl

theorem isSolid_of_mem_numberText (x : Float) : ∀ c ∈ numberText x, isSolid c = true := by
  by_cases hfin : Double.isFinite x = true
  · obtain ⟨c, s, hcons, hchars⟩ := numberText_of_isFinite hfin
    rw [hcons]
    exact fun d hd => isSolid_of_isNumeralChar (hchars d hd)
  · rw [numberText, Double.jsonText?, if_neg hfin, Option.getD_none]
    exact isSolid_nullText

/-! ### Blocks -/

/-- The text of a field inside `depth` arrays and objects. -/
def prettyField (depth : Nat) (field : String × Document) : List Char :=
  stringText field.1 ++ ':' :: ' ' :: field.2.prettyAt depth

theorem prettyAll_eq_map (depth : Nat) (ds : List Document) :
    prettyAll depth ds = ds.map (prettyAt depth) := by
  induction ds with
  | nil => rw [prettyAll, List.map_nil]
  | cons d ds ih => rw [prettyAll, ih, List.map_cons]

theorem prettyFields_eq_map (depth : Nat) (fields : List (String × Document)) :
    prettyFields depth fields = fields.map (prettyField depth) := by
  induction fields with
  | nil => rw [prettyFields, List.map_nil]
  | cons field fields ih => rw [prettyFields, ih, List.map_cons, prettyField]

section

variable {α : Type} {spaced dense : α → List Char} {xs : List α} {opening closing : Char}

theorem unspaced_following (depth : Nat)
    (h : ∀ x ∈ xs, ∀ rest, unspaced (spaced x ++ rest) = dense x ++ unspaced rest)
    (rest : List Char) :
    unspaced (following (',' :: newLine depth) (xs.map spaced) ++ rest) =
      following [','] (xs.map dense) ++ unspaced rest := by
  induction xs with
  | nil => rfl
  | cons x xs ih =>
      obtain ⟨hx, hxs⟩ := List.forall_mem_cons.mp h
      have hsplit : following (',' :: newLine depth) ((x :: xs).map spaced) ++ rest =
          [','] ++ (newLine depth ++ (spaced x ++
            (following (',' :: newLine depth) (xs.map spaced) ++ rest))) := by
        simp [following]
      rw [hsplit, unspaced_append_of_isSolid (List.forall_mem_singleton.mpr rfl), unspaced_newLine,
        hx, ih hxs]
      simp [following]

/-- Elements each on its line are the elements with commas between them, in the same brackets. -/
theorem unspaced_block (depth : Nat) (hopening : isSolid opening = true)
    (hclosing : isSolid closing = true)
    (h : ∀ x ∈ xs, ∀ rest, unspaced (spaced x ++ rest) = dense x ++ unspaced rest)
    (rest : List Char) :
    unspaced (block depth opening closing (xs.map spaced) ++ rest) =
      opening :: ([','].intercalate (xs.map dense) ++ closing :: unspaced rest) := by
  cases xs with
  | nil =>
      have hbrackets : ∀ c ∈ [opening, closing], isSolid c = true :=
        List.forall_mem_cons.mpr ⟨hopening, List.forall_mem_singleton.mpr hclosing⟩
      exact unspaced_append_of_isSolid hbrackets rest
  | cons x xs =>
      obtain ⟨hx, hxs⟩ := List.forall_mem_cons.mp h
      have hspaced : (',' :: newLine (depth + 1)).intercalate (spaced x :: xs.map spaced) =
          spaced x ++ following (',' :: newLine (depth + 1)) (xs.map spaced) := joined_cons _ _ _
      have hdense : [','].intercalate (dense x :: xs.map dense) =
          dense x ++ following [','] (xs.map dense) := joined_cons _ _ _
      have hsplit : block depth opening closing ((x :: xs).map spaced) ++ rest =
          [opening] ++ (newLine (depth + 1) ++ (spaced x ++
            (following (',' :: newLine (depth + 1)) (xs.map spaced) ++
              (newLine depth ++ ([closing] ++ rest))))) := by
        rw [List.map_cons, block, hspaced]
        · simp
        · exact List.cons_ne_nil _ _
      rw [hsplit, unspaced_append_of_isSolid (List.forall_mem_singleton.mpr hopening),
        unspaced_newLine, hx, unspaced_following _ hxs, unspaced_newLine,
        unspaced_append_of_isSolid (List.forall_mem_singleton.mpr hclosing), List.map_cons, hdense]
      simp

end

/-! ### Documents -/

/-- **What is left of a document with each element on its line is the document on one line.** -/
theorem unspaced_prettyAt (d : Document) : ∀ depth rest,
    unspaced (d.prettyAt depth ++ rest) = d.compact ++ unspaced rest := by
  induction d using inductionElements with
  | null =>
      intro depth rest
      rw [prettyAt, compact]
      exact unspaced_append_of_isSolid isSolid_nullText rest
  | number value =>
      intro depth rest
      rw [prettyAt, compact]
      exact unspaced_append_of_isSolid (isSolid_of_mem_numberText value) rest
  | string s =>
      intro depth rest
      rw [prettyAt, compact]
      exact unspaced_stringText s rest
  | array ds ih =>
      intro depth rest
      rw [prettyAt, prettyAll_eq_map, compact_array_append]
      exact unspaced_block depth rfl rfl (fun d hd => ih d hd _) rest
  | object fields ih =>
      intro depth rest
      rw [prettyAt, prettyFields_eq_map, compact_object_append]
      refine unspaced_block depth rfl rfl ?_ rest
      intro field hfield rest
      have hsplit : prettyField (depth + 1) field ++ rest =
          stringText field.1 ++ ([':'] ++ (' ' :: (field.2.prettyAt (depth + 1) ++ rest))) := by
        simp [prettyField]
      rw [hsplit, unspaced_stringText,
        unspaced_append_of_isSolid (List.forall_mem_singleton.mpr rfl), unspaced_space,
        ih field hfield, compactField]
      simp

theorem unspaced_pretty (d : Document) : unspaced d.pretty = d.compact := by
  have h := unspaced_prettyAt d 0 []
  rw [List.append_nil] at h
  exact h.trans (List.append_nil _)

/-- **Distinct documents of finite numbers have distinct texts with each element on its line.** -/
theorem pretty_inj {d d' : Document} (h : Finite d) (h' : Finite d') :
    d.pretty = d'.pretty ↔ d = d' := by
  constructor
  · intro htext
    rw [← compact_inj h h', ← unspaced_pretty, ← unspaced_pretty, htext]
  · rintro rfl
    rfl

end Document

end ModelFormula
