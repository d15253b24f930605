import ModelFormula.Proofs.Json.Numbers
import ModelFormula.Proofs.Json.Strings
import ModelFormula.Proofs.Printing.Lines

/-!
# Documents on one line

The first character of a text says what kind of document it is, and the text says where it ends.  So
two documents of finite numbers with the same text are the same document.

* `Document.Finite` — every number in a document is finite, so that none is written as `null`;
* `Document.Determines` — a text that says which document it is and where it ends;
* `Document.determines_compact` — **every document of finite numbers has such a text**, by
  induction on the document;
* `Document.compact_inj` — distinct documents have distinct texts.
-/

set_option autoImplicit false

namespace ModelFormula

namespace Document

/-! ### Finite documents -/

/-- Every number in a document is finite. -/
inductive Finite : Document → Prop
  | null : Finite .null
  | number {value : Float} : Double.isFinite value = true → Finite (.number value)
  | string (s : String) : Finite (.string s)
  | array {elements : List Document} : (∀ d ∈ elements, Finite d) → Finite (.array elements)
  | object {fields : List (String × Document)} :
      (∀ field ∈ fields, Finite field.2) → Finite (.object fields)

/-- The text of a field on one line. -/
def compactField (field : String × Document) : List Char :=
  stringText field.1 ++ ':' :: field.2.compact

theorem compactAll_eq_map (ds : List Document) : compactAll ds = ds.map compact := by
  induction ds with
  | nil => rw [compactAll, List.map_nil]
  | cons d ds ih => rw [compactAll, ih, List.map_cons]

theorem compactFields_eq_map (fields : List (String × Document)) :
    compactFields fields = fields.map compactField := by
  induction fields with
  | nil => rw [compactFields, List.map_nil]
  | cons field fields ih => rw [compactFields, ih, List.map_cons, compactField]

theorem compact_array_append (ds : List Document) (rest : List Char) :
    (array ds).compact ++ rest = '[' :: ([','].intercalate (ds.map compact) ++ ']' :: rest) := by
  rw [compact, compactAll_eq_map]
  simp

theorem compact_object_append (fields : List (String × Document)) (rest : List Char) :
    (object fields).compact ++ rest =
      '\x7b' :: ([','].intercalate (fields.map compactField) ++ '\x7d' :: rest) := by
  rw [compact, compactFields_eq_map]
  simp

/-! ### Where a text ends -/

/-- What follows a document in a text: no character of a numeral, which would continue it. -/
def Ended (rest : List Char) : Prop := Stops isNumeralChar rest

/-- The text of `x` says that it is `x`, among all that have the property `Q`, and where it ends. -/
def Determines {α : Type} (text : α → List Char) (Q : α → Prop) (x : α) : Prop :=
  ∀ y, Q y → ∀ rest rest', Ended rest → Ended rest' → text x ++ rest = text y ++ rest' →
    x = y ∧ rest = rest'

section

variable {α : Type} {text : α → List Char} {Q : α → Prop} {closing : Char}

theorem following_append_inj (hclosing : isNumeralChar closing = false) (hcomma : closing ≠ ',')
    {xs ys : List α} (hxs : ∀ x ∈ xs, Determines text Q x) (hys : ∀ y ∈ ys, Q y)
    {rest rest' : List Char}
    (h : following [','] (xs.map text) ++ closing :: rest =
      following [','] (ys.map text) ++ closing :: rest') :
    xs = ys ∧ rest = rest' := by
  have hends (zs : List α) (rest : List Char) :
      Ended (following [','] (zs.map text) ++ closing :: rest) := by
    cases zs with
    | nil => exact stops_cons _ hclosing
    | cons z zs => exact stops_cons _ rfl
  induction xs generalizing ys with
  | nil =>
      cases ys with
      | nil => exact ⟨rfl, (List.cons.inj h).2⟩
      | cons y ys => exact absurd (List.cons.inj h).1 hcomma
  | cons x xs ih =>
      cases ys with
      | nil => exact absurd (List.cons.inj h).1.symm hcomma
      | cons y ys =>
          obtain ⟨hx, hxs'⟩ := List.forall_mem_cons.mp hxs
          obtain ⟨hy, hys'⟩ := List.forall_mem_cons.mp hys
          have htexts : text x ++ (following [','] (xs.map text) ++ closing :: rest) =
              text y ++ (following [','] (ys.map text) ++ closing :: rest') := by
            simpa [following] using h
          obtain ⟨hhead, hfollowing⟩ := hx y hy _ _ (hends xs rest) (hends ys rest') htexts
          obtain ⟨htail, hrest⟩ := ih hxs' hys' hfollowing
          exact ⟨by rw [hhead, htail], hrest⟩

/-- Elements with a comma between each two, up to a closing bracket, are determined if each of them
is and none begins with the bracket. -/
theorem intercalate_append_inj (hclosing : isNumeralChar closing = false) (hcomma : closing ≠ ',')
    (hstart : ∀ x, Q x → ∃ c s, text x = c :: s ∧ c ≠ closing)
    {xs ys : List α} (hxs : ∀ x ∈ xs, Q x) (h : ∀ x ∈ xs, Determines text Q x)
    (hys : ∀ y ∈ ys, Q y) {rest rest' : List Char}
    (htext : [','].intercalate (xs.map text) ++ closing :: rest =
      [','].intercalate (ys.map text) ++ closing :: rest') :
    xs = ys ∧ rest = rest' := by
  have hcons (z : α) (zs : List α) :
      [','].intercalate ((z :: zs).map text) = text z ++ following [','] (zs.map text) :=
    joined_cons [','] (text z) (zs.map text)
  have hempty (z : α) (zs : List α) (s t : List Char) (hz : Q z) :
      [','].intercalate ((z :: zs).map text) ++ s ≠ closing :: t := by
    obtain ⟨c, u, hu, hc⟩ := hstart z hz
    rw [hcons, hu]
    exact fun heq => hc (List.cons.inj heq).1
  cases xs with
  | nil =>
      cases ys with
      | nil => exact ⟨rfl, (List.cons.inj htext).2⟩
      | cons y ys => exact absurd htext.symm (hempty y ys _ _ (hys y List.mem_cons_self))
  | cons x xs =>
      cases ys with
      | nil => exact absurd htext (hempty x xs _ _ (hxs x List.mem_cons_self))
      | cons y ys =>
          -- behind a comma in front, the first element is one of the following ones
          refine following_append_inj hclosing hcomma h hys ?_
          rw [hcons, hcons] at htext
          simpa [following] using htext

end

/-! ### The kind of a document -/

/-- What a document can be. -/
inductive Kind where
  | null
  | number
  | string
  | array
  | object
  deriving DecidableEq, Repr

/-- What a document is. -/
def kind : Document → Kind
  | .null => .null
  | .number _ => .number
  | .string _ => .string
  | .array _ => .array
  | .object _ => .object

/-- The kind of the documents that begin with a character. -/
def Kind.ofChar? (c : Char) : Option Kind :=
  if isNumeralChar c then some .number
  else match c with
    | 'n' => some .null
    | '"' => some .string
    | '[' => some .array
    | '\x7b' => some .object
    | _ => none

/-- The text of a finite number: characters of a numeral, at least one. -/
theorem numberText_of_isFinite {x : Float} (h : Double.isFinite x = true) :
    ∃ c s, numberText x = c :: s ∧ ∀ d ∈ c :: s, isNumeralChar d = true := by
  obtain ⟨c, s, hcons, -⟩ := Double.jsonDigits_eq_cons x
  have hchars := Double.isNumeralChar_of_mem_jsonDigits x
  rw [numberText, Double.jsonText?_of_isFinite h, Option.getD_some, hcons]
  rw [hcons] at hchars
  cases Double.isNegative x with
  | false => exact ⟨c, s, rfl, hchars⟩
  | true => exact ⟨'-', c :: s, rfl, List.forall_mem_cons.mpr ⟨rfl, hchars⟩⟩

/-- **The first character of the text of a document says what kind of document it is.** -/
theorem compact_eq_cons {d : Document} (h : Finite d) :
    ∃ c s, d.compact = c :: s ∧ Kind.ofChar? c = some d.kind := by
  cases h with
  | null => exact ⟨'n', _, by rw [compact, nullText], rfl⟩
  | @number x hx =>
      obtain ⟨c, s, hcons, hchars⟩ := numberText_of_isFinite hx
      have hc := hchars c List.mem_cons_self
      refine ⟨c, s, by rw [compact, hcons], ?_⟩
      unfold Kind.ofChar?
      rw [if_pos hc]
      rfl
  | string s => exact ⟨'"', _, by rw [compact, stringText, quoted, List.cons_append], rfl⟩
  | array _ => exact ⟨'[', _, by rw [compact, List.cons_append], rfl⟩
  | object _ => exact ⟨'\x7b', _, by rw [compact, List.cons_append], rfl⟩

theorem kind_eq_of_append {d d' : Document} (h : Finite d) (h' : Finite d')
    {rest rest' : List Char} (htext : d.compact ++ rest = d'.compact ++ rest') :
    d.kind = d'.kind := by
  obtain ⟨c, s, hcons, hc⟩ := compact_eq_cons h
  obtain ⟨c', s', hcons', hc'⟩ := compact_eq_cons h'
  rw [hcons, hcons'] at htext
  rw [(List.cons.inj htext).1, hc', Option.some.injEq] at hc
  exact hc.symm

/-! ### Documents -/

/-- The text of a number ends where the characters of numerals end. -/
theorem numberText_append_inj {x y : Float} (hx : Double.isFinite x = true)
    (hy : Double.isFinite y = true) {rest rest' : List Char} (hrest : Ended rest)
    (hrest' : Ended rest') (h : numberText x ++ rest = numberText y ++ rest') :
    x = y ∧ rest = rest' := by
  obtain ⟨c, s, hcons, hchars⟩ := numberText_of_isFinite hx
  obtain ⟨c', s', hcons', hchars'⟩ := numberText_of_isFinite hy
  obtain ⟨hrun, htail⟩ := takeWhile_append_of_stops hchars hrest
  obtain ⟨hrun', htail'⟩ := takeWhile_append_of_stops hchars' hrest'
  rw [hcons, hcons'] at h
  rw [h] at hrun htail
  have htext : numberText x = numberText y := by rw [hcons, hcons', ← hrun, hrun']
  refine ⟨?_, htail.symm.trans htail'⟩
  rw [numberText, numberText, Double.jsonText?_of_isFinite hx, Double.jsonText?_of_isFinite hy,
    Option.getD_some, Option.getD_some] at htext
  rw [← Double.jsonText?_inj hx hy, Double.jsonText?_of_isFinite hx,
    Double.jsonText?_of_isFinite hy, htext]

/-- Elements do not begin with the bracket that closes an array. -/
theorem compact_start {d : Document} (h : Finite d) :
    ∃ c s, d.compact = c :: s ∧ c ≠ ']' := by
  obtain ⟨c, s, hcons, hc⟩ := compact_eq_cons h
  refine ⟨c, s, hcons, ?_⟩
  rintro rfl
  cases hc

theorem determines_compactField {field : String × Document}
    (h : Determines compact Finite field.2) :
    Determines compactField (fun field => Finite field.2) field := by
  intro field' hfinite rest rest' hrest hrest' htext
  rw [compactField, compactField, List.append_assoc, List.append_assoc] at htext
  obtain ⟨hkey, hvalue⟩ := stringText_append_inj htext
  obtain ⟨hd, hrests⟩ := h field'.2 hfinite rest rest' hrest hrest' (List.cons.inj hvalue).2
  exact ⟨Prod.ext hkey hd, hrests⟩

/-- **The text of a document of finite numbers says which document it is**, and where it ends. -/
theorem determines_compact {d : Document} (h : Finite d) : Determines compact Finite d := by
  induction h with
  | null =>
      intro d' h' rest rest' _ _ htext
      have hkind := kind_eq_of_append .null h' htext
      cases h' with
      | null => exact ⟨rfl, List.append_cancel_left htext⟩
      | _ => cases hkind
  | number hx =>
      intro d' h' rest rest' hrest hrest' htext
      have hkind := kind_eq_of_append (.number hx) h' htext
      cases h' with
      | number hy =>
          rw [compact, compact] at htext
          obtain ⟨rfl, hrests⟩ := numberText_append_inj hx hy hrest hrest' htext
          exact ⟨rfl, hrests⟩
      | _ => cases hkind
  | string s =>
      intro d' h' rest rest' _ _ htext
      have hkind := kind_eq_of_append (.string s) h' htext
      cases h' with
      | string s' =>
          rw [compact, compact] at htext
          obtain ⟨rfl, hrests⟩ := stringText_append_inj htext
          exact ⟨rfl, hrests⟩
      | _ => cases hkind
  | array hfinite ih =>
      intro d' h' rest rest' _ _ htext
      have hkind := kind_eq_of_append (.array hfinite) h' htext
      cases h' with
      | array hfinite' =>
          rw [compact_array_append, compact_array_append] at htext
          obtain ⟨rfl, hrests⟩ := intercalate_append_inj rfl (by decide) (fun _ => compact_start)
            hfinite ih hfinite' (List.cons.inj htext).2
          exact ⟨rfl, hrests⟩
      | _ => cases hkind
  | object hfinite ih =>
      intro d' h' rest rest' _ _ htext
      have hkind := kind_eq_of_append (.object hfinite) h' htext
      cases h' with
      | object hfinite' =>
          rw [compact_object_append, compact_object_append] at htext
          -- a field begins with the quotation mark of its key
          obtain ⟨rfl, hrests⟩ := intercalate_append_inj rfl (by decide)
            (fun field _ => ⟨'"', _, rfl, by decide⟩) hfinite
            (fun field hfield => determines_compactField (ih field hfield)) hfinite'
            (List.cons.inj htext).2
          exact ⟨rfl, hrests⟩
      | _ => cases hkind

/-- **Distinct documents of finite numbers have distinct texts.** -/
theorem compact_inj {d d' : Document} (h : Finite d) (h' : Finite d') :
    d.compact = d'.compact ↔ d = d' := by
  constructor
  · intro htext
    have hend : Ended [] := fun _ _ heq => nomatch heq
    have happend : d.compact ++ [] = d'.compact ++ [] := by rw [htext]
    exact (determines_compact h d' h' [] [] hend hend happend).1
  · rintro rfl
    rfl

end Document

end ModelFormula
