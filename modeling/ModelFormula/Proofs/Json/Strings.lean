import ModelFormula.Json.Document

/-!
# Strings in JSON documents

A character is escaped in one of three ways, and the escape says where it ends and which character
it stands for.

* `Escape` — the three ways to escape a character;
* `takeEscaped?` — the character at the front of an escaped text, a left inverse of escaping
  (`takeEscaped?_escapeJson`);
* `Document.stringText_append_inj` — **the text of a string says where it ends and which string it
  is.**
-/

set_option autoImplicit false

namespace ModelFormula

/-! ### Escapes -/

/-- The value of a hexadecimal digit. -/
def hexDigitValue (c : Char) : Nat := if c.isDigit then c.toNat - 48 else c.toNat - 87

/-- The number that a row of hexadecimal digits denotes. -/
def ofHexDigits (ds : List Char) : Nat := ds.foldl (fun n c => 16 * n + hexDigitValue c) 0

/-- The character that a letter stands for behind a backslash. -/
def unescapedLetter : Char → Char
  | 'b' => '\x08'
  | 'f' => '\x0c'
  | 'n' => '\n'
  | 'r' => '\r'
  | 't' => '\t'
  | c => c

/-- The three ways to escape a character: as it stands, by a letter, by four digits. -/
inductive Escape (c : Char) : List Char → Prop
  | plain : c ≠ '"' → c ≠ '\\' → Escape c [c]
  | letter (d : Char) : d ≠ 'u' → unescapedLetter d = c → Escape c ['\\', d]
  | digits (ds : List Char) : ds.length = 4 → ofHexDigits ds = c.toNat →
      (∀ d ∈ ds, d.isAlphanum = true) → Escape c ('\\' :: 'u' :: ds)

/-- Four digits are enough for a control character. -/
theorem hexDigits_control : ∀ n < 0x20,
    (List.replicate (4 - (hexDigits n).length) '0' ++ hexDigits n).length = 4 ∧
      ofHexDigits (List.replicate (4 - (hexDigits n).length) '0' ++ hexDigits n) = n ∧
      (List.replicate (4 - (hexDigits n).length) '0' ++ hexDigits n).all Char.isAlphanum := by
  decide

theorem escape_escapeJson (c : Char) : Escape c (escapeJson c) := by
  unfold escapeJson
  split
  case h_8 hquote hbackslash _ _ _ _ _ =>
    split
    · rename_i hcontrol
      obtain ⟨hlength, hvalue, hdigits⟩ := hexDigits_control _ hcontrol
      exact .digits _ hlength hvalue (List.all_eq_true.mp hdigits)
    · exact .plain (fun h => hquote h) (fun h => hbackslash h)
  all_goals exact .letter _ (by decide) rfl

/-- The character at the front of an escaped text, and what follows it; a quotation mark ends the
text. -/
def takeEscaped? : List Char → Option (Char × List Char)
  | '\\' :: 'u' :: a :: b :: c :: d :: s => some (Char.ofNat (ofHexDigits [a, b, c, d]), s)
  | '\\' :: c :: s => some (unescapedLetter c, s)
  | '"' :: _ => none
  | c :: s => some (c, s)
  | [] => none

/-- **An escape says which character it stands for, and where it ends.** -/
theorem takeEscaped?_of_escape {c : Char} {text : List Char} (h : Escape c text) (s : List Char) :
    takeEscaped? (text ++ s) = some (c, s) := by
  cases h with
  | plain hquote hbackslash => simp [takeEscaped?, hbackslash]
  | letter d hd hc => simp [takeEscaped?, hd, hc]
  | digits ds hlength hvalue _ =>
      match ds, hlength with
      | [a, b, d, e], _ =>
          rw [List.cons_append, List.cons_append, List.cons_append, List.cons_append,
            List.cons_append, List.cons_append, List.nil_append, takeEscaped?, hvalue,
            Char.ofNat_toNat]

theorem takeEscaped?_escapeJson (c : Char) (s : List Char) :
    takeEscaped? (escapeJson c ++ s) = some (c, s) :=
  takeEscaped?_of_escape (escape_escapeJson c) s

/-! ### Strings -/

/-- The inside of a string says which string it is, and where it ends. -/
theorem escapeJson_append_inj {cs ds r r' : List Char}
    (h : cs.flatMap escapeJson ++ '"' :: r = ds.flatMap escapeJson ++ '"' :: r') :
    cs = ds ∧ r = r' := by
  have hclose (t : List Char) : takeEscaped? ('"' :: t) = none := rfl
  induction cs generalizing ds with
  | nil =>
      cases ds with
      | nil => exact ⟨rfl, (List.cons.inj h).2⟩
      | cons d ds =>
          have htake := congrArg takeEscaped? h
          rw [List.flatMap_nil, List.nil_append, hclose, List.flatMap_cons, List.append_assoc,
            takeEscaped?_escapeJson] at htake
          cases htake
  | cons c cs ih =>
      have htake := congrArg takeEscaped? h
      rw [List.flatMap_cons, List.append_assoc, takeEscaped?_escapeJson] at htake
      cases ds with
      | nil =>
          rw [List.flatMap_nil, List.nil_append, hclose] at htake
          cases htake
      | cons d ds =>
          rw [List.flatMap_cons, List.append_assoc, takeEscaped?_escapeJson, Option.some.injEq,
            Prod.mk.injEq] at htake
          obtain ⟨rfl, hrest⟩ := htake
          obtain ⟨rfl, hr⟩ := ih hrest
          exact ⟨rfl, hr⟩

/-- **The text of a string says which string it is, and where it ends.** -/
theorem Document.stringText_append_inj {s s' : String} {r r' : List Char}
    (h : stringText s ++ r = stringText s' ++ r') : s = s' ∧ r = r' := by
  have hinside : s.toList.flatMap escapeJson ++ '"' :: r =
      s'.toList.flatMap escapeJson ++ '"' :: r' := by
    simpa [stringText, quoted] using h
  obtain ⟨hs, hr⟩ := escapeJson_append_inj hinside
  exact ⟨String.toList_inj.mp hs, hr⟩

end ModelFormula
