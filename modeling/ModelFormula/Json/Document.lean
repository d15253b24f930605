import ModelFormula.Decimal.Text
import ModelFormula.Text.Quoted

/-!
# JSON documents

* `Document` — a JSON value; the fields of an object keep their order;
* `Document.compact` — a document on one line, without blanks;
* `Document.pretty` — **a document with each element on a line of its own**, two blanks deeper than
  the one around it.

A number without a JSON text, an infinity or a NaN, is written as `null`.
-/

set_option autoImplicit false

namespace ModelFormula

/-- A JSON value. -/
inductive Document where
  | null
  | number (value : Float)
  | string (value : String)
  | array (elements : List Document)
  | object (fields : List (String × Document))

namespace Document

/-- The word that stands for no value. -/
def nullText : List Char := ['n', 'u', 'l', 'l']

/-- The text of a string. -/
def stringText (s : String) : List Char := quoted escapeJson s.toList

/-- The text of a number. -/
def numberText (value : Float) : List Char := (Double.jsonText? value).getD nullText

mutual
/-- A document on one line. -/
def compact : Document → List Char
  | .null => nullText
  | .number value => numberText value
  | .string value => stringText value
  | .array elements => '[' :: [','].intercalate (compactAll elements) ++ [']']
  | .object fields => '\x7b' :: [','].intercalate (compactFields fields) ++ ['\x7d']

/-- Each of a list of documents on one line. -/
def compactAll : List Document → List (List Char)
  | [] => []
  | d :: ds => compact d :: compactAll ds

/-- Each of a list of fields on one line. -/
def compactFields : List (String × Document) → List (List Char)
  | [] => []
  | (key, d) :: fields => (stringText key ++ ':' :: compact d) :: compactFields fields
end

/-- The start of a line inside `depth` arrays and objects. -/
def newLine (depth : Nat) : List Char := '\n' :: List.replicate (2 * depth) ' '

/-- Elements between two brackets, each on a line of its own. -/
def block (depth : Nat) (opening closing : Char) : List (List Char) → List Char
  | [] => [opening, closing]
  | elements =>
    opening :: newLine (depth + 1) ++ (',' :: newLine (depth + 1)).intercalate elements
      ++ newLine depth ++ [closing]

mutual
/-- A document inside `depth` arrays and objects, with each element on a line of its own. -/
def prettyAt (depth : Nat) : Document → List Char
  | .null => nullText
  | .number value => numberText value
  | .string value => stringText value
  | .array elements => block depth '[' ']' (prettyAll (depth + 1) elements)
  | .object fields => block depth '\x7b' '\x7d' (prettyFields (depth + 1) fields)

/-- Each of a list of documents inside `depth` arrays and objects. -/
def prettyAll (depth : Nat) : List Document → List (List Char)
  | [] => []
  | d :: ds => prettyAt depth d :: prettyAll depth ds

/-- Each of a list of fields inside `depth` arrays and objects. -/
def prettyFields (depth : Nat) : List (String × Document) → List (List Char)
  | [] => []
  | (key, d) :: fields =>
    (stringText key ++ ':' :: ' ' :: prettyAt depth d) :: prettyFields depth fields
end

/-- A document with each element on a line of its own. -/
def pretty (d : Document) : List Char := d.prettyAt 0

end Document

end ModelFormula
