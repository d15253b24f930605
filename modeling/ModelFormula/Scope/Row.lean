/-!
# Data rows

A row of data gives values to variables.

* `Row.get?` — the value of a variable;
* `Row.bind` — a row with one more binding, which hides an earlier one of the same name;
* `Row.ofPairs` — the row of a list of bindings, **the last binding of a name wins.**
-/

set_option autoImplicit false

namespace ModelFormula

/-- A row of data: values of variables, the latest binding first. -/
structure Row where
  bindings : List (String × Float)
  deriving Repr

namespace Row

/-- The row that binds nothing. -/
def empty : Row := ⟨[]⟩

/-- A row with one more binding, which hides an earlier one of the same name. -/
def bind (r : Row) (name : String) (value : Float) : Row := ⟨(name, value) :: r.bindings⟩

/-- The value of a variable. -/
def get? (r : Row) (name : String) : Option Float := r.bindings.lookup name

/-- The row of a list of bindings, the last binding of a name wins. -/
def ofPairs (pairs : List (String × Float)) : Row := ⟨pairs.reverse⟩

theorem get?_bind (r : Row) (name other : String) (value : Float) :
    (r.bind name value).get? other = if other = name then some value else r.get? other := by
  by_cases h : other = name
  · simp [get?, bind, h]
  · simp [get?, bind, List.lookup_cons, h, beq_eq_false_iff_ne.mpr h]

end Row

end ModelFormula
