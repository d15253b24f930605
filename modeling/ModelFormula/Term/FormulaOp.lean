import ModelFormula.Expr.Printer

/-!
# Formula operators

The four operators that have a meaning of their own in a formula.  All other calls are captured.

* `FormulaOp` — sum, interaction, expansion and tilde;
* `FormulaOp.ofSymbol?` — **the operator of a symbol, inverse to `FormulaOp.symbol`.**
-/

set_option autoImplicit false

namespace ModelFormula

/-- An operator that has a meaning of its own in a formula. -/
inductive FormulaOp where
  /-- `+`, a sum of terms. -/
  | sum
  /-- `&`, an interaction. -/
  | interaction
  /-- `*`, main effects and all their interactions. -/
  | expand
  /-- `~`, between response and predictors. -/
  | tilde
  deriving DecidableEq, Repr

namespace FormulaOp

/-- The formula operators in their order. -/
def all : List FormulaOp := [.sum, .interaction, .expand, .tilde]

/-- The symbol of a formula operator. -/
def symbol : FormulaOp → String
  | .sum => "+"
  | .interaction => "&"
  | .expand => "*"
  | .tilde => "~"

/-- The name of a formula operator. -/
def label : FormulaOp → String
  | .sum => "Sum"
  | .interaction => "Interaction"
  | .expand => "Expand"
  | .tilde => "Tilde"

/-- The formula operator of a symbol. -/
def ofSymbol? (op : String) : Option FormulaOp := all.find? fun o => o.symbol == op

/-- How tightly a formula operator binds. -/
def strength : FormulaOp → Nat
  | .tilde => 0
  | .sum => 1
  | .interaction | .expand => 2

/-- The place of a formula operator in their order. -/
def index (o : FormulaOp) : Nat := all.idxOf o

theorem symbol_mem (o : FormulaOp) : o.symbol ∈ ["+", "&", "*", "~"] := by
  cases o <;> decide

theorem ofSymbol?_symbol (o : FormulaOp) : ofSymbol? o.symbol = some o := by
  cases o <;> decide

theorem symbol_of_ofSymbol? {op : String} {o : FormulaOp} (h : ofSymbol? op = some o) :
    o.symbol = op := by
  simpa using List.find?_some h

/-- A formula operator binds as its symbol does in an expression. -/
theorem precedence_symbol (o : FormulaOp) : precedence o.symbol = some o.strength := by
  cases o <;> decide

end FormulaOp

end ModelFormula
