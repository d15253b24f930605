import ModelFormula.Formula.Basic
import ModelFormula.Json.Document

/-!
# Expressions, terms and formulas as JSON

Every object of an expression or a term begins with its `kind`, the other fields follow in a fixed
order.

* `Expr.document`, `Term.document`, `Formula.document` — the documents.

A captured call shows its function by name only, and nothing of its scope.
-/

set_option autoImplicit false

namespace ModelFormula

namespace Expr

mutual
/-- The document of an expression. -/
def document : Expr → Document
  | .call op args =>
    .object [("kind", .string "call"), ("op", .string op), ("args", .array (documents args))]
  | .symbol name => .object [("kind", .string "symbol"), ("name", .string name)]
  | .number value => .object [("kind", .string "number"), ("value", .number value)]
  | .absent => .object [("kind", .string "absent")]

/-- The document of each of a list of expressions. -/
def documents : List Expr → List Document
  | [] => []
  | e :: es => document e :: documents es
end

end Expr

namespace Term

mutual
/-- The document of a term. -/
def document : Term → Document
  | .column name => .object [("kind", .string "column"), ("name", .string name)]
  | .constant value => .object [("kind", .string "constant"), ("value", .number value)]
  | .absent => .object [("kind", .string "absent")]
  | .op o args =>
    .object [("kind", .string "op"), ("op", .string o.label), ("args", .array (documents args))]
  | .captured call lowered =>
    .object [("kind", .string "captured"), ("function", .string call.function.name),
      ("free_variables", .array (call.freeVariables.map .string)),
      ("original", call.expr.document), ("lowered_args", .array (documents lowered))]

/-- The document of each of a list of terms. -/
def documents : List Term → List Document
  | [] => []
  | t :: ts => document t :: documents ts
end

end Term

/-- The document of a formula. -/
def Formula.document (f : Formula) : Document :=
  .object [("original", f.expr.document), ("lhs", f.lhs.document), ("rhs", f.rhs.document)]

end ModelFormula
