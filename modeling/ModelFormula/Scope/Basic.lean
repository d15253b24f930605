import ModelFormula.Scope.Function

/-!
# Scopes

A scope holds the functions that are visible where a formula is written.

* `Scope.insert` — defines or shadows a function;
* `Scope.resolve` — the function of a name, **the one inserted last**;
* `Scope.name_of_resolve` — a function is found under its own name.
-/

set_option autoImplicit false

namespace ModelFormula

/-- The functions that are visible, the latest first. -/
structure Scope where
  functions : List Function

namespace Scope

/-- The scope that defines nothing. -/
def empty : Scope := ⟨[]⟩

/-- A scope with one more function, which shadows an earlier one of the same name. -/
def insert (S : Scope) (f : Function) : Scope := ⟨f :: S.functions⟩

/-- A scope with more functions, inserted one after the other. -/
def insertAll (S : Scope) (fs : List Function) : Scope := fs.foldl insert S

/-- The function of a name. -/
def resolve (S : Scope) (name : String) : Option Function :=
  S.functions.find? fun f => f.name == name

/-- Whether a name is defined. -/
def defines (S : Scope) (name : String) : Bool := (S.resolve name).isSome

theorem resolve_insert (S : Scope) (f : Function) (name : String) :
    (S.insert f).resolve name = if f.name = name then some f else S.resolve name := by
  by_cases h : f.name = name <;> simp [resolve, insert, h]

/-- A function is found under its own name. -/
theorem name_of_resolve {S : Scope} {name : String} {f : Function} (h : S.resolve name = some f) :
    f.name = name := by
  simpa using List.find?_some h

end Scope

end ModelFormula
