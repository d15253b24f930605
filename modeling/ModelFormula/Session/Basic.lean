import ModelFormula.Formula.Basic

/-!
# Sessions

A session keeps scopes and formulas under names of its own.  What a scope holds is the address of a
table of functions.  A copy of a scope has the address of the scope that it was copied from, and so
has every call that was captured in one of them: tables are shared, and a table is **copied before
it is written unless nothing else has its address.**

* `Session.uses` — how many scopes and captured calls have an address;
* `Session.scope`, `Session.formula` — what is kept under a name, **read from the tables as they are
  now**;
* `Session.function` — the function of a scope that is kept;
* `Session.call` — a captured call of a formula that is kept, by its place;
* `Session.allocate`, `Session.share`, `Session.insert`, `Session.putFormula` — what is done to a
  session;
* `SessionError` — why a step of a session failed.
-/

set_option autoImplicit false

namespace ModelFormula

/-- Why a step of a session failed. -/
inductive SessionError where
  /-- A scope does not define a function of this name. -/
  | missingFunction (name : String)
  /-- A formula has no captured call at this place. -/
  | missingCall (index : Nat)
  /-- No scope is kept under this name. -/
  | noSuchScope (id : String)
  /-- No formula is kept under this name. -/
  | noSuchFormula (id : String)
  /-- An expression makes no formula. -/
  | formula (error : FormulaError)
  deriving Repr

/-- Why a step of a session failed, in words. -/
def SessionError.message : SessionError → String
  | .missingFunction name => name
  | .missingCall index => toString index
  | .noSuchScope _ => "no such scope"
  | .noSuchFormula _ => "no such formula"
  | .formula error => error.message

/-- The place of a table of functions. -/
abbrev Address := Nat

/-- A formula that is kept, without the scope of its captured calls: they all have the address of
the scope it was built in. -/
structure KeptFormula where
  formula : Formula
  address : Address

/-- The addresses of the captured calls of a formula, one for each. -/
def KeptFormula.addresses (k : KeptFormula) : List Address :=
  k.formula.capturedCalls.map fun _ => k.address

/-- Tables of functions by address, and scopes and formulas by name.  A formula that is kept stays;
its name stands for the latest one. -/
structure Session where
  tables : List Scope
  scopes : List (String × Address)
  formulas : List (String × KeptFormula)

namespace Session

/-- The session that keeps nothing. -/
def empty : Session := ⟨[], [], []⟩

/-! ### Reading -/

/-- The table at an address. -/
def table (s : Session) (a : Address) : Scope := s.tables.getD a .empty

/-- The addresses of all scopes and captured calls, one for each. -/
def addresses (s : Session) : List Address :=
  s.scopes.map Prod.snd ++ s.formulas.flatMap fun p => p.2.addresses

/-- The number of scopes and captured calls that have an address. -/
def uses (s : Session) (a : Address) : Nat := s.addresses.count a

/-- The address of the scope that is kept under a name. -/
def address (s : Session) (id : String) : Except SessionError Address :=
  match s.scopes.lookup id with
  | some a => .ok a
  | none => .error (.noSuchScope id)

/-- The scope that is kept under a name. -/
def scope (s : Session) (id : String) : Except SessionError Scope :=
  match s.address id with
  | .ok a => .ok (s.table a)
  | .error err => .error err

/-- A formula that is kept, with the table that its captured calls find at their address. -/
def read (s : Session) (k : KeptFormula) : Formula := k.formula.inScope (s.table k.address)

/-- The formula that is kept under a name. -/
def formula (s : Session) (id : String) : Except SessionError Formula :=
  match s.formulas.lookup id with
  | some k => .ok (s.read k)
  | none => .error (.noSuchFormula id)

/-- The function of a name in a scope that is kept. -/
def function (s : Session) (id name : String) : Except SessionError Function :=
  match s.scope id with
  | .error err => .error err
  | .ok S =>
    match S.resolve name with
    | some f => .ok f
    | none => .error (.missingFunction name)

/-- The captured call at a place of a formula that is kept. -/
def call (s : Session) (id : String) (index : Nat) : Except SessionError CapturedCall :=
  match s.formula id with
  | .error err => .error err
  | .ok f =>
    match f.capturedCalls[index]? with
    | some c => .ok c
    | none => .error (.missingCall index)

/-! ### Writing -/

/-- The addresses of scopes when one more scope has an address, in place of the one that was kept
under its name. -/
def assign (scopes : List (String × Address)) (id : String) (a : Address) :
    List (String × Address) :=
  (id, a) :: scopes.filter fun p => p.1 != id

/-- Keeps a scope in a new table. -/
def allocate (s : Session) (id : String) (S : Scope) : Session :=
  { s with tables := s.tables ++ [S], scopes := assign s.scopes id s.tables.length }

/-- Keeps a copy of a scope, which has the same address. -/
def share (s : Session) (id source : String) : Except SessionError Session :=
  match s.address source with
  | .ok a => .ok { s with scopes := assign s.scopes id a }
  | .error err => .error err

/-- Inserts a function into a scope. -/
def insert (s : Session) (id : String) (f : Function) : Except SessionError Session :=
  match s.address id with
  | .error err => .error err
  | .ok a =>
    -- the scope itself is one use; where there are others the table is left as it is
    if s.uses a = 1 then .ok { s with tables := s.tables.set a ((s.table a).insert f) }
    else .ok (s.allocate id ((s.table a).insert f))

/-- Keeps a formula whose captured calls have the address of its scope. -/
def putFormula (s : Session) (id : String) (f : Formula) (a : Address) : Session :=
  { s with formulas := (id, ⟨f.inScope .empty, a⟩) :: s.formulas }

theorem lookup_filter_of_ne {scopes : List (String × Address)} {id other : String}
    (h : other ≠ id) : (scopes.filter fun p => p.1 != id).lookup other = scopes.lookup other := by
  induction scopes with
  | nil => rfl
  | cons p ps ih =>
      obtain ⟨name, b⟩ := p
      by_cases hname : name = id
      · rw [List.filter_cons_of_neg (by simpa using hname), ih, List.lookup_cons,
          beq_eq_false_iff_ne.mpr (hname ▸ h)]
      · rw [List.filter_cons_of_pos (by simpa using hname), List.lookup_cons, List.lookup_cons, ih]

theorem lookup_assign (scopes : List (String × Address)) (id other : String) (a : Address) :
    (assign scopes id a).lookup other = if other = id then some a else scopes.lookup other := by
  by_cases h : other = id
  · rw [assign, h, List.lookup_cons_self, if_pos rfl]
  · rw [assign, List.lookup_cons, beq_eq_false_iff_ne.mpr h, lookup_filter_of_ne h, if_neg h]

end Session

end ModelFormula
