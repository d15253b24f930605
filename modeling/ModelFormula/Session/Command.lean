import ModelFormula.Session.Basic

/-!
# Commands of a session

* `Command` — what changes a session: scopes are made, cloned and added to, and formulas are built;
* `Session.run` — one command; **a command that fails changes nothing**;
* `Session.runAll` — a history of commands, failures left aside.
-/

set_option autoImplicit false

namespace ModelFormula

/-- What changes a session. -/
inductive Command where
  /-- Keep a scope under a name. -/
  | newScope (id : String) (S : Scope)
  /-- Keep a copy of the scope `source` under the name `id`. -/
  | cloneScope (id source : String)
  /-- Define a function in a scope. -/
  | define (id : String) (f : Function)
  /-- Insert the function `name` of the scope `source` into the scope `id`. -/
  | borrow (id source name : String)
  /-- Build the formula of an expression in a scope and keep it under the name `id`. -/
  | build (id scope : String) (e : Expr)

namespace Session

/-- The session after a command. -/
def run (s : Session) : Command → Except SessionError Session
  | .newScope id S => .ok (s.allocate id S)
  | .cloneScope id source => s.share id source
  | .define id f => s.insert id f
  | .borrow id source name =>
    match s.function source name with
    | .error err => .error err
    | .ok f => s.insert id f
  | .build id scope e =>
    match s.address scope with
    | .error err => .error err
    | .ok a =>
      match Formula.ofExpr (s.table a) e with
      | .ok f => .ok (s.putFormula id f a)
      | .error err => .error (.formula err)

/-- The session after a command, unchanged if the command fails. -/
def step (s : Session) (c : Command) : Session :=
  match s.run c with
  | .ok next => next
  | .error _ => s

/-- The session after a history of commands. -/
def runAll (s : Session) (commands : List Command) : Session := commands.foldl step s

end Session

end ModelFormula
