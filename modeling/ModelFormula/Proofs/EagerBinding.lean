import ModelFormula.Proofs.CapturedCalls
import ModelFormula.Session.Command

/-!
# Sessions bind eagerly

Copies of a scope and the calls captured in them share one table of functions.  Since a table is
copied before it is written where anything else has its address, a session behaves as if every
scope had a table of its own and every formula had kept the scope as it was.

* `History`, `History.ofCommands` — what was inserted into each scope, **as the commands tell it**,
  without any table;
* `Session.Puts` — a session after one scope was made or changed, all others and all formulas being
  read as before; `Session.puts_allocate`, `Session.puts_share`, `Session.puts_insert` for the
  three ways to do so;
* `Session.Follows` — every scope holds what its history says: a step keeps this
  (`Session.follows_step`), and so does a run (`Session.follows_runAll`);
* `Session.readings` — the formulas that are kept, as they are read now; a run only adds to them
  (`Session.follows_foldl`);
* `Session.runAll_eager` — **after any run every scope finds what was inserted last, and every
  formula evaluates as it did when it was built.**
-/

set_option autoImplicit false

namespace ModelFormula

/-! ### Histories -/

/-- For every scope what was inserted into it, the earliest first; for a copy, this starts with what
had been inserted into the scope it was copied from. -/
def History := String → Option (List Function)

namespace History

/-- Before any command there is no scope. -/
def empty : History := fun _ => none

/-- The history in which a scope has had the given functions inserted. -/
def set (h : History) (id : String) (fs : List Function) : History :=
  fun other => if other = id then some fs else h other

/-- The function that was inserted last under a name. -/
def last? (fs : List Function) (name : String) : Option Function :=
  (fs.filter fun f => f.name == name).getLast?

/-- The history after one more command. -/
def next (h : History) : Command → History
  | .newScope id S => h.set id S.functions.reverse
  | .cloneScope id source =>
    match h source with
    | some fs => h.set id fs
    | none => h
  | .define id f =>
    match h id with
    | some fs => h.set id (fs ++ [f])
    | none => h
  | .borrow id source name =>
    match (h source).bind fun gs => last? gs name with
    | none => h
    | some f =>
      match h id with
      | some fs => h.set id (fs ++ [f])
      | none => h
  | .build _ _ _ => h

/-- The history of a list of commands. -/
def ofCommands (commands : List Command) : History := commands.foldl next empty

/-- The scope that some functions were inserted into. -/
def toScope (fs : List Function) : Scope := ⟨fs.reverse⟩

theorem resolve_toScope (fs : List Function) (name : String) :
    (toScope fs).resolve name = last? fs name := by
  rw [Scope.resolve, toScope, last?, ← List.head?_filter, List.filter_reverse, List.head?_reverse]

theorem toScope_append (fs : List Function) (f : Function) :
    toScope (fs ++ [f]) = (toScope fs).insert f := by
  simp [toScope, Scope.insert]

theorem toScope_reverse (S : Scope) : toScope S.functions.reverse = S := by
  simp [toScope]

end History

/-! ### Formulas in a scope -/

namespace Term

variable {S : Scope}

theorem inScopeAll_inScopeAll {T : Scope} {es : List Expr} {ts : List Term}
    (h : List.Forall₂ (fun _ t => (inScope T t).inScope S = t) es ts) :
    inScopeAll S (inScopeAll T ts) = ts := by
  induction h with
  | nil => rw [inScopeAll, inScopeAll]
  | cons ht _ ih => rw [inScopeAll, inScopeAll, ht, ih]

/-- A term that is put into another scope and back again is what it was. -/
theorem inScope_inScope (T : Scope) (e : Expr) :
    ∀ t, Lowers S e t → (t.inScope T).inScope S = t := by
  intro t ht
  refine Lowers.induction ?symbol ?number ?absent ?op ?captured ht
  case symbol =>
    intro name
    rw [inScope, inScope]
  case number =>
    intro value
    rw [inScope, inScope]
  case absent =>
    rw [inScope, inScope]
  case op =>
    intro o args ts ih
    rw [inScope, inScope, inScopeAll_inScopeAll ih]
  case captured =>
    intro f args ts _ _ _ ih
    rw [inScope, inScope, inScopeAll_inScopeAll ih]

theorem inScopeAll_congr {T : Scope} {ts : List Term} (hts : capturedCallsAll ts = [])
    (h : ∀ t ∈ ts, t.capturedCalls = [] → t.inScope S = t.inScope T) :
    inScopeAll S ts = inScopeAll T ts := by
  rw [capturedCallsAll_eq_flatMap, List.flatMap_eq_nil_iff] at hts
  rw [inScopeAll_eq_map, inScopeAll_eq_map]
  exact List.map_congr_left fun t ht => h t ht (hts t ht)

/-- The scope of a term without captured calls does not matter. -/
theorem inScope_congr (T : Scope) (t : Term) :
    t.capturedCalls = [] → t.inScope S = t.inScope T := by
  induction t using inductionArgs with
  | column name =>
      intro _
      rw [inScope, inScope]
  | constant value =>
      intro _
      rw [inScope, inScope]
  | absent =>
      intro _
      rw [inScope, inScope]
  | op o args ih =>
      intro h
      rw [capturedCalls] at h
      rw [inScope, inScope, inScopeAll_congr h ih]
  | captured call lowered _ =>
      intro h
      rw [capturedCalls] at h
      cases h

end Term

namespace Formula

theorem inScope_inScope {S : Scope} {e : Expr} {f : Formula} (h : ofExpr S e = .ok f) (T : Scope) :
    (f.inScope T).inScope S = f := by
  obtain ⟨-, -, lhs, rhs, -, hlhs, hrhs⟩ := lowers_of_ofExpr h
  simp only [inScope, Term.inScope_inScope T lhs f.lhs hlhs, Term.inScope_inScope T rhs f.rhs hrhs]

theorem inScope_congr {f : Formula} (h : f.capturedCalls = []) (S T : Scope) :
    f.inScope S = f.inScope T := by
  rw [capturedCalls_eq, List.append_eq_nil_iff] at h
  simp only [inScope, Term.inScope_congr (S := S) T f.lhs h.1,
    Term.inScope_congr (S := S) T f.rhs h.2]

/-- Every captured call of a formula evaluates as the call it was captured from does in the scope
of the formula. -/
theorem evaluate_eq_of_ofExpr {S : Scope} {e : Expr} {f : Formula} (h : ofExpr S e = .ok f) :
    ∀ c ∈ f.capturedCalls, ∀ row, c.closure.evaluate row = S.eval row c.closure.expr := by
  have hcalls := Term.reproduces_of_lowers e _ (lowers_normalized h)
  refine Term.forall_mem_of_forall₂ (hcalls.imp ?_)
  intro d c hc row
  rw [hc.evaluate_eq row, hc.expr_eq]

end Formula

/-! ### Tables -/

namespace Session

variable {s s' : Session}

/-- Every address in use is that of a table. -/
structure Valid (s : Session) : Prop where
  scopes : ∀ p ∈ s.scopes, p.2 < s.tables.length
  formulas : ∀ p ∈ s.formulas, p.2.address < s.tables.length

theorem valid_empty : empty.Valid := ⟨nofun, nofun⟩

theorem mem_of_lookup {α : Type} {entries : List (String × α)} {id : String} {x : α}
    (h : entries.lookup id = some x) : (id, x) ∈ entries := by
  obtain ⟨before, after, rfl, -⟩ := List.lookup_eq_some_iff.mp h
  simp

theorem mem_assign {scopes : List (String × Address)} {id : String} {a : Address}
    {p : String × Address} (h : p ∈ assign scopes id a) : p = (id, a) ∨ p ∈ scopes := by
  rw [assign, List.mem_cons] at h
  exact h.imp_right fun hp => (List.mem_filter.mp hp).1

theorem scope_eq_ok_iff {id : String} {S : Scope} :
    s.scope id = .ok S ↔ ∃ a, s.scopes.lookup id = some a ∧ s.table a = S := by
  rw [scope, address]
  cases s.scopes.lookup id <;> simp

/-! ### One scope made or changed -/

/-- A session in which a scope was kept: this name stands for it, other names and all formulas stand
for what they stood for. -/
structure Puts (s s' : Session) (id : String) (S : Scope) : Prop where
  valid : s'.Valid
  scope_eq : ∀ other, s'.scope other = if other = id then .ok S else s.scope other
  formulas_eq : s'.formulas = s.formulas
  read_eq : ∀ p ∈ s.formulas, s'.read p.2 = s.read p.2

theorem table_append {a : Address} (S : Scope) (ha : a < s.tables.length)
    (scopes : List (String × Address)) :
    ({ s with tables := s.tables ++ [S], scopes := scopes } : Session).table a = s.table a := by
  rw [table, table, List.getD_append _ _ _ _ ha]

/-- A new table changes no other one. -/
theorem puts_allocate (hs : s.Valid) (id : String) (S : Scope) :
    Puts s (s.allocate id S) id S where
  valid := by
    constructor
    · intro p hp
      rw [allocate, List.length_append, List.length_singleton]
      rcases mem_assign hp with rfl | hp
      · exact Nat.lt_succ_self _
      · exact Nat.lt_succ_of_lt (hs.scopes p hp)
    · intro p hp
      rw [allocate, List.length_append, List.length_singleton]
      exact Nat.lt_succ_of_lt (hs.formulas p hp)
  scope_eq other := by
    rw [scope, address, allocate, lookup_assign]
    by_cases hother : other = id
    · simp [hother, table]
    · rw [if_neg hother, if_neg hother, scope, address]
      cases hlookup : s.scopes.lookup other with
      | none => rfl
      | some a =>
          have ha := hs.scopes _ (mem_of_lookup hlookup)
          simp only [table_append S ha]
  formulas_eq := rfl
  read_eq p hp := by rw [read, read, allocate, table_append S (hs.formulas p hp)]

/-- A copy changes no table at all. -/
theorem puts_share (hs : s.Valid) {source : String} {S : Scope} (h : s.scope source = .ok S)
    (id : String) : ∃ s', s.share id source = .ok s' ∧ Puts s s' id S := by
  obtain ⟨a, hlookup, htable⟩ := scope_eq_ok_iff.mp h
  have haddress : s.address source = .ok a := by rw [address, hlookup]
  have ha : a < s.tables.length := hs.scopes (source, a) (mem_of_lookup hlookup)
  refine ⟨{ s with scopes := assign s.scopes id a }, by rw [share, haddress], ?_⟩
  constructor
  · constructor
    · intro p hp
      rcases mem_assign hp with rfl | hp
      · exact ha
      · exact hs.scopes p hp
    · exact hs.formulas
  · intro other
    rw [scope, address, lookup_assign]
    by_cases hother : other = id
    · rw [if_pos hother, if_pos hother, ← htable]
      rfl
    · rw [if_neg hother, if_neg hother]
      rfl
  · rfl
  · intro p _
    rfl

/-- Two names with one address are two uses of it. -/
theorem two_le_count {scopes : List (String × Address)} {id other : String} {a : Address}
    (hid : (id, a) ∈ scopes) (hother : (other, a) ∈ scopes) (hne : other ≠ id) :
    2 ≤ (scopes.map Prod.snd).count a := by
  have hrest : (other, a) ∈ scopes.erase (id, a) :=
    (List.mem_erase_of_ne (by simpa using hne)).mpr hother
  have hperm : scopes.Perm ((id, a) :: (other, a) :: (scopes.erase (id, a)).erase (other, a)) :=
    (List.perm_cons_erase hid).trans ((List.perm_cons_erase hrest).cons _)
  rw [(hperm.map Prod.snd).count_eq]
  simp

/-- A scope that is the only use of its address shares it with no other scope and no captured
call. -/
theorem unshared_of_uses {id : String} {a : Address} (hid : (id, a) ∈ s.scopes)
    (huses : s.uses a = 1) :
    (∀ other, other ≠ id → (other, a) ∉ s.scopes) ∧ ∀ p ∈ s.formulas, a ∉ p.2.addresses := by
  have hone : 1 ≤ (s.scopes.map Prod.snd).count a :=
    List.count_pos_iff.mpr (List.mem_map.mpr ⟨(id, a), hid, rfl⟩)
  rw [uses, addresses, List.count_append] at huses
  constructor
  · intro other hne hother
    have htwo := two_le_count hid hother hne
    omega
  · intro p hp ha
    have hcalls : (s.formulas.flatMap fun p => p.2.addresses).count a = 0 := by omega
    exact List.count_eq_zero.mp hcalls (List.mem_flatMap.mpr ⟨p, hp, ha⟩)

/-- A formula none of whose captured calls has its address has no captured call. -/
theorem capturedCalls_eq_nil {k : KeptFormula} (h : k.address ∉ k.addresses) :
    k.formula.capturedCalls = [] := by
  rw [KeptFormula.addresses] at h
  cases hcalls : k.formula.capturedCalls with
  | nil => rfl
  | cons c cs => simp [hcalls] at h

theorem table_set {a b : Address} (ha : a < s.tables.length) (S : Scope) :
    ({ s with tables := s.tables.set a S } : Session).table b = if b = a then S else s.table b := by
  rw [table, table, List.getD_eq_getElem?_getD, List.getD_eq_getElem?_getD]
  by_cases hb : b = a
  · rw [hb, if_pos rfl, List.getElem?_set_self ha, Option.getD_some]
  · rw [if_neg hb, List.getElem?_set_ne (Ne.symm hb)]

/-- A table that only one scope uses can be written in place. -/
theorem puts_set (hs : s.Valid) {id : String} {a : Address} (hlookup : s.scopes.lookup id = some a)
    (huses : s.uses a = 1) (S : Scope) :
    Puts s { s with tables := s.tables.set a S } id S := by
  have hid : (id, a) ∈ s.scopes := mem_of_lookup hlookup
  have ha : a < s.tables.length := hs.scopes (id, a) hid
  obtain ⟨hscopes, hformulas⟩ := unshared_of_uses hid huses
  constructor
  · constructor
    · intro p hp
      rw [List.length_set]
      exact hs.scopes p hp
    · intro p hp
      rw [List.length_set]
      exact hs.formulas p hp
  · intro other
    rw [scope, scope, address, address]
    by_cases hother : other = id
    · rw [if_pos hother, hother, hlookup]
      simp only [table_set ha, if_pos]
    · rw [if_neg hother]
      cases hb : s.scopes.lookup other with
      | none => rfl
      | some b =>
          have hne : b ≠ a := by
            rintro rfl
            exact hscopes other hother (mem_of_lookup hb)
          simp only [table_set ha, if_neg hne]
  · rfl
  · intro p hp
    rw [read, read, table_set ha]
    by_cases haddress : p.2.address = a
    · -- the formula has the address, but no captured call that would look there
      have hnone : p.2.address ∉ p.2.addresses := haddress ▸ hformulas p hp
      exact Formula.inScope_congr (capturedCalls_eq_nil hnone) _ _
    · rw [if_neg haddress]

/-- Inserting into one scope changes no other scope and no formula, whatever shares its table. -/
theorem puts_insert (hs : s.Valid) {id : String} {S : Scope} (h : s.scope id = .ok S)
    (f : Function) : ∃ s', s.insert id f = .ok s' ∧ Puts s s' id (S.insert f) := by
  obtain ⟨a, hlookup, rfl⟩ := scope_eq_ok_iff.mp h
  have haddress : s.address id = .ok a := by rw [address, hlookup]
  by_cases huses : s.uses a = 1
  · refine ⟨{ s with tables := s.tables.set a ((s.table a).insert f) }, ?_,
      puts_set hs hlookup huses _⟩
    simp only [insert, haddress, if_pos huses]
  · refine ⟨s.allocate id ((s.table a).insert f), ?_, puts_allocate hs id _⟩
    simp only [insert, haddress, if_neg huses]

/-! ### Scopes and their histories -/

/-- Every scope that is kept holds what its history says. -/
structure Follows (s : Session) (h : History) : Prop where
  valid : s.Valid
  scope_eq : ∀ id, s.scope id = match h id with
    | some fs => .ok (History.toScope fs)
    | none => .error (.noSuchScope id)

namespace Follows

variable {h : History}

theorem of_some (hfollows : Follows s h) {id : String} {fs : List Function} (hfs : h id = some fs) :
    s.scope id = .ok (History.toScope fs) := by
  rw [hfollows.scope_eq, hfs]

theorem address_of_none (hfollows : Follows s h) {id : String} (hnone : h id = none) :
    s.address id = .error (.noSuchScope id) := by
  have hscope := hfollows.scope_eq id
  rw [hnone, scope] at hscope
  rw [address]
  split
  · rename_i a ha
    rw [address, ha] at hscope
    cases hscope
  · rfl

/-- A scope that is kept with what was inserted into it follows the history that says so. -/
theorem set (hfollows : Follows s h) {id : String} {fs : List Function}
    (hputs : Puts s s' id (History.toScope fs)) : Follows s' (h.set id fs) where
  valid := hputs.valid
  scope_eq other := by
    rw [hputs.scope_eq, History.set]
    by_cases hother : other = id
    · rw [if_pos hother, if_pos hother]
    · rw [if_neg hother, if_neg hother]
      exact hfollows.scope_eq other

end Follows

/-- Every formula that is kept, as it is read now, the latest first. -/
def readings (s : Session) : List (String × Formula) := s.formulas.map fun p => (p.1, s.read p.2)

theorem Puts.readings_suffix {id : String} {S : Scope} (h : Puts s s' id S) :
    s.readings <:+ s'.readings := by
  have heq : s'.readings = s.readings := by
    rw [readings, readings, h.formulas_eq]
    exact List.map_congr_left fun p hp => by rw [h.read_eq p hp]
  rw [heq]

theorem step_of_run {c : Command} (h : s.run c = .ok s') : s.step c = s' := by rw [step, h]

theorem step_of_run_eq_error {c : Command} {err : SessionError} (h : s.run c = .error err) :
    s.step c = s := by rw [step, h]

/-- Inserting a function that is at hand, as `define` and `borrow` do. -/
theorem follows_insert {h : History} (hfollows : Follows s h) {c : Command} {id : String}
    {f : Function} (hrun : s.run c = s.insert id f) :
    Follows (s.step c) (match h id with | some fs => h.set id (fs ++ [f]) | none => h) ∧
      s.readings <:+ (s.step c).readings := by
  cases hid : h id with
  | none =>
      have herr : s.run c = .error (.noSuchScope id) := by
        rw [hrun, insert, hfollows.address_of_none hid]
      rw [step_of_run_eq_error herr]
      exact ⟨hfollows, List.suffix_rfl⟩
  | some fs =>
      obtain ⟨s', hs', hputs⟩ := puts_insert hfollows.valid (hfollows.of_some hid) f
      rw [step_of_run (hrun.trans hs')]
      rw [← History.toScope_append] at hputs
      exact ⟨hfollows.set hputs, hputs.readings_suffix⟩

/-- A formula that is kept changes no scope and no other formula. -/
theorem follows_putFormula {h : History} (hfollows : Follows s h) {name : String} {a : Address}
    (ha : s.address name = .ok a) (id : String) (f : Formula) :
    Follows (s.putFormula id f a) h ∧ s.readings <:+ (s.putFormula id f a).readings := by
  have hlt : a < s.tables.length := by
    rw [address] at ha
    split at ha
    · rename_i hlookup
      cases ha
      exact hfollows.valid.scopes (name, a) (mem_of_lookup hlookup)
    · cases ha
  constructor
  · exact {
      valid := {
        scopes := hfollows.valid.scopes
        formulas := List.forall_mem_cons.mpr ⟨hlt, hfollows.valid.formulas⟩ }
      scope_eq := hfollows.scope_eq }
  · exact List.suffix_cons _ _

/-- **A step keeps every scope with its history, and every formula as it was.** -/
theorem follows_step {h : History} (hfollows : Follows s h) (c : Command) :
    Follows (s.step c) (h.next c) ∧ s.readings <:+ (s.step c).readings := by
  cases c with
  | newScope id S =>
      have hputs : Puts s (s.allocate id S) id (History.toScope S.functions.reverse) := by
        rw [History.toScope_reverse]
        exact puts_allocate hfollows.valid id S
      rw [step_of_run rfl]
      exact ⟨hfollows.set hputs, hputs.readings_suffix⟩
  | cloneScope id source =>
      rw [History.next]
      cases hsource : h source with
      | none =>
          have herr : s.run (.cloneScope id source) = .error (.noSuchScope source) := by
            rw [run, share, hfollows.address_of_none hsource]
          rw [step_of_run_eq_error herr]
          exact ⟨hfollows, List.suffix_rfl⟩
      | some fs =>
          obtain ⟨s', hs', hputs⟩ := puts_share hfollows.valid (hfollows.of_some hsource) id
          have hrun : s.run (.cloneScope id source) = .ok s' := hs'
          rw [step_of_run hrun]
          exact ⟨hfollows.set hputs, hputs.readings_suffix⟩
  | define id f => exact follows_insert hfollows rfl
  | borrow id source name =>
      rw [History.next]
      cases hsource : h source with
      | none =>
          have herr : s.run (.borrow id source name) = .error (.noSuchScope source) := by
            rw [run, function, hfollows.scope_eq, hsource]
          rw [step_of_run_eq_error herr]
          exact ⟨hfollows, List.suffix_rfl⟩
      | some gs =>
          cases hlast : History.last? gs name with
          | none =>
              have herr : s.run (.borrow id source name) = .error (.missingFunction name) := by
                rw [run, function, hfollows.of_some hsource]
                simp only [History.resolve_toScope, hlast]
              rw [step_of_run_eq_error herr]
              simp only [Option.bind_some, hlast]
              exact ⟨hfollows, List.suffix_rfl⟩
          | some f =>
              have hrun : s.run (.borrow id source name) = s.insert id f := by
                rw [run, function, hfollows.of_some hsource]
                simp only [History.resolve_toScope, hlast]
              simp only [Option.bind_some, hlast]
              exact follows_insert hfollows hrun
  | build id name e =>
      rw [History.next, step, run]
      cases haddress : s.address name with
      | error err => exact ⟨hfollows, List.suffix_rfl⟩
      | ok a =>
          cases hformula : Formula.ofExpr (s.table a) e with
          | error err =>
              simp only [hformula]
              exact ⟨hfollows, List.suffix_rfl⟩
          | ok f =>
              simp only [hformula]
              exact follows_putFormula hfollows haddress id f

/-- **So does a run.** -/
theorem follows_foldl {h : History} (hfollows : Follows s h) (commands : List Command) :
    Follows (s.runAll commands) (commands.foldl History.next h) ∧
      s.readings <:+ (s.runAll commands).readings := by
  induction commands generalizing s h with
  | nil => exact ⟨hfollows, List.suffix_rfl⟩
  | cons c cs ih =>
      obtain ⟨hstep, hextends⟩ := follows_step hfollows c
      obtain ⟨hrun, hlater⟩ := ih hstep
      exact ⟨hrun, hextends.trans hlater⟩

theorem follows_empty : Follows empty History.empty := ⟨valid_empty, fun _ => rfl⟩

theorem follows_runAll (commands : List Command) :
    Follows (empty.runAll commands) (History.ofCommands commands) :=
  (follows_foldl follows_empty commands).1

/-! ### Formulas that are built -/

/-- A formula that is built is read as it was built, and the others are read as before. -/
theorem readings_step {name : String} {S : Scope} {e : Expr} {f : Formula}
    (hscope : s.scope name = .ok S) (hf : Formula.ofExpr S e = .ok f) (id : String) :
    (s.step (.build id name e)).readings = (id, f) :: s.readings := by
  obtain ⟨a, hlookup, rfl⟩ := scope_eq_ok_iff.mp hscope
  have haddress : s.address name = .ok a := by rw [address, hlookup]
  have hrun : s.run (.build id name e) = .ok (s.putFormula id f a) := by
    rw [run, haddress]
    simp only [hf]
  have hread : (s.putFormula id f a).read ⟨f.inScope .empty, a⟩ = f :=
    Formula.inScope_inScope hf .empty
  rw [step_of_run hrun, readings, putFormula, List.map_cons]
  exact congrArg (fun g => (id, g) :: s.readings) hread

/-- **Sessions bind eagerly.**  After any run every scope that was made finds, under every name, the
function of this name that was inserted last in its own history, and every formula that was built
on the way is still read as it was built, at its place on top of those from before: its captured
calls evaluate as the calls they were captured from did in the scope as it was then, whatever was
inserted anywhere since. -/
theorem runAll_eager (commands : List Command) :
    (∀ id,
      match History.ofCommands commands id with
      | some fs => ∃ S, (empty.runAll commands).scope id = .ok S ∧
          ∀ name, S.resolve name = History.last? fs name ∧
            ∀ f, S.resolve name = some f → f.name = name
      | none => (empty.runAll commands).scope id = .error (.noSuchScope id)) ∧
    ∀ before id name e after S f, commands = before ++ .build id name e :: after →
      (empty.runAll before).scope name = .ok S → Formula.ofExpr S e = .ok f →
      ((id, f) :: (empty.runAll before).readings) <:+ (empty.runAll commands).readings ∧
        ∀ c ∈ f.capturedCalls, ∀ row, c.closure.evaluate row = S.eval row c.closure.expr := by
  constructor
  · intro id
    have hscope := (follows_runAll commands).scope_eq id
    split
    · rename_i fs hfs
      rw [hfs] at hscope
      refine ⟨History.toScope fs, hscope, ?_⟩
      intro name
      exact ⟨History.resolve_toScope fs name, fun f hf => Scope.name_of_resolve hf⟩
    · rename_i hnone
      rw [hnone] at hscope
      exact hscope
  · rintro before id name e after S f rfl hS hf
    refine ⟨?_, Formula.evaluate_eq_of_ofExpr hf⟩
    have hbuilt := (follows_step (follows_runAll before) (.build id name e)).1
    have hlater := (follows_foldl hbuilt after).2
    have hrun : empty.runAll (before ++ .build id name e :: after) =
        ((empty.runAll before).step (.build id name e)).runAll after := List.foldl_append
    rw [hrun, ← readings_step hS hf id]
    exact hlater

/-- A function that is no logarithm, but has its name. -/
def shift : Function := .unary "log" fun x => x + 100.0

/-- A scope and a copy of it, a formula built in the scope, and then another function of the name
`log` in the scope and from there in the copy. -/
def rebinding : List Command :=
  [.newScope "s" .builtins, .cloneScope "t" "s"] ++ .build "f" "s" Formula.logarithm.expr ::
    [.define "s" shift, .borrow "t" "s" "log"]

/-- The copy ends up with the function that it was given last, and `y ~ log(x)`, which was built
before, still takes the logarithm. -/
theorem runAll_rebinding :
    (∃ S, (empty.runAll rebinding).scope "t" = .ok S ∧ S.resolve "log" = some shift) ∧
      [("f", Formula.logarithm)] <:+ (empty.runAll rebinding).readings ∧
      Formula.logarithm.capturedCalls ≠ [] ∧
      ∀ c ∈ Formula.logarithm.capturedCalls, ∀ row,
        c.closure.evaluate row = Scope.builtins.eval row c.closure.expr := by
  obtain ⟨hscopes, hformulas⟩ := runAll_eager rebinding
  obtain ⟨S, hS, hnames⟩ := hscopes "t"
  obtain ⟨hkept, hcalls⟩ := hformulas [.newScope "s" .builtins, .cloneScope "t" "s"] "f" "s"
    Formula.logarithm.expr [.define "s" shift, .borrow "t" "s" "log"] .builtins Formula.logarithm
    rfl rfl rfl
  refine ⟨⟨S, hS, (hnames "log").1⟩, hkept, ?_, hcalls⟩
  simp [Formula.logarithm, Formula.capturedCalls_eq, Term.capturedCalls, Term.capturedCallsAll]

end Session

end ModelFormula
