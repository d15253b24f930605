import ModelFormula.CommandLine.Arguments
import ModelFormula.Proofs.NumberText

/-!
# Command lines that are understood

A command line is written from parts: a formula, options without a value, and bindings, whose value
follows after an `=` or as the next argument.  With one formula and no option twice, it is read as
the settings that the parts spell out, in whatever order they stand.

* `Arguments.Part` — the parts of a command line and their arguments;
* `Arguments.Written` — what parts spell out some settings;
* `Arguments.Stands` — the state between two arguments, a value that is given but not read yet
  counted as read;
* `Arguments.takeAll_part` — what one part adds to the state;
* `Arguments.read_of_written` — **the arguments of the parts are read as their settings**, by
  induction on the parts.
-/

set_option autoImplicit false

namespace ModelFormula

/-! ### Bindings -/

theorem splitOnce?_append {mark : Char} {before after : List Char} (h : mark ∉ before) :
    splitOnce? mark (before ++ mark :: after) = some (before, after) := by
  have hrun : ∀ c ∈ before, (c != mark) = true := by
    intro c hc
    rw [bne_iff_ne]
    rintro rfl
    exact h hc
  have hmark : Stops (· != mark) (mark :: after) := stops_cons after (by simp)
  obtain ⟨htake, hdrop⟩ := takeWhile_append_of_stops hrun hmark
  rw [splitOnce?, hdrop, htake]

/-- What a name and a value, given as they are written, bind: blanks around both are left aside. -/
structure Binds (written : String × String) (binding : String × Float) : Prop where
  noMark : '=' ∉ written.1.toList
  noDash : written.1.toList.head? ≠ some '-'
  name : binding.1 = String.ofList (trim written.1.toList)
  value : Numeral.ofText? (trim written.2.toList) = some binding.2

/-- The text of a binding. -/
def Binding.text (name value : String) : String := name ++ "=" ++ value

theorem Binding.toList_text (name value : String) :
    (Binding.text name value).toList = name.toList ++ '=' :: value.toList := by
  simp [Binding.text]

/-- A binding is read as what it binds. -/
theorem Binding.read_text {name value : String} {binding : String × Float}
    (h : Binds (name, value) binding) : Binding.read (Binding.text name value) = .ok binding := by
  have hvalue := h.value
  rw [Binding.read, Binding.toList_text, splitOnce?_append h.noMark]
  dsimp only at hvalue ⊢
  split
  · rename_i hempty
    rw [hempty] at hvalue
    cases hvalue
  · rw [hvalue, ← h.name]

namespace Arguments

/-! ### Parts -/

/-- A part of a command line. -/
inductive Part where
  | formula (text : String)
  | flag (flag : Flag)
  /-- A binding, in one argument with its option or in the next one. -/
  | binding (joined : Bool) (name value : String)

namespace Part

/-- The arguments that a part is written with. -/
def arguments : Part → List String
  | .formula text => [text]
  | .flag f => ["--" ++ f.name]
  | .binding true name value => ["--set=" ++ Binding.text name value]
  | .binding false name value => ["--set", Binding.text name value]

/-- The formula of a part. -/
def formula? : Part → Option String
  | .formula text => some text
  | _ => none

/-- The option without a value of a part. -/
def flag? : Part → Option Flag
  | .flag f => some f
  | _ => none

/-- The name and the value of a part, as they are written. -/
def binding? : Part → Option (String × String)
  | .binding _ name value => some (name, value)
  | _ => none

end Part

/-- Parts that spell out some settings: one formula that looks like no option, no option twice, and
the bindings in their order. -/
structure Written (parts : List Part) (settings : Settings) : Prop where
  formula : parts.filterMap Part.formula? = [settings.formula]
  noDash : settings.formula.toList.head? ≠ some '-'
  flags : (parts.filterMap Part.flag?).Nodup
  json : settings.json = (parts.filterMap Part.flag?).contains .json
  noBuiltins : settings.noBuiltins = (parts.filterMap Part.flag?).contains .noBuiltins
  bindings : List.Forall₂ Binds (parts.filterMap Part.binding?) settings.bindings

/-! ### One argument -/

theorem settle_eq_ok {p q : Progress} (h : settle p = .ok q) :
    q.formula = p.formula ∧ q.pending = .settled ∧ q.onlyFormula = p.onlyFormula := by
  unfold settle at h
  split at h
  · rename_i hpending
    cases h
    exact ⟨rfl, hpending, rfl⟩
  · cases h
  · split at h
    · cases h
      exact ⟨rfl, rfl, rfl⟩
    · cases h

theorem settle_of_settled {p : Progress} (h : p.pending = .settled) : settle p = .ok p := by
  rw [settle, h]

/-- A value that is a binding is read when the next argument is accepted. -/
theorem settle_given {p : Progress} {name value : String} {binding : String × Float}
    (h : Binds (name, value) binding) :
    settle { p with pending := .given (Binding.text name value) } =
      .ok { p with bindings := binding :: p.bindings, pending := .settled } := by
  simp only [settle, Binding.read_text h]

/-- What does not begin with a dash is a value where one is awaited, and the formula elsewhere. -/
theorem take_of_noDash {p : Progress} {argument : String} (hp : p.onlyFormula = false)
    (h : argument.toList.head? ≠ some '-') :
    take p argument =
      if p.pending = .awaiting then .ok { p with pending := .given argument }
      else takeFormula p argument := by
  rw [take, hp, if_neg Bool.false_ne_true]
  split
  · rename_i heq
    rw [heq] at h
    exact absurd rfl h
  · rename_i heq
    rw [heq] at h
    exact absurd rfl h
  · rename_i heq
    rw [heq] at h
    exact absurd rfl h
  · rfl

/-- What begins with two dashes, and goes on, is an option. -/
theorem take_of_dashes {p : Progress} {argument : String} {c : Char} {text : List Char}
    (hp : p.onlyFormula = false) (h : argument.toList = '-' :: '-' :: c :: text) :
    take p argument = takeLong p (.ofText (c :: text)) := by
  rw [take, hp, if_neg Bool.false_ne_true, h]
  rfl

/-! ### The state between two parts -/

/-- The state `p` stands for `q`, in which the last value is read. -/
structure Stands (p q : Progress) : Prop where
  settle_eq : settle p = .ok q
  pending_ne : p.pending ≠ .awaiting
  onlyFormula_eq : p.onlyFormula = false

/-- What one part adds to the state. -/
inductive Adds : Part → Progress → Progress → Prop
  | formula {q : Progress} {text : String} :
      q.formula = none → text.toList.head? ≠ some '-' →
      Adds (.formula text) q { q with formula := some text }
  | flag {q : Progress} {f : Flag} : f ∉ q.flags → Adds (.flag f) q { q with flags := f :: q.flags }
  | binding {q : Progress} {joined : Bool} {name value : String} {b : String × Float} :
      Binds (name, value) b →
      Adds (.binding joined name value) q { q with bindings := b :: q.bindings }

theorem Stands.of_settled {q : Progress} (hpending : q.pending = .settled)
    (hformula : q.onlyFormula = false) : Stands q q :=
  ⟨settle_of_settled hpending, by simp [hpending], hformula⟩

section

variable {p q : Progress}

theorem takeFormula_of_stands (h : Stands p q) {text : String} (hformula : q.formula = none)
    (hdash : text.toList.head? ≠ some '-') :
    take p text = .ok { q with formula := some text } := by
  have hsettled := settle_eq_ok h.settle_eq
  have hp : p.formula = none := hsettled.1 ▸ hformula
  rw [take_of_noDash h.onlyFormula_eq hdash, if_neg h.pending_ne, takeFormula, hp, h.settle_eq]

theorem takeFlag_of_stands (h : Stands p q) {f : Flag} (hflag : f ∉ q.flags) :
    take p ("--" ++ f.name) = .ok { q with flags := f :: q.flags } := by
  have hlong : take p ("--" ++ f.name) = takeLong p (.flag f none) := by
    cases f with
    | json =>
        have htext : ("--" ++ Flag.json.name).toList = ['-', '-', 'j', 's', 'o', 'n'] := rfl
        rw [take_of_dashes h.onlyFormula_eq htext]
        rfl
    | noBuiltins =>
        have htext : ("--" ++ Flag.noBuiltins.name).toList =
            '-' :: '-' :: 'n' :: ['o', '-', 'b', 'u', 'i', 'l', 't', 'i', 'n', 's'] := rfl
        rw [take_of_dashes h.onlyFormula_eq htext]
        rfl
  rw [hlong, takeLong, h.settle_eq]
  exact if_neg hflag

/-- The option for a binding waits for the next argument. -/
theorem takeSet_of_stands (h : Stands p q) :
    take p "--set" = .ok { q with pending := .awaiting } := by
  have htext : "--set".toList = ['-', '-', 's', 'e', 't'] := rfl
  have hset : LongOption.ofText ['s', 'e', 't'] = .set none := rfl
  rw [take_of_dashes h.onlyFormula_eq htext, hset, takeLong, h.settle_eq]

/-- A binding in one argument with its option is read at once. -/
theorem takeSetJoined_of_stands (h : Stands p q) {name value : String} {b : String × Float}
    (hbinds : Binds (name, value) b) :
    take p ("--set=" ++ Binding.text name value) =
      .ok { q with bindings := b :: q.bindings, pending := .settled } := by
  have htext : ("--set=" ++ Binding.text name value).toList =
      '-' :: '-' :: 's' :: ['e', 't'] ++ '=' :: (Binding.text name value).toList := by
    rw [String.toList_append]
    rfl
  have hsplit : splitOnce? '=' ('s' :: ['e', 't'] ++ '=' :: (Binding.text name value).toList) =
      some (['s', 'e', 't'], (Binding.text name value).toList) :=
    splitOnce?_append (by decide)
  have hset : LongOption.ofText ('s' :: ['e', 't'] ++ '=' :: (Binding.text name value).toList) =
      .set (some (Binding.text name value)) := by
    rw [LongOption.ofText, hsplit]
    dsimp only
    rw [String.ofList_toList]
    rfl
  rw [take_of_dashes h.onlyFormula_eq htext]
  refine (congrArg (takeLong p) hset).trans ?_
  rw [takeLong, h.settle_eq]
  exact settle_given hbinds

/-- Where a value is awaited, the next argument is one, if it begins with no dash. -/
theorem takeValue_of_awaiting {argument : String} (hp : p.onlyFormula = false)
    (h : argument.toList.head? ≠ some '-') :
    take { p with pending := .awaiting } argument = .ok { p with pending := .given argument } := by
  have htake := take_of_noDash (p := { p with pending := .awaiting }) hp h
  rw [htake, if_pos rfl]

/-- The text of a binding does not begin with a dash. -/
theorem noDash_text {name value : String} (h : name.toList.head? ≠ some '-') :
    (Binding.text name value).toList.head? ≠ some '-' := by
  rw [Binding.toList_text]
  cases hname : name.toList with
  | nil => simp
  | cons c cs =>
      rw [hname] at h
      exact h

end

/-- **What one part adds to the state.** -/
theorem takeAll_part {p q q' : Progress} {part : Part} (h : Stands p q) (hadds : Adds part q q') :
    ∃ p', Stands p' q' ∧ ∀ rest, takeAll p (part.arguments ++ rest) = takeAll p' rest := by
  obtain ⟨-, hpending, honly⟩ := settle_eq_ok h.settle_eq
  have honly' : q.onlyFormula = false := honly.trans h.onlyFormula_eq
  cases hadds with
  | formula hformula hdash =>
      refine ⟨_, .of_settled hpending honly', fun rest => ?_⟩
      rw [Part.arguments, List.singleton_append, takeAll, takeFormula_of_stands h hformula hdash]
  | flag hflag =>
      refine ⟨_, .of_settled hpending honly', fun rest => ?_⟩
      rw [Part.arguments, List.singleton_append, takeAll, takeFlag_of_stands h hflag]
  | @binding q joined name value b hbinds =>
      have hread : ({ q with bindings := b :: q.bindings, pending := .settled } : Progress) =
          { q with bindings := b :: q.bindings } := by rw [← hpending]
      cases joined with
      | true =>
          refine ⟨_, .of_settled hpending honly', fun rest => ?_⟩
          rw [Part.arguments, List.singleton_append, takeAll, takeSetJoined_of_stands h hbinds,
            hread]
      | false =>
          -- the value is there but will be read only when the next argument is accepted
          have hsettle := settle_given (p := q) hbinds
          rw [hread] at hsettle
          refine ⟨{ q with pending := .given (Binding.text name value) },
            ⟨hsettle, by simp, honly'⟩, fun rest => ?_⟩
          rw [Part.arguments, List.cons_append, takeAll, takeSet_of_stands h]
          dsimp only
          rw [List.singleton_append, takeAll,
            takeValue_of_awaiting honly' (noDash_text hbinds.noDash)]

/-! ### All arguments -/

/-- Parts that are written one after the other add up. -/
theorem takeAll_parts {parts : List Part} {formula : String} {bindings : List (String × Float)}
    {p q : Progress} (h : Stands p q)
    (hformula : q.formula.toList ++ parts.filterMap Part.formula? = [formula])
    (hdash : formula.toList.head? ≠ some '-')
    (hflags : (q.flags.reverse ++ parts.filterMap Part.flag?).Nodup)
    (hbindings : List.Forall₂ Binds (parts.filterMap Part.binding?) bindings) :
    takeAll p (parts.flatMap Part.arguments) =
      .ok ⟨some formula, bindings.reverse ++ q.bindings,
        (parts.filterMap Part.flag?).reverse ++ q.flags, .settled, false⟩ := by
  induction parts generalizing p q bindings with
  | nil =>
      obtain ⟨-, hpending, honly⟩ := settle_eq_ok h.settle_eq
      have hq : q.formula = some formula := by
        cases hq : q.formula <;> simp_all
      cases hbindings
      rw [List.flatMap_nil, takeAll, h.settle_eq, ← hq, ← hpending, ← h.onlyFormula_eq, ← honly]
      rfl
  | cons part parts ih =>
      cases part with
      | formula text =>
          have hnone : q.formula = none := by
            cases hq : q.formula <;> simp_all [Part.formula?]
          have htext : text = formula := by simp_all [Part.formula?]
          subst htext
          obtain ⟨p', hp', htake⟩ := takeAll_part h (.formula hnone hdash)
          rw [List.flatMap_cons, htake]
          rw [hnone] at hformula
          exact ih (q := { q with formula := some text }) hp' hformula hflags hbindings
      | flag f =>
          have hflags' : ((f :: q.flags).reverse ++ parts.filterMap Part.flag?).Nodup := by
            simpa [Part.flag?] using hflags
          have hf : f ∉ q.flags :=
            (List.nodup_cons.mp (List.nodup_reverse.mp (List.Nodup.of_append_left hflags'))).1
          obtain ⟨p', hp', htake⟩ := takeAll_part h (.flag hf)
          rw [List.flatMap_cons, htake, ih hp' hformula hflags' hbindings]
          simp [Part.flag?]
      | binding joined name value =>
          have hwritten : (Part.binding joined name value :: parts).filterMap Part.binding? =
              (name, value) :: parts.filterMap Part.binding? := rfl
          rw [hwritten] at hbindings
          cases hbindings with
          | cons hbinds hbindings =>
              obtain ⟨p', hp', htake⟩ := takeAll_part h (.binding hbinds)
              have hrest := ih hp' hformula hflags hbindings
              rw [List.flatMap_cons, htake, hrest, List.filterMap_cons_none rfl, List.reverse_cons,
                List.append_assoc, List.singleton_append]

/-- **The arguments of the parts are read as their settings.** -/
theorem read_of_written {parts : List Part} {settings : Settings} (h : Written parts settings) :
    read (parts.flatMap Part.arguments) = .ok settings := by
  have hstart : Stands .start .start := .of_settled rfl rfl
  have hall := takeAll_parts hstart h.formula h.noDash h.flags h.bindings
  obtain ⟨formula, bindings, json, noBuiltins⟩ := settings
  have hjson := h.json
  have hnoBuiltins := h.noBuiltins
  dsimp only at hjson hnoBuiltins hall
  rw [read, hall]
  simp [Progress.start, hjson, hnoBuiltins]

end Arguments

end ModelFormula
