import ModelFormula.Proofs.Grammar.Completeness

/-!
# Well-formed expressions

An operator has the number of operands that its place in the grammar gives it, every other name is
one that can be written, and nothing but the left side of `~` may be absent.

* `IsName` — a name that can be written as a symbol or as the head of a call;
* `WellFormed` — the expressions whose every call can be written;
* `Grammar.Tilde.wellFormed`, … — what a text derives is well-formed, **by induction on the
  derivation**;
* `wellFormed_of_parse` — **only well-formed expressions are read.**
-/

set_option autoImplicit false

namespace ModelFormula

/-! ### Names -/

/-- A letter or an underscore, and then letters, digits, underscores and points. -/
def IsName (name : String) : Prop :=
  ∃ c cs, name.toList = c :: cs ∧ isNameStart c = true ∧ ∀ d ∈ cs, isNameRest d = true

theorem isName_of_all {name : String} {c : Char} {cs : List Char} (h : name.toList = c :: cs)
    (hc : isNameStart c = true) (hcs : cs.all isNameRest = true) : IsName name :=
  ⟨c, cs, h, hc, List.all_eq_true.mp hcs⟩

/-- The operators are no names. -/
theorem IsName.ne {name op : String} {c : Char} (h : IsName name) (hop : op.toList = [c])
    (hc : isNameStart c = false) : name ≠ op := by
  rintro rfl
  obtain ⟨d, ds, hd, hstart, -⟩ := h
  obtain ⟨rfl, -⟩ := List.cons.inj (hop.symm.trans hd)
  rw [hc] at hstart
  cases hstart

/-! ### Expressions -/

/-- Every operator has the operands it can be written with, every other head and every symbol is a
name, a minus stands before no number, and only the left side of `~` may be absent. -/
inductive WellFormed : Expr → Prop
  | symbol {name : String} : IsName name → WellFormed (.symbol name)
  | number {x : Float} : WellFormed (.number x)
  | applied {f : String} {args : List Expr} :
      IsName f → (∀ e ∈ args, WellFormed e) → WellFormed (.call f args)
  | escape {e : Expr} : WellFormed e → WellFormed (.call "$" [e])
  | minus {e : Expr} : (∀ x, e ≠ .number x) → WellFormed e → WellFormed (.call "-" [e])
  | binary {op : String} {a b : Expr} :
      op ∈ ["-", "/", "&", "^"] → WellFormed a → WellFormed b → WellFormed (.call op [a, b])
  | run {op : String} {args : List Expr} :
      op ∈ ["+", "*"] → 2 ≤ args.length → (∀ e ∈ args, WellFormed e) →
      WellFormed (.call op args)
  | sides {e : Expr} {es : List Expr} :
      es ≠ [] → WellFormed e → (∀ f ∈ es, WellFormed f) → WellFormed (.call "~" (e :: es))
  | oneSided {es : List Expr} :
      es ≠ [] → (∀ f ∈ es, WellFormed f) → WellFormed (.call "~" (.absent :: es))

/-- A minus makes a call of whatever is no number. -/
theorem Expr.negated_eq_call {e : Expr} (h : ∀ x, e ≠ .number x) : e.negated = .call "-" [e] := by
  cases e with
  | number x => exact absurd rfl (h x)
  | call op args => rfl
  | symbol name => rfl
  | absent => rfl

theorem WellFormed.negated {e : Expr} (h : WellFormed e) : WellFormed e.negated := by
  cases e with
  | number x => exact .number
  | call f args => exact .minus (fun _ => by simp) h
  | symbol name => exact .minus (fun _ => by simp) h
  | absent => cases h

theorem two_le_length_cons {e : Expr} {es : List Expr} (h : es ≠ []) : 2 ≤ (e :: es).length :=
  Nat.succ_le_succ (List.length_pos_iff.mpr h)

/-- Only `~` may have an operand that is not well-formed. -/
theorem WellFormed.forall_mem {op : String} {args : List Expr} (h : WellFormed (.call op args))
    (hop : op ≠ "~") : ∀ e ∈ args, WellFormed e := by
  cases h with
  | applied _ hargs => exact hargs
  | escape he => exact List.forall_mem_singleton.mpr he
  | minus _ he => exact List.forall_mem_singleton.mpr he
  | binary _ ha hb => exact List.forall_mem_cons.mpr ⟨ha, List.forall_mem_singleton.mpr hb⟩
  | run _ _ hargs => exact hargs
  | sides _ _ _ => exact absurd rfl hop
  | oneSided _ _ => exact absurd rfl hop

/-- Induction that treats all calls alike. -/
@[elab_as_elim]
theorem WellFormed.inductionCalls {motive : Expr → Prop}
    (symbol : ∀ name, IsName name → motive (.symbol name)) (number : ∀ x, motive (.number x))
    (absent : motive .absent)
    (call : ∀ op args, WellFormed (.call op args) → (∀ e ∈ args, motive e) →
      motive (.call op args)) {e : Expr} (h : WellFormed e) : motive e := by
  induction h with
  | symbol hname => exact symbol _ hname
  | number => exact number _
  | applied hname hargs ih => exact call _ _ (.applied hname hargs) ih
  | escape he ih => exact call _ _ (.escape he) (List.forall_mem_singleton.mpr ih)
  | minus hne he ih => exact call _ _ (.minus hne he) (List.forall_mem_singleton.mpr ih)
  | binary hop ha hb iha ihb =>
      refine call _ _ (.binary hop ha hb) ?_
      exact List.forall_mem_cons.mpr ⟨iha, List.forall_mem_singleton.mpr ihb⟩
  | run hop hlen hargs ih => exact call _ _ (.run hop hlen hargs) ih
  | sides hes he hothers ihe ih =>
      exact call _ _ (.sides hes he hothers) (List.forall_mem_cons.mpr ⟨ihe, ih⟩)
  | oneSided hes hothers ih =>
      exact call _ _ (.oneSided hes hothers) (List.forall_mem_cons.mpr ⟨absent, ih⟩)

/-! ### Chains -/

/-- The tree so far of a chain whose last operator was `previous`: a run can go on only with a call
that has two arguments already. -/
def Extensible (level : Level) (acc : Expr) (previous : Option Char) : Prop :=
  previous = some level.collapsing →
    ∃ args, acc = .call level.collapsing.toString args ∧ 2 ≤ args.length

theorem wellFormed_call_of_operator {level : Level} {op : Char} {a b : Expr}
    (hop : op ∈ level.operators) (ha : WellFormed a) (hb : WellFormed b) :
    WellFormed (.call op.toString [a, b]) := by
  have hargs : ∀ e ∈ [a, b], WellFormed e :=
    List.forall_mem_cons.mpr ⟨ha, List.forall_mem_singleton.mpr hb⟩
  cases level with
  | sum =>
      simp only [Level.operators, List.mem_cons, List.not_mem_nil, or_false] at hop
      rcases hop with rfl | rfl
      · exact .run (by decide) (Nat.le_refl 2) hargs
      · exact .binary (by decide) ha hb
  | product =>
      simp only [Level.operators, List.mem_cons, List.not_mem_nil, or_false] at hop
      rcases hop with rfl | rfl | rfl
      · exact .run (by decide) (Nat.le_refl 2) hargs
      · exact .binary (by decide) ha hb
      · exact .binary (by decide) ha hb

theorem wellFormed_withArgument {level : Level} {args : List Expr} {e : Expr}
    (h : WellFormed (.call level.collapsing.toString args)) (hlen : 2 ≤ args.length)
    (he : WellFormed e) : WellFormed (.call level.collapsing.toString (args ++ [e])) := by
  have hrun : level.collapsing.toString ∈ ["+", "*"] := by cases level <;> decide
  have hargs : ∀ f ∈ args, WellFormed f := h.forall_mem (by cases level <;> decide)
  refine .run hrun ?_ ?_
  · rw [List.length_append]
    omega
  · intro f hf
    rcases List.mem_append.mp hf with hf | hf
    · exact hargs f hf
    · obtain rfl := List.mem_singleton.mp hf
      exact he

theorem wellFormed_grown {level : Level} {steps : List (Char × Expr)}
    (hsteps : ∀ p ∈ steps, p.1 ∈ level.operators ∧ WellFormed p.2) :
    ∀ {acc : Expr} {previous : Option Char}, WellFormed acc → Extensible level acc previous →
      WellFormed (Grammar.grown level acc previous steps) := by
  -- the tree so far changes with every step, and with it what may extend it
  induction steps with
  | nil =>
      intro acc previous hacc _
      exact hacc
  | cons p steps ih =>
      intro acc previous hacc hext
      obtain ⟨op, e⟩ := p
      obtain ⟨hop, he⟩ := hsteps (op, e) List.mem_cons_self
      have hothers := fun q hq => hsteps q (List.mem_cons_of_mem _ hq)
      rw [Grammar.grown]
      split
      · rename_i hrun
        obtain ⟨rfl, rfl⟩ := hrun
        obtain ⟨args, rfl, hlen⟩ := hext rfl
        refine ih hothers (wellFormed_withArgument hacc hlen he) fun _ => ⟨_, rfl, ?_⟩
        rw [List.length_append]
        omega
      · refine ih hothers (wellFormed_call_of_operator hop hacc he) ?_
        intro hprevious
        cases hprevious
        exact ⟨_, rfl, by simp⟩

/-! ### What a text derives -/

namespace Grammar

theorem Name.isName {s rest : List Char} {name : String} (h : Name s name rest) : IsName name := by
  obtain ⟨c, cs, -, rfl, hc, hcs⟩ := h
  exact ⟨c, cs, String.toList_ofList, hc, hcs⟩

mutual

theorem Tilde.wellFormed : ∀ {s rest : List Char} {e : Expr}, Tilde s e rest → WellFormed e
  | _, _, _, .sum hchain => hchain.wellFormed
  | _, _, _, .between hchain hsides => by
    obtain ⟨hne, hes⟩ := hsides.wellFormed
    exact .sides hne hchain.wellFormed hes
  | _, _, _, .leading hsides => by
    obtain ⟨hne, hes⟩ := hsides.wellFormed
    exact .oneSided hne hes

theorem Sides.wellFormed : ∀ {s rest : List Char} {es : List Expr}, Sides s es rest →
    es ≠ [] ∧ ∀ e ∈ es, WellFormed e
  | _, _, _, .last _ hchain =>
    ⟨List.cons_ne_nil _ _, List.forall_mem_singleton.mpr hchain.wellFormed⟩
  | _, _, _, .cons _ hchain hsides =>
    ⟨List.cons_ne_nil _ _, List.forall_mem_cons.mpr ⟨hchain.wellFormed, hsides.wellFormed.2⟩⟩

theorem Chain.wellFormed : ∀ {level : Level} {s rest : List Char} {e : Expr},
    Chain level s e rest → WellFormed e
  | _, _, _, _, .mk hoperand hsteps =>
    wellFormed_grown hsteps.wellFormed hoperand.wellFormed (fun h => by cases h)

theorem Steps.wellFormed : ∀ {level : Level} {s rest : List Char} {steps : List (Char × Expr)},
    Steps level s steps rest → ∀ p ∈ steps, p.1 ∈ level.operators ∧ WellFormed p.2
  | _, _, _, _, .nil => by simp
  | _, _, _, _, .cons hop _ hoperand hsteps =>
    List.forall_mem_cons.mpr ⟨⟨hop, hoperand.wellFormed⟩, hsteps.wellFormed⟩

theorem Operand.wellFormed : ∀ {level : Level} {s rest : List Char} {e : Expr},
    Operand level s e rest → WellFormed e
  | _, _, _, _, .product hchain => hchain.wellFormed
  | _, _, _, _, .unary hunary => hunary.wellFormed

theorem Unary.wellFormed : ∀ {s rest : List Char} {e : Expr}, Unary s e rest → WellFormed e
  | _, _, _, .minus _ hunary => hunary.wellFormed.negated
  | _, _, _, .escape _ hunary => .escape hunary.wellFormed
  | _, _, _, .power hpower => hpower.wellFormed

theorem Power.wellFormed : ∀ {s rest : List Char} {e : Expr}, Power s e rest → WellFormed e
  | _, _, _, .atom hatom => hatom.wellFormed
  | _, _, _, .raised hatom _ hunary => .binary (by simp) hatom.wellFormed hunary.wellFormed

theorem Atom.wellFormed : ∀ {s rest : List Char} {e : Expr}, Atom s e rest → WellFormed e
  | _, _, _, .group _ htilde _ => htilde.wellFormed
  | _, _, _, .constant _ hname _ => .applied hname.isName (by simp)
  | _, _, _, .call _ hname hargs => .applied hname.isName hargs.wellFormed
  | _, _, _, .symbol _ hname => .symbol hname.isName
  | _, _, _, .number _ _ => .number

theorem Arguments.wellFormed : ∀ {s rest : List Char} {es : List Expr}, Arguments s es rest →
    ∀ e ∈ es, WellFormed e
  | _, _, _, .last htilde _ => List.forall_mem_singleton.mpr htilde.wellFormed
  | _, _, _, .cons htilde _ hargs =>
    List.forall_mem_cons.mpr ⟨htilde.wellFormed, hargs.wellFormed⟩

end

end Grammar

/-- **Only well-formed expressions are read.** -/
theorem wellFormed_of_parse {input : String} {e : Expr} (h : Expr.parse input = .ok e) :
    WellFormed e := by
  obtain ⟨rest, htilde, -⟩ := Grammar.derives_of_parse h
  exact htilde.wellFormed

end ModelFormula
