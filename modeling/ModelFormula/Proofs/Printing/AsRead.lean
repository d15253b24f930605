import ModelFormula.Proofs.Double
import ModelFormula.Proofs.WellFormed

/-!
# What a printed expression reads as

Two kinds of trees are not read as they were printed.  A number that is not finite prints as a
name, and a power with the base `-0` prints with a minus in front, which is read as the negative of
a power.

* `Expr.asRead` — the expression that the text of a well-formed expression is read as;
* `Expr.Legible` — no number that is not finite, and no base `-0`;
* `Expr.agrees_asRead_iff` — **an expression is read as an equal one just if it is legible.**
-/

set_option autoImplicit false

namespace ModelFormula

namespace Double

/-- Whether a double is the zero with the sign bit. -/
def isMinusZero (x : Float) : Bool := isNegative x && place x == 0

theorem isMinusZero_iff {x : Float} : isMinusZero x = true ↔ x = -0.0 := by
  constructor
  · intro h
    simp only [isMinusZero, Bool.and_eq_true, beq_iff_eq] at h
    exact eq_of_place_eq (h.2.trans rfl) (h.1.trans rfl)
  · rintro rfl
    rfl

end Double

namespace Expr

/-! ### What is read -/

/-- The expression that the text of a number is read as. -/
def numberAsRead (x : Float) : Expr :=
  if Double.isFinite x then .number x
  else if Double.isInfinite x then
    if Double.isNegative x then .call "-" [.symbol "inf"] else .symbol "inf"
  else .symbol "NaN"

/-- The expression that a call with the operands `args` is read as: the minus of a base `-0` is
read after its power. -/
def callAsRead (op : String) (args : List Expr) : Expr :=
  match args with
  | .number x :: others =>
    if op = "^" ∧ Double.isMinusZero x then
      .call "-" [.call op (.number (Double.absolute x) :: others)]
    else .call op args
  | _ => .call op args

mutual
/-- The expression that the text of an expression is read as. -/
def asRead : Expr → Expr
  | .call op args => callAsRead op (asReadAll args)
  | .symbol name => .symbol name
  | .number x => numberAsRead x
  | .absent => .absent

/-- The expressions that the texts of a list of expressions are read as. -/
def asReadAll : List Expr → List Expr
  | [] => []
  | e :: es => asRead e :: asReadAll es
end

@[simp] theorem asRead_symbol (name : String) : (symbol name).asRead = symbol name := by
  rw [asRead]
@[simp] theorem asRead_number (x : Float) : (number x).asRead = numberAsRead x := by rw [asRead]
@[simp] theorem asRead_absent : absent.asRead = absent := by rw [asRead]

theorem asReadAll_eq_map (es : List Expr) : asReadAll es = es.map asRead := by
  induction es with
  | nil => rw [asReadAll, List.map_nil]
  | cons e es ih => rw [asReadAll, ih, List.map_cons]

theorem asRead_call (op : String) (args : List Expr) :
    (call op args).asRead = callAsRead op (args.map asRead) := by
  rw [asRead, asReadAll_eq_map]

/-- A call is read as it is unless its first operand is a base `-0`. -/
theorem callAsRead_eq_self {op : String} {args : List Expr}
    (h : op = "^" → args.head? ≠ some (.number (-0.0))) : callAsRead op args = .call op args := by
  unfold callAsRead
  split
  · rename_i x others
    refine if_neg ?_
    rintro ⟨hop, hx⟩
    rw [Double.isMinusZero_iff.mp hx] at h
    exact h hop rfl
  · rfl

/-- The zero `-0` on its own is read as it is. -/
theorem asRead_minusZero : (number (-0.0)).asRead = .number (-0.0) := by
  rw [asRead_number, numberAsRead]
  exact if_pos rfl

/-- A power of `-0` is read as the negative of a power. -/
theorem callAsRead_minusZero (others : List Expr) :
    callAsRead "^" (.number (-0.0) :: others) =
      .call "-" [.call "^" (.number (Double.absolute (-0.0)) :: others)] := by
  rw [callAsRead]
  exact if_pos ⟨rfl, rfl⟩

theorem isCall_callAsRead (op : String) (args : List Expr) :
    (callAsRead op args).isCall = true := by
  unfold callAsRead
  split
  · split <;> rfl
  · rfl

/-- Only the text of a number is read as a number. -/
theorem eq_number_of_asRead {e : Expr} {x : Float} (h : e.asRead = .number x) :
    e = .number x := by
  cases e with
  | call op args =>
      have hcall := isCall_callAsRead op (args.map asRead)
      rw [asRead_call] at h
      rw [h] at hcall
      cases hcall
  | symbol name =>
      rw [asRead_symbol] at h
      cases h
  | absent =>
      rw [asRead_absent] at h
      cases h
  | number y =>
      rw [asRead_number, numberAsRead] at h
      split at h
      · exact h
      · split at h
        · split at h <;> cases h
        · cases h

/-! ### Legible expressions -/

/-- Every number is finite, and no power has the base `-0`. -/
def Legible (e : Expr) : Prop :=
  (∀ x, .number x ∈ e.nodes → Double.isFinite x = true) ∧
    ∀ args, .call "^" (.number (-0.0) :: args) ∉ e.nodes

theorem legible_symbol (name : String) : (symbol name).Legible := by
  constructor
  · intro x hx
    simp at hx
  · intro args hargs
    simp at hargs

theorem legible_absent : absent.Legible := by
  constructor
  · intro x hx
    simp at hx
  · intro args hargs
    simp at hargs

theorem legible_number_iff {x : Float} : (number x).Legible ↔ Double.isFinite x = true := by
  constructor
  · intro h
    exact h.1 x (by simp)
  · intro h
    constructor
    · intro y hy
      obtain rfl : y = x := by simpa using hy
      exact h
    · intro args hargs
      simp at hargs

/-- A call is legible if its operands are and it is no power of `-0`. -/
theorem legible_call_iff {op : String} {args : List Expr} :
    (call op args).Legible ↔
      (op = "^" → args.head? ≠ some (.number (-0.0))) ∧ ∀ e ∈ args, e.Legible := by
  constructor
  · rintro ⟨hfinite, hbase⟩
    refine ⟨?_, fun e he => ⟨fun x hx => hfinite x (mem_nodes_of_mem he hx),
      fun others hothers => hbase others (mem_nodes_of_mem he hothers)⟩⟩
    rintro rfl hhead
    obtain ⟨others, rfl⟩ := List.head?_eq_some_iff.mp hhead
    exact hbase others (mem_nodes_self _)
  · rintro ⟨hhead, hargs⟩
    constructor
    · intro x hx
      rcases mem_nodes_call_iff.mp hx with hx | ⟨e, he, hx⟩
      · cases hx
      · exact (hargs e he).1 x hx
    · intro others hothers
      rcases mem_nodes_call_iff.mp hothers with heq | ⟨e, he, hothers⟩
      · cases heq
        exact hhead rfl rfl
      · exact (hargs e he).2 others hothers

/-! ### Agreement -/

theorem agrees_call (f g : String) (xs ys : List Expr) :
    (call f xs).agrees (call g ys) = (f == g && agreesAll xs ys) := by rw [agrees]

theorem agreesAll_map_iff {r : Expr → Expr} {es : List Expr} :
    agreesAll (es.map r) es = true ↔ ∀ e ∈ es, (r e).agrees e = true := by
  induction es with
  | nil => simp [agreesAll]
  | cons e es ih => simp [agreesAll, ih]

theorem agrees_number_iff {x : Float} :
    (numberAsRead x).agrees (.number x) = true ↔ Double.isFinite x = true := by
  unfold numberAsRead
  split
  · rename_i hfinite
    have hle : Double.place x ≤ Double.infinityPlace := Nat.le_of_lt (of_decide_eq_true hfinite)
    simp [agrees, Double.beq_self hle, hfinite]
  · rename_i hfinite
    constructor
    · intro h
      split at h
      · split at h <;> simp [agrees] at h
      · simp [agrees] at h
    · intro h
      exact absurd h hfinite

theorem agrees_asRead_call_iff {op : String} {args : List Expr}
    (h : ∀ e ∈ args, (e.asRead.agrees e = true ↔ e.Legible)) :
    (call op args).asRead.agrees (call op args) = true ↔ (call op args).Legible := by
  rw [asRead_call, legible_call_iff]
  by_cases hbase : op = "^" ∧ args.head? = some (.number (-0.0))
  · -- what is read is a call of `-`, which agrees with no call of `^`
    obtain ⟨rfl, hhead⟩ := hbase
    obtain ⟨others, rfl⟩ := List.head?_eq_some_iff.mp hhead
    rw [List.map_cons, asRead_minusZero, callAsRead_minusZero, agrees_call]
    constructor
    · intro hagrees
      simp at hagrees
    · rintro ⟨hhead, -⟩
      exact absurd rfl (hhead rfl)
  · have hself : callAsRead op (args.map asRead) = .call op (args.map asRead) := by
      refine callAsRead_eq_self ?_
      intro hop hhead
      obtain ⟨e, he, hread⟩ := Option.map_eq_some_iff.mp (List.head?_map.symm.trans hhead)
      rw [eq_number_of_asRead hread] at he
      exact hbase ⟨hop, he⟩
    rw [hself, agrees_call, beq_self_eq_true, Bool.true_and, agreesAll_map_iff]
    constructor
    · intro hagrees
      exact ⟨fun hop hhead => hbase ⟨hop, hhead⟩, fun e he => (h e he).mp (hagrees e he)⟩
    · rintro ⟨-, hargs⟩ e he
      exact (h e he).mpr (hargs e he)

/-- **An expression is read as an equal one just if it is legible.** -/
theorem agrees_asRead_iff {e : Expr} (h : WellFormed e) :
    e.asRead.agrees e = true ↔ e.Legible := by
  refine WellFormed.inductionCalls ?symbol ?number ?absent ?call h
  case symbol =>
    intro name _
    rw [asRead_symbol]
    exact iff_of_true (beq_self_eq_true name) (legible_symbol name)
  case number =>
    intro x
    rw [asRead_number, legible_number_iff]
    exact agrees_number_iff
  case absent =>
    rw [asRead_absent]
    exact iff_of_true rfl legible_absent
  case call =>
    intro op args _ ih
    exact agrees_asRead_call_iff ih

/-- A legible expression is read as it is. -/
theorem asRead_eq_self {e : Expr} (h : WellFormed e) : e.Legible → e.asRead = e := by
  refine WellFormed.inductionCalls ?symbol ?number ?absent ?call h
  case symbol =>
    intro name _ _
    exact asRead_symbol name
  case number =>
    intro x hlegible
    rw [asRead_number, numberAsRead]
    exact if_pos (legible_number_iff.mp hlegible)
  case absent =>
    intro _
    exact asRead_absent
  case call =>
    intro op args _ ih hlegible
    obtain ⟨hhead, hargs⟩ := legible_call_iff.mp hlegible
    have hmap : args.map asRead = args := by
      rw [List.map_congr_left fun e he => ih e he (hargs e he), List.map_id']
    rw [asRead_call, hmap]
    exact callAsRead_eq_self hhead

/-- A legible expression agrees with itself: it holds no NaN. -/
theorem agrees_self {e : Expr} (h : WellFormed e) (hlegible : e.Legible) : e.agrees e = true := by
  have hagrees := (agrees_asRead_iff h).mpr hlegible
  rw [asRead_eq_self h hlegible] at hagrees
  exact hagrees

end Expr

end ModelFormula
