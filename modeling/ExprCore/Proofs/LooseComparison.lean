import ExprCore.Operation.Dispatch
import ExprCore.Proofs.Doubles

/-!
# Loose comparison

The six comparisons go back to one order of values, which is absent where something that is no
number decides. The order of two values is the reverse of the order of the two in exchanged places,
however deep their arrays are and whatever types meet in them. So the comparisons fit together as
their signs say.

## Main definitions

- `Value.OccursIn`: a value is another one or stands somewhere inside it
- `Value.ContainsNaN`: something that is no number occurs in a value
- `BinaryOp.Holds`: a comparison of two values is true
- `Value.ComparesCoherently`: the laws of comparison for two values

## Main statements

- `Value.compare?_swap`: comparing in the other order reverses the result
- `Value.compare?_self_iff`: what is equal to itself
- `Value.compare?_ne_none`: values in which everything is a number have an order
- `loose_comparison_is_coherent`: the laws hold of all values
-/

namespace ExprCore

theorem compareTruth_swap (a b : Bool) : compareTruth b a = (compareTruth a b).swap :=
  (Nat.compare_swap _ _).symm

theorem compareIntegers_swap (a b : Int64) : compareIntegers b a = (compareIntegers a b).swap :=
  (Int.compare_swap _ _).symm

namespace Value

/-- Induction over values, with a hypothesis for each element of an array. -/
@[elab_as_elim]
theorem elementInduction {motive : Value → Prop} (null : motive .null)
    (bool : ∀ b, motive (.bool b)) (int : ∀ n, motive (.int n)) (float : ∀ x, motive (.float x))
    (array : ∀ items : List Value, (∀ v ∈ items, motive v) → motive (.array ⟨items⟩))
    (v : Value) : motive v :=
  match v with
  | .null => null
  | .bool b => bool b
  | .int n => int n
  | .float x => float x
  | .array ⟨items⟩ => array items fun v _ => elementInduction null bool int float array v

variable {a b : Value} {as bs : List Value}

theorem compare?_arrays (as bs : List Value) :
    (array ⟨as⟩).compare? (array ⟨bs⟩)
      = if as.length = bs.length then compareItems? as bs
        else some (compare as.length bs.length) := by
  rw [compare?]
  rfl

theorem compareItems?_cons (a b : Value) (as bs : List Value) :
    compareItems? (a :: as) (b :: bs)
      = (a.compare? b).bind fun order =>
          if order = .eq then compareItems? as bs else some order := by
  rw [compareItems?]
  cases a.compare? b with
  | none => rfl
  | some order => cases order <;> rfl

theorem compareItems?_swap
    (h : ∀ a ∈ as, ∀ b : Value, b.compare? a = (a.compare? b).map Ordering.swap) :
    compareItems? bs as = (compareItems? as bs).map Ordering.swap := by
  induction as generalizing bs with
  | nil => cases bs <;> rfl
  | cons a as ih =>
    cases bs with
    | nil => rfl
    | cons b bs =>
      have hrest : compareItems? bs as = (compareItems? as bs).map Ordering.swap :=
        ih fun x hx => h x (List.mem_cons_of_mem _ hx)
      rw [compareItems?_cons, compareItems?_cons, h a (List.mem_cons_self ..) b, hrest]
      cases a.compare? b with
      | none => rfl
      | some order => cases order <;> rfl

theorem compare?_swap_of_condition (h : a.isCondition = true ∨ b.isCondition = true) :
    b.compare? a = (a.compare? b).map Ordering.swap := by
  rw [compare?_of_condition h, compare?_of_condition h.symm, compareTruth_swap]
  rfl

/-- Comparing in the other order reverses the result. -/
theorem compare?_swap (a b : Value) : b.compare? a = (a.compare? b).map Ordering.swap := by
  induction a using elementInduction generalizing b with
  | null => exact compare?_swap_of_condition (.inl rfl)
  | bool t => exact compare?_swap_of_condition (.inl rfl)
  | int n =>
    cases b with
    | null | bool => exact compare?_swap_of_condition (.inr rfl)
    | int k => simp only [compare?, compareIntegers_swap n k, Option.map_some]
    | float y => simp only [compare?, compareFloats?_swap (integerToFloat n)]
    | array => rfl
  | float x =>
    cases b with
    | null | bool => exact compare?_swap_of_condition (.inr rfl)
    | int k => simp only [compare?, compareFloats?_swap x]
    | float y => simp only [compare?, compareFloats?_swap x]
    | array => rfl
  | array as ih =>
    cases b with
    | null | bool => exact compare?_swap_of_condition (.inr rfl)
    | int | float => rfl
    | array items =>
      obtain ⟨bs⟩ := items
      rw [compare?_arrays, compare?_arrays]
      by_cases hlength : as.length = bs.length
      · rw [if_pos hlength, if_pos hlength.symm, compareItems?_swap ih]
      · rw [if_neg hlength, if_neg (Ne.symm hlength), Option.map_some, Nat.compare_swap]

/-- The value is the other one or an element on any level of its arrays. -/
inductive OccursIn (part : Value) : Value → Prop
  | self : part.OccursIn part
  | element {items : Array Value} {v : Value} :
      v ∈ items → part.OccursIn v → part.OccursIn (.array items)

/-- A double that is no number occurs in the value. -/
def ContainsNaN (v : Value) : Prop := ∃ x : Float, x.isNaN = true ∧ (float x).OccursIn v

theorem not_containsNaN_of_condition {v : Value} (h : v.isCondition = true) :
    ¬v.ContainsNaN := by
  rintro ⟨x, _, ⟨⟩ | _⟩ <;> cases h

theorem not_containsNaN_int (n : Int64) : ¬(int n).ContainsNaN := by
  rintro ⟨x, _, ⟨⟩⟩

theorem containsNaN_float_iff {x : Float} : (float x).ContainsNaN ↔ x.isNaN = true := by
  constructor
  · rintro ⟨_, hx, ⟨⟩⟩
    exact hx
  · exact fun hx => ⟨x, hx, .self⟩

theorem containsNaN_array_iff {items : List Value} :
    (array ⟨items⟩).ContainsNaN ↔ ∃ v ∈ items, v.ContainsNaN := by
  constructor
  · rintro ⟨x, hx, ⟨⟩ | ⟨hmem, hoccurs⟩⟩
    exact ⟨_, by simpa using hmem, x, hx, hoccurs⟩
  · rintro ⟨v, hmem, x, hx, hoccurs⟩
    exact ⟨x, hx, .element (by simpa using hmem) hoccurs⟩

theorem compareItems?_eq_eq_iff :
    compareItems? (a :: as) (b :: bs) = some .eq
      ↔ a.compare? b = some .eq ∧ compareItems? as bs = some .eq := by
  rw [compareItems?_cons]
  cases a.compare? b with
  | none => simp
  | some order => cases order <;> simp

theorem compareItems?_self_iff :
    compareItems? as as = some .eq ↔ ∀ v ∈ as, v.compare? v = some .eq := by
  induction as with
  | nil => exact ⟨fun _ => List.forall_mem_nil _, fun _ => rfl⟩
  | cons a as ih => rw [compareItems?_eq_eq_iff, ih, List.forall_mem_cons]

/-- A value is equal to itself unless something in it is no number. -/
theorem compare?_self_iff (a : Value) : a.compare? a = some .eq ↔ ¬a.ContainsNaN := by
  have hcondition (v : Value) (h : v.isCondition = true) :
      v.compare? v = some .eq ↔ ¬v.ContainsNaN := by
    rw [compare?_of_condition (.inl h), compareTruth, Nat.compare_eq_eq.2 rfl]
    exact ⟨fun _ => not_containsNaN_of_condition h, fun _ => rfl⟩
  induction a using elementInduction with
  | null => exact hcondition _ rfl
  | bool t => exact hcondition _ rfl
  | int n =>
    rw [compare?, compareIntegers, Int.compare_eq_eq.2 rfl]
    exact ⟨fun _ => not_containsNaN_int n, fun _ => rfl⟩
  | float x =>
    rw [compare?, containsNaN_float_iff]
    constructor
    · intro hself hnan
      rw [compareFloats?_eq_none_iff.2 (.inl hnan)] at hself
      cases hself
    · exact fun hnan => compareFloats?_self (Bool.eq_false_iff.2 hnan)
  | array items ih =>
    rw [compare?_arrays, if_pos rfl, compareItems?_self_iff, containsNaN_array_iff]
    simp only [not_exists, not_and]
    exact forall₂_congr ih

theorem compareItems?_ne_none (h : ∀ a ∈ as, ∀ b ∈ bs, a.compare? b ≠ none) :
    compareItems? as bs ≠ none := by
  induction as generalizing bs with
  | nil => exact Option.some_ne_none _
  | cons a as ih =>
    cases bs with
    | nil => exact Option.some_ne_none _
    | cons b bs =>
      have hfirst := h a (List.mem_cons_self ..) b (List.mem_cons_self ..)
      have hrest := ih fun x hx y hy =>
        h x (List.mem_cons_of_mem _ hx) y (List.mem_cons_of_mem _ hy)
      rw [compareItems?_cons]
      obtain ⟨order, horder⟩ := Option.ne_none_iff_exists'.1 hfirst
      rw [horder, Option.bind_some]
      split
      · exact hrest
      · exact Option.some_ne_none _

/-- Values in which everything is a number have an order. -/
theorem compare?_ne_none (ha : ¬a.ContainsNaN) (hb : ¬b.ContainsNaN) : a.compare? b ≠ none := by
  have hcondition {a b : Value} (h : a.isCondition = true ∨ b.isCondition = true) :
      a.compare? b ≠ none := by
    rw [compare?_of_condition h]
    exact Option.some_ne_none _
  have hfloats {x y : Float} (hx : ¬x.isNaN = true) (hy : ¬y.isNaN = true) :
      compareFloats? x y ≠ none :=
    fun hnone => (compareFloats?_eq_none_iff.1 hnone).elim hx hy
  have hinteger (n : Int64) : ¬(integerToFloat n).isNaN = true :=
    Bool.eq_false_iff.1 (isNaN_integerToFloat n)
  induction a using elementInduction generalizing b with
  | null => exact hcondition (.inl rfl)
  | bool t => exact hcondition (.inl rfl)
  | int n =>
    cases b with
    | null | bool => exact hcondition (.inr rfl)
    | int k => exact Option.some_ne_none _
    | float y =>
      rw [compare?]
      exact hfloats (hinteger n) (mt containsNaN_float_iff.2 hb)
    | array => exact Option.some_ne_none _
  | float x =>
    rw [containsNaN_float_iff] at ha
    cases b with
    | null | bool => exact hcondition (.inr rfl)
    | int k =>
      rw [compare?]
      exact hfloats ha (hinteger k)
    | float y =>
      rw [compare?]
      exact hfloats ha (mt containsNaN_float_iff.2 hb)
    | array => exact Option.some_ne_none _
  | array as ih =>
    cases b with
    | null | bool => exact hcondition (.inr rfl)
    | int | float => exact Option.some_ne_none _
    | array items =>
      obtain ⟨bs⟩ := items
      rw [containsNaN_array_iff] at ha hb
      rw [compare?_arrays]
      split
      · exact compareItems?_ne_none fun x hx y hy =>
          ih x hx (fun h => ha ⟨x, hx, h⟩) (fun h => hb ⟨y, hy, h⟩)
      · exact Option.some_ne_none _

end Value

/-- The comparison is true of the two values. -/
def BinaryOp.Holds (op : BinaryOp) (a b : Value) : Prop := op.apply a b = .ok (.bool true)

/-- The operator that makes the comparison. -/
def ComparisonOp.toBinaryOp : ComparisonOp → BinaryOp
  | eq => .eq
  | ne => .ne
  | lt => .lt
  | le => .le
  | gt => .gt
  | ge => .ge

/-- A comparison yields whether its sign fits the order of the two values. -/
theorem ComparisonOp.apply_toBinaryOp (op : ComparisonOp) (a b : Value) :
    op.toBinaryOp.apply a b = .ok (.bool (op.holds (a.compare? b))) := by
  cases op <;> rfl

namespace BinaryOp

variable {a b : Value}

theorem holds_comparison_iff (op : ComparisonOp) :
    op.toBinaryOp.Holds a b ↔ op.holds (a.compare? b) = true := by
  rw [Holds, ComparisonOp.apply_toBinaryOp, Except.ok.injEq, Value.bool.injEq]

theorem holds_eq_iff : eq.Holds a b ↔ a.compare? b = some .eq :=
  (holds_comparison_iff .eq).trans beq_iff_eq

theorem holds_ne_iff : ne.Holds a b ↔ a.compare? b ≠ some .eq :=
  (holds_comparison_iff .ne).trans bne_iff_ne

theorem holds_lt_iff : lt.Holds a b ↔ a.compare? b = some .lt :=
  (holds_comparison_iff .lt).trans beq_iff_eq

theorem holds_gt_iff : gt.Holds a b ↔ a.compare? b = some .gt :=
  (holds_comparison_iff .gt).trans beq_iff_eq

theorem holds_le_iff : le.Holds a b ↔ a.compare? b = some .lt ∨ a.compare? b = some .eq :=
  (holds_comparison_iff .le).trans (by simp [ComparisonOp.holds])

theorem holds_ge_iff : ge.Holds a b ↔ a.compare? b = some .gt ∨ a.compare? b = some .eq :=
  (holds_comparison_iff .ge).trans (by simp [ComparisonOp.holds])

end BinaryOp

/-- The laws of comparison for two values. -/
structure Value.ComparesCoherently (a b : Value) : Prop where
  reversed : b.compare? a = (a.compare? b).map Ordering.swap
  unordered_iff : b.compare? a = none ↔ a.compare? b = none
  lt_iff_gt : BinaryOp.lt.Holds a b ↔ BinaryOp.gt.Holds b a
  le_iff_ge : BinaryOp.le.Holds a b ↔ BinaryOp.ge.Holds b a
  eq_symm : BinaryOp.eq.Holds a b ↔ BinaryOp.eq.Holds b a
  ne_symm : BinaryOp.ne.Holds a b ↔ BinaryOp.ne.Holds b a
  not_lt_and_eq : ¬(BinaryOp.lt.Holds a b ∧ BinaryOp.eq.Holds a b)
  not_lt_and_gt : ¬(BinaryOp.lt.Holds a b ∧ BinaryOp.gt.Holds a b)
  not_eq_and_gt : ¬(BinaryOp.eq.Holds a b ∧ BinaryOp.gt.Holds a b)
  le_iff : BinaryOp.le.Holds a b ↔ BinaryOp.lt.Holds a b ∨ BinaryOp.eq.Holds a b
  ge_iff : BinaryOp.ge.Holds a b ↔ BinaryOp.gt.Holds a b ∨ BinaryOp.eq.Holds a b
  ne_iff : BinaryOp.ne.Holds a b ↔ ¬BinaryOp.eq.Holds a b
  /-- A comparison that is not true yields that it is false. -/
  decided : ∀ op : ComparisonOp,
    op.toBinaryOp.Holds a b ∨ op.toBinaryOp.apply a b = .ok (.bool false)
  /-- Of values without an order only `!=` is true. -/
  of_unordered : a.compare? b = none → ∀ op : ComparisonOp, op.toBinaryOp.Holds a b ↔ op = .ne
  eq_self_iff : BinaryOp.eq.Holds a a ↔ ¬a.ContainsNaN
  ordered : ¬a.ContainsNaN → ¬b.ContainsNaN → a.compare? b ≠ none

/-- Loose comparison is symmetric and coherent on all values: comparing in the other order reverses
the result, the six comparisons fit together as their signs say and are all decided, a value is
equal to itself unless something in it is no number, and only what is no number keeps two values
from having an order. -/
theorem loose_comparison_is_coherent (a b : Value) : a.ComparesCoherently b := by
  have hreversed : b.compare? a = (a.compare? b).map Ordering.swap := Value.compare?_swap a b
  have hdecided (op : ComparisonOp) :
      op.toBinaryOp.Holds a b ∨ op.toBinaryOp.apply a b = .ok (.bool false) := by
    rw [BinaryOp.holds_comparison_iff, ComparisonOp.apply_toBinaryOp]
    cases op.holds (a.compare? b) <;> simp
  have hunordered (hnone : a.compare? b = none) (op : ComparisonOp) :
      op.toBinaryOp.Holds a b ↔ op = .ne := by
    rw [BinaryOp.holds_comparison_iff, hnone]
    cases op <;> decide
  refine ⟨hreversed, ?_, ?_, ?_, ?_, ?_, ?_, ?_, ?_, ?_, ?_, ?_, hdecided, hunordered,
    BinaryOp.holds_eq_iff.trans (Value.compare?_self_iff a), Value.compare?_ne_none⟩
  -- what is left only depends on the order of the two values, of which there are four cases
  all_goals
    simp only [BinaryOp.holds_eq_iff, BinaryOp.holds_ne_iff, BinaryOp.holds_lt_iff,
      BinaryOp.holds_gt_iff, BinaryOp.holds_le_iff, BinaryOp.holds_ge_iff, hreversed]
  all_goals rcases a.compare? b with _ | _ | _ | _ <;> decide

/-- What is no number keeps an array from being equal to itself, but not from being ordered where
elements in front of it decide. -/
example :
    let deep : Value := .array #[.int 1, .array #[.float (0 / 0), .null]]
    deep.compare? deep = none ∧ deep.compare? (.array #[.int 2, .int 0]) = some .lt := by
  decide

end ExprCore
