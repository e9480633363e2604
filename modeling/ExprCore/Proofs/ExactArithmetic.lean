import ExprCore.Operation.Dispatch
import ExprCore.Proofs.Doubles
import Mathlib.Algebra.Field.Rat
import Mathlib.Algebra.GroupWithZero.Units.Basic
import Mathlib.Data.Rat.Cast.CharZero
import Mathlib.Tactic.NormNum.Basic

/-!
# Exact arithmetic

Arithmetic on integers never wraps. Where the exact result is a whole number within the range of
integers, it is the result; every other result is that of the operation on doubles. Only a division
by zero has none.

## Main definitions

- `Value.ReadsAs`: the integer that a value is in arithmetic
- `ArithmeticOp.onRationals`: the exact result of an operation
- `ArithmeticOp.rounded`: the result of an operation on doubles

## Main statements

- `ArithmeticOp.whole?_eq_some_iff`: the whole result of an operation is its exact result
- `integer_arithmetic_is_exact_or_promotes`: what an operation on integers yields
-/

namespace ExprCore

/-- The value is the integer in arithmetic: `null` counts as 0 and truth values as 0 and 1. -/
inductive Value.ReadsAs : Value → Int64 → Prop
  | null : ReadsAs .null 0
  | false : ReadsAs (.bool false) 0
  | true : ReadsAs (.bool true) 1
  | int (n : Int64) : ReadsAs (.int n) n

theorem Value.readsAs_iff {v : Value} {n : Int64} : v.ReadsAs n ↔ v.number? = some (.int n) := by
  constructor
  · rintro ⟨⟩ <;> rfl
  · intro h
    cases v with
    | null =>
      cases h
      exact .null
    | bool b =>
      cases h
      cases b
      · exact .false
      · exact .true
    | int n =>
      cases h
      exact .int n
    | float x => cases h
    | array items => cases h

namespace ArithmeticOp

/-- The exact result of an operation. -/
def onRationals : ArithmeticOp → ℚ → ℚ → ℚ
  | add, a, b => a + b
  | sub, a, b => a - b
  | mul, a, b => a * b
  | div, a, b => a / b

/-- The result of an operation on doubles. -/
def rounded : ArithmeticOp → Float → Float → Float
  | add, a, b => a + b
  | sub, a, b => a - b
  | mul, a, b => a * b
  | div, a, b => a / b

variable {op : ArithmeticOp}

theorem toBinaryOp_apply (op : ArithmeticOp) (l r : Value) :
    op.toBinaryOp.apply l r = op.apply l r := by
  cases op <;> rfl

theorem quotient_eq_iff {a b n : ℤ} (hb : b ≠ 0) :
    (if b ≠ 0 ∧ a % b = 0 then some (a / b) else none) = some n ↔ a = n * b := by
  constructor
  · intro h
    split at h
    · rename_i hexact
      cases h
      exact (Int.ediv_mul_cancel (Int.dvd_of_emod_eq_zero hexact.2)).symm
    · cases h
  · rintro rfl
    rw [if_pos ⟨hb, Int.mul_emod_left n b⟩, Int.mul_ediv_cancel n hb]

/-- The whole result of an operation on integers is its exact result. -/
theorem whole?_eq_some_iff {a b n : ℤ} (h : ¬(op = .div ∧ b = 0)) :
    op.whole? a b = some n ↔ op.onRationals a b = n := by
  cases op with
  | add =>
    rw [whole?, onRationals, Option.some.injEq]
    exact_mod_cast Iff.rfl
  | sub =>
    rw [whole?, onRationals, Option.some.injEq]
    exact_mod_cast Iff.rfl
  | mul =>
    rw [whole?, onRationals, Option.some.injEq]
    exact_mod_cast Iff.rfl
  | div =>
    have hb : b ≠ 0 := fun hzero => h ⟨rfl, hzero⟩
    have hb' : (b : ℚ) ≠ 0 := Int.cast_ne_zero.2 hb
    rw [whole?, onRationals, quotient_eq_iff hb, div_eq_iff hb']
    exact_mod_cast Iff.rfl

theorem apply_of_readsAs (op : ArithmeticOp) {l r : Value} {a b : Int64} (hl : l.ReadsAs a)
    (hr : r.ReadsAs b) : op.toBinaryOp.apply l r = op.onIntegers a b := by
  rw [toBinaryOp_apply, apply, Value.readsAs_iff.1 hl, Value.readsAs_iff.1 hr]

/-- An integer other than 0 is no zero as a double either, so that the division of integers is the
only one that fails. -/
theorem onFloats_integerToFloat {a b : Int64} (h : ¬(op = .div ∧ b = 0)) :
    op.onFloats (integerToFloat a) (integerToFloat b)
      = .ok (.float (op.rounded (integerToFloat a) (integerToFloat b))) := by
  cases op with
  | div =>
    have hb : (integerToFloat b == 0) = false := integerToFloat_ne_zero fun hzero => h ⟨rfl, hzero⟩
    rw [onFloats, hb]
    rfl
  | _ => rfl

theorem onIntegers_eq_error_iff {a b : Int64} :
    op.onIntegers a b = .error .divisionByZero ↔ op = .div ∧ b = 0 := by
  constructor
  · intro hfails
    by_contra h
    rw [onIntegers, if_neg h, onFloats_integerToFloat h] at hfails
    split at hfails <;> cases hfails
  · intro h
    rw [onIntegers, if_pos h]

/-- Where an operation on integers yields no integer, it is that on doubles. -/
theorem onIntegers_eq_float {a b : Int64} (h : ¬(op = .div ∧ b = 0))
    (hnone : ∀ n : Int64, op.onIntegers a b ≠ .ok (.int n)) :
    op.onIntegers a b = .ok (.float (op.rounded (integerToFloat a) (integerToFloat b))) := by
  rw [← onFloats_integerToFloat h]
  unfold onIntegers at hnone ⊢
  rw [if_neg h] at hnone ⊢
  split at hnone
  · rename_i n hn
    exact absurd rfl (hnone n)
  · rfl

/-- An operation on integers yields the exact result where that is a whole number in range. -/
theorem onIntegers_eq_int_iff_onRationals {a b n : Int64} (h : ¬(op = .div ∧ b = 0)) :
    op.onIntegers a b = .ok (.int n) ↔ op.onRationals a.toInt b.toInt = n.toInt := by
  have hzero : ¬(op = .div ∧ b.toInt = 0) := fun ⟨hop, hb⟩ =>
    h ⟨hop, Int64.toInt_inj.1 (hb.trans Int64.toInt_zero.symm)⟩
  rw [onIntegers_eq_int_iff, whole?_eq_some_iff hzero]

end ArithmeticOp

/-- The integers in range are those that a 64-bit integer stands for. -/
theorem exists_toInt_eq_iff {n : ℤ} : (∃ k : Int64, k.toInt = n) ↔ -2 ^ 63 ≤ n ∧ n < 2 ^ 63 := by
  constructor
  · rintro ⟨k, rfl⟩
    exact ⟨k.le_toInt, k.toInt_lt⟩
  · rintro ⟨hlow, hhigh⟩
    exact ⟨Int64.ofInt n, Int64.toInt_ofInt_of_le hlow hhigh⟩

/-- Arithmetic on integers never wraps. It fails for a division by zero alone. Otherwise it yields
an integer exactly where the exact result is a whole number in range, which it then is, and in every
other case what the same operation on doubles yields. -/
theorem integer_arithmetic_is_exact_or_promotes (op : ArithmeticOp) {l r : Value} {a b : Int64}
    (hl : l.ReadsAs a) (hr : r.ReadsAs b) :
    (op.toBinaryOp.apply l r = .error .divisionByZero ↔ op = .div ∧ b = 0)
    ∧ (¬(op = .div ∧ b = 0) →
        (∀ n : ℤ, (∃ k : Int64, k.toInt = n ∧ op.toBinaryOp.apply l r = .ok (.int k))
            ↔ op.onRationals a.toInt b.toInt = n ∧ -2 ^ 63 ≤ n ∧ n < 2 ^ 63)
        ∧ ((¬∃ n : ℤ, op.onRationals a.toInt b.toInt = n ∧ -2 ^ 63 ≤ n ∧ n < 2 ^ 63) →
            op.toBinaryOp.apply l r
              = .ok (.float (op.rounded (integerToFloat a) (integerToFloat b))))) := by
  rw [op.apply_of_readsAs hl hr]
  refine ⟨ArithmeticOp.onIntegers_eq_error_iff, fun h => ⟨?whole, ?promotes⟩⟩
  case whole =>
    intro n
    rw [← exists_toInt_eq_iff]
    constructor
    · rintro ⟨k, rfl, hk⟩
      exact ⟨(ArithmeticOp.onIntegers_eq_int_iff_onRationals h).1 hk, k, rfl⟩
    · rintro ⟨hn, k, rfl⟩
      exact ⟨k, rfl, (ArithmeticOp.onIntegers_eq_int_iff_onRationals h).2 hn⟩
  case promotes =>
    intro hnone
    refine ArithmeticOp.onIntegers_eq_float h fun k hk => hnone ⟨k.toInt, ?_⟩
    exact ⟨(ArithmeticOp.onIntegers_eq_int_iff_onRationals h).1 hk, k.le_toInt, k.toInt_lt⟩

/-- The least integer divided by -1 is out of range by one and becomes a double. -/
theorem integer_arithmetic_is_exact_or_promotes_least :
    BinaryOp.div.apply (.int Int64.minValue) (.int (-1))
      = .ok (.float (integerToFloat Int64.minValue / integerToFloat (-1))) := by
  have hleast : Int64.minValue.toInt = -2 ^ 63 := by decide
  have hone : (-1 : Int64).toInt = -1 := by decide
  have hquotient : ArithmeticOp.div.onRationals Int64.minValue.toInt (-1 : Int64).toInt
      = ((2 ^ 63 : ℤ) : ℚ) := by
    rw [hleast, hone, ArithmeticOp.onRationals]
    norm_num
  refine ((integer_arithmetic_is_exact_or_promotes .div (.int Int64.minValue) (.int (-1))).2
    (by decide)).2 ?_
  rintro ⟨n, hn, -, hhigh⟩
  rw [hquotient] at hn
  exact hhigh.ne (Int.cast_injective hn.symm)

end ExprCore
