import ExprCore.Operation.Dispatch
import Mathlib.Data.Int.ModEq
import Mathlib.Data.Rat.Floor

/-!
# Shifts

A shift of integers is a multiplication or a division by a power of two, whatever the amount. To the
right it is the quotient rounded down; to the left it is the product modulo `2 ^ 64`. The number of
bits of an integer plays no part in these laws, so that two shifts one after the other are one shift
by the sum.

## Main definitions

- `Value.integer?`: the integer that a shift takes a value for
- `ShiftOp.toBinaryOp`: the operator that makes a shift

## Main statements

- `toInt_shiftRight_of_lt`, `toInt_shiftLeft_of_lt`: what the shifts of machine integers do
- `toInt_shiftRight`, `toInt_shiftLeft_modEq`: what a shift of an integer yields
- `ShiftOp.bits_bits`: two shifts one after the other
- `shifts_are_unbounded`: shifts of values
-/

namespace ExprCore

/-- The integer that a shift takes a value for: that of arithmetic, with doubles cut. -/
def Value.integer? (v : Value) : Option Int64 := v.number?.map Number.toInteger

/-- Below the width of an integer, a machine shift takes the number of bits as it is. -/
theorem toNat_shiftAmount {bits : ℕ} (h : bits < integerBits) :
    ((Int64.ofNat bits).toBitVec.smod 64).toNat = bits := by
  have hall : ∀ b : Fin 64, ((Int64.ofNat b).toBitVec.smod 64).toNat = b := by decide
  exact hall ⟨bits, h⟩

/-- A machine shift to the right below the width rounds the quotient down. -/
theorem toInt_shiftRight_of_lt (value : Int64) {bits : ℕ} (h : bits < integerBits) :
    (value >>> Int64.ofNat bits).toInt = value.toInt / 2 ^ bits := by
  rw [← Int64.toInt_toBitVec, Int64.toBitVec_shiftRight, BitVec.toInt_sshiftRight',
    toNat_shiftAmount h, Int.shiftRight_eq_div_pow, Int64.toInt_toBitVec]
  norm_cast

/-- A machine shift to the left below the width drops the bits that leave the integer. -/
theorem toInt_shiftLeft_of_lt (value : Int64) {bits : ℕ} (h : bits < integerBits) :
    (value <<< Int64.ofNat bits).toInt ≡ value.toInt * 2 ^ bits [ZMOD 2 ^ 64] := by
  have hvalue : value.toInt ≡ value.toBitVec.toNat [ZMOD 2 ^ 64] := by
    rw [← Int64.toInt_toBitVec, BitVec.toInt_eq_toNat_bmod]
    exact Int.bmod_emod
  have hshift : (value <<< Int64.ofNat bits).toInt
      = ((value.toBitVec.toNat * 2 ^ bits : ℕ) : ℤ).bmod (2 ^ 64) := by
    rw [← Int64.toInt_toBitVec, Int64.toBitVec_shiftLeft, BitVec.shiftLeft_eq',
      toNat_shiftAmount h, BitVec.toInt_shiftLeft, Nat.shiftLeft_eq]
  rw [hshift]
  push_cast
  exact Int.ModEq.trans Int.bmod_emod (hvalue.symm.mul_right _)

/-- The exact quotient by a power of two, rounded down, is the result of a shift to the right. -/
theorem toInt_shiftRight (value : Int64) (bits : ℕ) :
    (shiftRight value bits).toInt = value.toInt / 2 ^ bits := by
  unfold shiftRight
  by_cases hbits : bits < integerBits
  · rw [if_pos hbits, toInt_shiftRight_of_lt value hbits]
  · -- all bits are gone: the quotient is 0 or -1, as the sign says
    have hlow := value.le_toInt
    have hhigh := value.toInt_lt
    have hwide : (2 : ℤ) ^ 64 ≤ 2 ^ bits := pow_le_pow_right₀ (by decide) (Nat.not_lt.1 hbits)
    rw [if_neg hbits]
    by_cases hsign : value < 0
    · have hneg : value.toInt < 0 := Int64.lt_iff_toInt_lt.1 hsign
      rw [if_pos hsign, Int.ediv_eq_neg_one_of_neg_of_le hneg (by omega)]
      decide
    · have hnonneg : ¬ value.toInt < 0 := fun h => hsign (Int64.lt_iff_toInt_lt.2 h)
      rw [if_neg hsign, Int.ediv_eq_zero_of_lt (by omega) (by omega)]
      decide

/-- The exact product with a power of two, modulo `2 ^ 64`, is the result of a shift to the left. -/
theorem toInt_shiftLeft_modEq (value : Int64) (bits : ℕ) :
    (shiftLeft value bits).toInt ≡ value.toInt * 2 ^ bits [ZMOD 2 ^ 64] := by
  unfold shiftLeft
  by_cases hbits : bits < integerBits
  · rw [if_pos hbits]
    exact toInt_shiftLeft_of_lt value hbits
  · have hdvd : (2 : ℤ) ^ 64 ∣ value.toInt * 2 ^ bits :=
      Dvd.dvd.mul_left (pow_dvd_pow 2 (Nat.not_lt.1 hbits)) _
    rw [if_neg hbits]
    exact ((Int.modEq_zero_iff_dvd).2 hdvd).symm

/-- An integer is determined by its residue modulo `2 ^ 64`. -/
theorem eq_of_toInt_modEq {a b : Int64} (h : a.toInt ≡ b.toInt [ZMOD 2 ^ 64]) : a = b := by
  have ha := a.le_toInt
  have ha' := a.toInt_lt
  have hb := b.le_toInt
  have hb' := b.toInt_lt
  rw [Int.modEq_iff_dvd] at h
  refine Int64.toInt_inj.1 ?_
  omega

namespace ShiftOp

/-- The operator that makes the shift. -/
def toBinaryOp : ShiftOp → BinaryOp
  | left => .shl
  | right => .shr

/-- A shift of an integer by a number of bits. -/
def bits : ShiftOp → Int64 → ℕ → Int64
  | left => shiftLeft
  | right => shiftRight

/-- Two shifts one after the other are one shift by the sum. -/
theorem bits_bits (op : ShiftOp) (value : Int64) (n m : ℕ) :
    op.bits (op.bits value n) m = op.bits value (n + m) := by
  cases op with
  | left =>
    refine eq_of_toInt_modEq ?_
    calc (shiftLeft (shiftLeft value n) m).toInt
        ≡ (shiftLeft value n).toInt * 2 ^ m [ZMOD 2 ^ 64] := toInt_shiftLeft_modEq _ m
      _ ≡ value.toInt * 2 ^ n * 2 ^ m [ZMOD 2 ^ 64] := (toInt_shiftLeft_modEq value n).mul_right _
      _ = value.toInt * 2 ^ (n + m) := by rw [mul_assoc, ← pow_add]
      _ ≡ (shiftLeft value (n + m)).toInt [ZMOD 2 ^ 64] := (toInt_shiftLeft_modEq value _).symm
  | right =>
    refine Int64.toInt_inj.1 ?_
    show (shiftRight (shiftRight value n) m).toInt = (shiftRight value (n + m)).toInt
    rw [toInt_shiftRight, toInt_shiftRight, toInt_shiftRight, pow_add,
      Int.ediv_ediv_of_nonneg (by positivity)]

theorem toBinaryOp_apply (op : ShiftOp) (l r : Value) :
    op.toBinaryOp.apply l r = op.apply l r := by
  cases op <;> rfl

theorem operand_of_integer? {v : Value} {n : Int64} (h : v.integer? = some n) :
    operand v = .ok n := by
  obtain ⟨number, hnumber, rfl⟩ := Option.map_eq_some_iff.1 h
  rw [operand, hnumber]

/-- The operands of a shift are the integers that they are taken for. -/
theorem apply_eq {l r : Value} {value amount : Int64} (op : ShiftOp)
    (hl : l.integer? = some value) (hr : r.integer? = some amount) :
    op.toBinaryOp.apply l r
      = if amount.toInt < 0 then .error (.negativeShift amount)
        else .ok (.int (op.bits value amount.toInt.toNat)) := by
  rw [toBinaryOp_apply, apply, operand_of_integer? hl, operand_of_integer? hr]
  show op.onIntegers value amount = _
  cases op <;> rfl

end ShiftOp

/-- Shifts of values are unbounded shifts of the integers that the values are taken for. A shift
fails for a negative amount alone, with the error that names the amount. Otherwise a shift to the
right yields the exact quotient by the power of two, rounded down, and a shift to the left yields
the integer that is congruent to the exact product modulo `2 ^ 64`. Two shifts in the same direction
are one shift by the sum of the amounts, where that is an integer. -/
theorem shifts_are_unbounded {l r : Value} {a n : Int64} (hl : l.integer? = some a)
    (hr : r.integer? = some n) :
    (∀ (op : ShiftOp) (e : EvalError),
      op.toBinaryOp.apply l r = .error e ↔ n.toInt < 0 ∧ e = .negativeShift n)
    ∧ (0 ≤ n.toInt →
        (∃ k : Int64, BinaryOp.shr.apply l r = .ok (.int k)
          ∧ k.toInt = ⌊(a.toInt : ℚ) / 2 ^ n.toInt.toNat⌋)
        ∧ (∃ k : Int64, BinaryOp.shl.apply l r = .ok (.int k)
          ∧ k.toInt ≡ a.toInt * 2 ^ n.toInt.toNat [ZMOD 2 ^ 64])
        ∧ ∀ (op : ShiftOp) (second sum : Value) (m s : Int64), second.integer? = some m →
            sum.integer? = some s → 0 ≤ m.toInt → s.toInt = n.toInt + m.toInt →
            ((op.toBinaryOp.apply l r).bind fun shifted => op.toBinaryOp.apply shifted second)
              = op.toBinaryOp.apply l sum) := by
  refine ⟨fun op e => ?fails, fun hn => ⟨?right, ?left, ?sum⟩⟩
  case fails =>
    rw [op.apply_eq hl hr]
    by_cases hn : n.toInt < 0
    · rw [if_pos hn, Except.error.injEq]
      exact ⟨fun h => ⟨hn, h.symm⟩, fun h => h.2.symm⟩
    · rw [if_neg hn]
      exact ⟨fun h => (nomatch h), fun h => absurd h.1 hn⟩
  case right =>
    refine ⟨shiftRight a n.toInt.toNat, ?_, ?_⟩
    · show ShiftOp.right.toBinaryOp.apply l r = _
      rw [ShiftOp.apply_eq .right hl hr, if_neg (Int.not_lt.2 hn)]
      rfl
    · rw [toInt_shiftRight]
      exact_mod_cast (Rat.floor_intCast_div_natCast a.toInt (2 ^ n.toInt.toNat)).symm
  case left =>
    refine ⟨shiftLeft a n.toInt.toNat, ?_, toInt_shiftLeft_modEq a _⟩
    show ShiftOp.left.toBinaryOp.apply l r = _
    rw [ShiftOp.apply_eq .left hl hr, if_neg (Int.not_lt.2 hn)]
    rfl
  case sum =>
    intro op second sum m s hsecond hsum hm hs
    have hamounts : s.toInt.toNat = n.toInt.toNat + m.toInt.toNat := by omega
    have hshifted : (Value.int (op.bits a n.toInt.toNat)).integer?
        = some (op.bits a n.toInt.toNat) := rfl
    rw [op.apply_eq hl hr, if_neg (Int.not_lt.2 hn), op.apply_eq hl hsum, if_neg (by omega)]
    show op.toBinaryOp.apply (.int (op.bits a n.toInt.toNat)) second = _
    rw [op.apply_eq hshifted hsecond, if_neg (Int.not_lt.2 hm), op.bits_bits, hamounts]

/-- A shift by `2 ^ 40` bits and another one by the bit that `true` stands for are one shift; an
amount below zero is an error. -/
theorem shifts_are_unbounded_wide :
    ((Value.int (-5)).integer? = some (-5)
      ∧ (Value.int 1099511627776).integer? = some 1099511627776
      ∧ (Value.bool true).integer? = some 1
      ∧ (Value.int (-1)).integer? = some (-1))
    ∧ ((BinaryOp.shr.apply (.int (-5)) (.int 1099511627776)).bind fun shifted =>
          BinaryOp.shr.apply shifted (.bool true))
        = BinaryOp.shr.apply (.int (-5)) (.int 1099511627777)
    ∧ BinaryOp.shl.apply (.bool true) (.int (-1)) = .error (.negativeShift (-1)) := by
  refine ⟨⟨rfl, rfl, rfl, rfl⟩, ?_, ?_⟩
  · exact ((shifts_are_unbounded rfl rfl).2 (by decide)).2.2 .right (.bool true)
      (.int 1099511627777) 1 1099511627777 rfl rfl (by decide) (by decide)
  · exact ((shifts_are_unbounded rfl rfl).1 .left _).2 ⟨by decide, rfl⟩

end ExprCore
