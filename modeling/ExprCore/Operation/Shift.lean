import ExprCore.EvalError
import ExprCore.Value.Numeric

/-!
# Shifts

Shifts of integers by any number of bits. A left shift drops the bits that leave the integer; a
right shift fills with the sign.

## Main definitions

- `shiftLeft`, `shiftRight`: the shifts of an integer by a natural number of bits
- `ShiftOp.apply`: a shift of values
-/

namespace ExprCore

/-- The number of bits of an integer. -/
def integerBits : Nat := 64

/-- An integer shifted left. The shift of a machine integer takes the number of bits modulo its
width, so it is used below the width alone. Nothing is left of the integer once all bits have
gone. -/
def shiftLeft (value : Int64) (bits : Nat) : Int64 :=
  if bits < integerBits then value <<< Int64.ofNat bits else 0

/-- An integer shifted right. Only the sign is left once all bits have gone. -/
def shiftRight (value : Int64) (bits : Nat) : Int64 :=
  if bits < integerBits then value >>> Int64.ofNat bits
  else if value < 0 then -1 else 0

/-- The shifts. -/
inductive ShiftOp where
  | left | right
deriving DecidableEq, Repr

namespace ShiftOp

/-- A shift of an integer; an amount below zero is an error. -/
def onIntegers (op : ShiftOp) (value amount : Int64) : Except EvalError Value :=
  if amount.toInt < 0 then .error (.negativeShift amount)
  else
    match op with
    | left => .ok (.int (shiftLeft value amount.toInt.toNat))
    | right => .ok (.int (shiftRight value amount.toInt.toNat))

def operand (v : Value) : Except EvalError Int64 :=
  match v.number? with
  | some n => .ok n.toInteger
  | none => .error (.typeMismatch "int" v.typeName)

/-- A shift of values. The left operand is looked at first. -/
def apply (op : ShiftOp) (value amount : Value) : Except EvalError Value := do
  let value ← operand value
  let amount ← operand amount
  op.onIntegers value amount

end ShiftOp

end ExprCore
