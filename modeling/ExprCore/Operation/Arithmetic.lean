import ExprCore.EvalError
import ExprCore.Value.Numeric

/-!
# Arithmetic

Addition, subtraction, multiplication and division of values. Whole results that fit an integer
are integers; every other result of integers is computed on doubles. Arrays take no part.

## Main definitions

- `ArithmeticOp`: the four operations
- `ArithmeticOp.whole?`: the exact whole result of an operation on integers
- `ArithmeticOp.apply`: an operation on values
- `negate`, `identity`: the unary operations

## Main statements

- `ArithmeticOp.onIntegers_eq_int_iff`: an operation on integers yields an integer exactly when the
  exact result is a whole number in range
-/

namespace ExprCore

/-- The operations of arithmetic. -/
inductive ArithmeticOp where
  | add | sub | mul | div
deriving DecidableEq, Repr

namespace ArithmeticOp

/-- The operator that an error names. -/
def toBinaryOp : ArithmeticOp → BinaryOp
  | add => .add
  | sub => .sub
  | mul => .mul
  | div => .div

/-- The exact result on integers where it is a whole number. -/
def whole? : ArithmeticOp → Int → Int → Option Int
  | add, a, b => some (a + b)
  | sub, a, b => some (a - b)
  | mul, a, b => some (a * b)
  | div, a, b => if b ≠ 0 ∧ a % b = 0 then some (a / b) else none

/-- The operation on doubles. Division by a zero of either sign is an error. -/
def onFloats : ArithmeticOp → Float → Float → Except EvalError Value
  | add, a, b => .ok (.float (a + b))
  | sub, a, b => .ok (.float (a - b))
  | mul, a, b => .ok (.float (a * b))
  | div, a, b => if b == 0 then .error .divisionByZero else .ok (.float (a / b))

/-- The operation on integers. A result that is not whole or out of range is that on doubles. -/
def onIntegers (op : ArithmeticOp) (a b : Int64) : Except EvalError Value :=
  if op = .div ∧ b = 0 then .error .divisionByZero
  else
    match (op.whole? a.toInt b.toInt).bind integer? with
    | some n => .ok (.int n)
    | none => op.onFloats (integerToFloat a) (integerToFloat b)

def apply (op : ArithmeticOp) (left right : Value) : Except EvalError Value :=
  match left.number?, right.number? with
  | some (.int a), some (.int b) => op.onIntegers a b
  | some a, some b => op.onFloats a.toFloat b.toFloat
  | _, _ => .error (.binaryTypeMismatch op.toBinaryOp left.typeName right.typeName)

theorem onFloats_ne_int (op : ArithmeticOp) (a b : Float) (n : Int64) :
    op.onFloats a b ≠ .ok (.int n) := by
  cases op with
  | div =>
    simp only [onFloats]
    split <;> simp
  | _ => simp [onFloats]

/-- An operation on integers yields an integer exactly when the exact result is that integer. -/
theorem onIntegers_eq_int_iff {op : ArithmeticOp} {a b n : Int64} :
    op.onIntegers a b = .ok (.int n) ↔ op.whole? a.toInt b.toInt = some n.toInt := by
  have hkey : (op.whole? a.toInt b.toInt).bind integer? = some n ↔
      op.whole? a.toInt b.toInt = some n.toInt := by
    simp only [Option.bind_eq_some_iff, integer?_eq_some_iff]
    constructor
    · rintro ⟨m, hm, hnm⟩
      exact hnm ▸ hm
    · exact fun h => ⟨_, h, rfl⟩
  unfold onIntegers
  split
  · rename_i h
    obtain ⟨rfl, rfl⟩ := h
    simp [whole?]
  · split
    · rename_i m hm
      rw [← hkey, hm]
      simp
    · rename_i hm
      rw [← hkey, hm]
      simp [onFloats_ne_int]

end ArithmeticOp

/-- The number of a value with its sign changed. The least integer has no counterpart and becomes
a double. -/
def negate (v : Value) : Except EvalError Value :=
  match v.number? with
  | some (.int n) =>
    match integer? (-n.toInt) with
    | some m => .ok (.int m)
    | none => .ok (.float (-integerToFloat n))
  | some (.float x) => .ok (.float (-x))
  | none => .error (.invalidUnaryOp .neg v.typeName)

def identity (v : Value) : Except EvalError Value :=
  match v.number? with
  | some n => .ok n.toValue
  | none => .error (.invalidUnaryOp .plus v.typeName)

end ExprCore
