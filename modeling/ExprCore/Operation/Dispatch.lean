import ExprCore.Operation.Arithmetic
import ExprCore.Operation.Comparison
import ExprCore.Operation.Shift

/-!
# Operators on values

Each executable operator as a function of values that are already evaluated.

## Main definitions

- `BinaryOp.apply`, `UnaryOp.apply`: the operators
- `increment`: the step of an increment or decrement, which is an addition
-/

namespace ExprCore

/-- An operator on two values. The logical operators look at the truth of both. -/
def BinaryOp.apply : BinaryOp → Value → Value → Except EvalError Value
  | add, l, r => ArithmeticOp.add.apply l r
  | sub, l, r => ArithmeticOp.sub.apply l r
  | mul, l, r => ArithmeticOp.mul.apply l r
  | div, l, r => ArithmeticOp.div.apply l r
  | eq, l, r => .ok (ComparisonOp.eq.apply l r)
  | ne, l, r => .ok (ComparisonOp.ne.apply l r)
  | lt, l, r => .ok (ComparisonOp.lt.apply l r)
  | le, l, r => .ok (ComparisonOp.le.apply l r)
  | gt, l, r => .ok (ComparisonOp.gt.apply l r)
  | ge, l, r => .ok (ComparisonOp.ge.apply l r)
  | and, l, r => .ok (.bool (l.isTruthy && r.isTruthy))
  | or, l, r => .ok (.bool (l.isTruthy || r.isTruthy))
  | shl, l, r => ShiftOp.left.apply l r
  | shr, l, r => ShiftOp.right.apply l r

/-- An operator on one value. -/
def UnaryOp.apply : UnaryOp → Value → Except EvalError Value
  | neg, v => negate v
  | plus, v => identity v

def increment (v : Value) (delta : Int64) : Except EvalError Value :=
  BinaryOp.add.apply v (.int delta)

end ExprCore
