import ExprCore.Number.Binary64
import ExprCore.Value.Basic

/-!
# Numeric views of values

Operators look at their operands as numbers, and element access looks at a value as a position.

## Main definitions

- `Number`: an integer or a double
- `Number.compare?`: the order of two numbers, absent when one of them is no number
- `Value.number?`: the number of a value; arrays have none
- `Value.position?`: the position that a value denotes inside an array
-/

namespace ExprCore

/-- A value as arithmetic sees it. -/
inductive Number where
  | int (value : Int64)
  | float (value : Float)

namespace Number

/-- The number as a double. -/
def toFloat : Number → Float
  | int n => integerToFloat n
  | float x => x

/-- The number as an integer: doubles are cut toward zero and kept within range. -/
def toInteger : Number → Int64
  | int n => n
  | float x => floatToInteger x

/-- The number as a value. -/
def toValue : Number → Value
  | int n => .int n
  | float x => .float x

end Number

/-- The order of two doubles, absent when one of them is no number. -/
def compareFloats? (a b : Float) : Option Ordering :=
  if a < b then some .lt
  else if a == b then some .eq
  else if b < a then some .gt
  else none

/-- The order of two integers. -/
def compareIntegers (a b : Int64) : Ordering := compare a.toInt b.toInt

/-- The order of two numbers. Two integers compare exactly; otherwise both compare as doubles. -/
def Number.compare? : Number → Number → Option Ordering
  | .int a, .int b => some (compareIntegers a b)
  | a, b => compareFloats? a.toFloat b.toFloat

def integerOfBool (b : Bool) : Int64 := if b then 1 else 0

namespace Value

/-- The number of a value: `null` counts as 0 and truth values as 0 and 1. -/
def number? : Value → Option Number
  | null => some (.int 0)
  | bool b => some (.int (integerOfBool b))
  | int n => some (.int n)
  | float x => some (.float x)
  | array _ => none

/-- The position that a value denotes inside an array; doubles are cut toward zero. -/
def position? : Value → Option Int64
  | int n => some n
  | float x => some (floatToInteger x)
  | bool b => some (integerOfBool b)
  | null | array _ => none

theorem number?_eq_none_iff {v : Value} : v.number? = none ↔ ∃ items, v = .array items := by
  cases v <;> simp [number?]

end Value

end ExprCore
