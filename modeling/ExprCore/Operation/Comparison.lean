import ExprCore.Value.Numeric

/-!
# Comparison

The loose order of values behind all comparison operators. Beside `null` or a truth value both
sides count as conditions; numbers compare as numbers; arrays compare by length and then element
by element, and an array is greater than any number.

## Main definitions

- `Value.compare?`: the order of two values, absent when something that is no number decides
- `ComparisonOp`: the six comparisons, and `ComparisonOp.holds` for the orders that satisfy them

## Main statements

- `Value.compare?_of_condition`: beside a condition only truth counts
-/

namespace ExprCore

/-- The order of two conditions: false comes before true. -/
def compareTruth (a b : Bool) : Ordering := compare a.toNat b.toNat

namespace Value

/-- Whether a value makes a comparison one of conditions. -/
def isCondition : Value → Bool
  | null | bool _ => true
  | _ => false

mutual

/-- The loose order of two values. -/
def compare? : Value → Value → Option Ordering
  | null, b => some (compareTruth false b.isTruthy)
  | bool a, b => some (compareTruth a b.isTruthy)
  | a, null => some (compareTruth a.isTruthy false)
  | a, bool b => some (compareTruth a.isTruthy b)
  | array as, array bs =>
    if as.size = bs.size then
      match as, bs with
      | ⟨as⟩, ⟨bs⟩ => compareItems? as bs
    else some (compare as.size bs.size)
  | array _, _ => some .gt
  | _, array _ => some .lt
  | int a, int b => some (compareIntegers a b)
  | int a, float b => compareFloats? (integerToFloat a) b
  | float a, int b => compareFloats? a (integerToFloat b)
  | float a, float b => compareFloats? a b

/-- The order of two lists of one length: the first elements that differ decide. -/
def compareItems? : List Value → List Value → Option Ordering
  | a :: as, b :: bs =>
    match compare? a b with
    | some .eq => compareItems? as bs
    | decided => decided
  | _, _ => some .eq

end

/-- Beside a condition only truth counts. -/
theorem compare?_of_condition {a b : Value} (h : a.isCondition = true ∨ b.isCondition = true) :
    a.compare? b = some (compareTruth a.isTruthy b.isTruthy) := by
  cases a <;> cases b <;> simp_all [isCondition, compare?, isTruthy]

end Value

/-- The comparisons. -/
inductive ComparisonOp where
  | eq | ne | lt | le | gt | ge
deriving DecidableEq, Repr

namespace ComparisonOp

/-- Whether a comparison holds for two values in the given order. Of values without an order only
`!=` holds. -/
def holds : ComparisonOp → Option Ordering → Bool
  | eq, order => order == some .eq
  | ne, order => order != some .eq
  | lt, order => order == some .lt
  | le, order => order == some .lt || order == some .eq
  | gt, order => order == some .gt
  | ge, order => order == some .gt || order == some .eq

def apply (op : ComparisonOp) (left right : Value) : Value :=
  .bool (op.holds (left.compare? right))

end ComparisonOp

end ExprCore
