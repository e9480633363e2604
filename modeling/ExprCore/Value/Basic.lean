/-!
# Values

What expressions evaluate to: nothing, truth values, 64-bit integers, doubles and arrays. The
elements of an array have the positions from 0 on. Values are copied when they are stored, so a
write to one variable never shows in another.

## Main definitions

- `Value`: the values
- `Value.typeName`: the name of a value's type in messages
- `Value.isTruthy`: the truth of a value where a condition is wanted
- `Value.same`: equality of type and content
-/

namespace ExprCore

/-- A value of the language. -/
inductive Value where
  | null
  | bool (value : Bool)
  | int (value : Int64)
  | float (value : Float)
  | array (items : Array Value)
deriving Inhabited

namespace Value

/-- The name of a value's type in messages. -/
def typeName : Value → String
  | null => "null"
  | bool _ => "bool"
  | int _ => "int"
  | float _ => "float"
  | array _ => "array"

/-- The truth of a value: `null`, `false`, zero of either type and the empty array are false. -/
def isTruthy : Value → Bool
  | null => false
  | bool b => b
  | int n => n != 0
  | float x => x != 0
  | array items => !items.isEmpty

/-- Whether a value is `null`. -/
def isNull : Value → Bool
  | null => true
  | _ => false

/-- The elements of an array. -/
def items? : Value → Option (Array Value)
  | array items => some items
  | _ => none

mutual

/-- Equality of type and content. Doubles are equal as numbers: the zeros of both signs are, and
what is no number differs from itself. -/
def same : Value → Value → Bool
  | null, null => true
  | bool a, bool b => a == b
  | int a, int b => a == b
  | float a, float b => a == b
  | array ⟨as⟩, array ⟨bs⟩ => sameItems as bs
  | _, _ => false

/-- Equality of two lists element by element. -/
def sameItems : List Value → List Value → Bool
  | [], [] => true
  | a :: as, b :: bs => same a b && sameItems as bs
  | _, _ => false

end

instance : BEq Value := ⟨same⟩

end Value

end ExprCore
