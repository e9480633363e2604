import ExprCore.Number.Shortest
import ExprCore.Value.Basic

/-!
# Text of values

How values are written: arrays in brackets with their elements separated by commas, doubles with
the fewest digits that read back.

## Main definitions

- `Value.text`: the text of a value
-/

namespace ExprCore

namespace Value

mutual

/-- The text of a value. -/
def text : Value → String
  | null => "null"
  | bool b => if b then "true" else "false"
  | int n => toString n.toInt
  | float x => floatText x
  | array ⟨items⟩ => "[" ++ ", ".intercalate (itemTexts items) ++ "]"

/-- The texts of values. -/
def itemTexts : List Value → List String
  | [] => []
  | v :: vs => text v :: itemTexts vs

end

instance : ToString Value := ⟨text⟩

end Value

end ExprCore
