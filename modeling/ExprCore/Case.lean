/-!
# Upper and lower case

Some words are recognised whatever the case of their letters. Only the letters of ASCII have a
case here; all other characters stand for themselves.

## Main definitions

- `foldCase`: a text with its capital letters made small
- `equalIgnoringCase`: whether two texts differ in nothing but the case of letters
-/

namespace ExprCore

/-- The text with every ASCII capital letter made small. -/
def foldCase (text : String) : String := String.ofList (text.toList.map Char.toLower)

/-- Whether two texts are equal once their letters have the same case. -/
def equalIgnoringCase (a b : String) : Bool := foldCase a == foldCase b

theorem equalIgnoringCase_iff {a b : String} :
    equalIgnoringCase a b = true ↔ foldCase a = foldCase b := by
  simp [equalIgnoringCase]

end ExprCore
