import ExprCore.Capacity

/-!
# Slots and scope identifiers

A slot is the place of a variable in a frame. A scope identifier tells the body in which a call
was compiled.

## Main definitions

- `Slot`: the position of a variable in a frame
- `ScopeId`: the number of a function body or of the top level
-/

namespace ExprCore

/-- The position of a variable in a frame. -/
structure Slot where
  /-- The position, counted from 0. -/
  index : Nat
deriving DecidableEq, Inhabited, Repr

namespace Slot

/-- In the 32-bit form one position is reserved for the absence of a slot. -/
def isValid (s : Slot) : Bool := s.index != reservedIndex

/-- The slot, unless it is the reserved one. -/
def present? (s : Slot) : Option Slot := if s.isValid then some s else none

def describe (s : Slot) : String :=
  if s.isValid then s!"Slot({s.index})" else "Slot::INVALID"

/-- How the absence of a slot is written. -/
def describeOption : Option Slot → String
  | some s => s.describe
  | none => (Slot.mk reservedIndex).describe

end Slot

/-- The number of a function body; 0 is the top level. -/
structure ScopeId where
  index : Nat
deriving DecidableEq, Inhabited, Repr

namespace ScopeId

def root : ScopeId := ⟨0⟩

def describe (s : ScopeId) : String := s!"ScopeId({s.index})"

end ScopeId

end ExprCore
