/-!
# Capacity limits

Positions in a store are 32-bit numbers and lists carry a 16-bit length. Storing more than that
is refused with an error that names what has grown too large.

## Main definitions

- `CapacityError`: what outgrew its limit, with `CapacityError.message` as its text
- `checkEntries`, `checkListLength`: the two tests
- `reservedIndex`: the position that stands for absence in the 32-bit form
-/

namespace ExprCore

/-- The largest position in a store. -/
def maxIndex : Nat := 4294967295

def maxListLength : Nat := 65535

/-- In the 32-bit form of a reference this position means that there is nothing to refer to. -/
def reservedIndex : Nat := 4294967295

/-- What outgrew its limit. -/
inductive CapacityError where
  /-- A store of the named things already holds `count` entries. -/
  | tooMany (what : String) (count : Nat)
  /-- A list of the named kind has `count` entries. -/
  | tooLong (what : String) (count : Nat)
  /-- A table of names already holds `count` strings. -/
  | tooManyNames (count : Nat)
  /-- A scope already binds `count` names. -/
  | tooManyVariables (count : Nat)
deriving DecidableEq, Repr

namespace CapacityError

/-- The text of the error. -/
def message : CapacityError → String
  | .tooMany what count => s!"too many {what}: {count} exceeds u32::MAX"
  | .tooLong what count => s!"{what} too long: {count} exceeds u16::MAX"
  | .tooManyNames count => s!"interner exceeded capacity: {count} strings, max is {maxIndex}"
  | .tooManyVariables count => s!"too many variables in one scope: {count}"

end CapacityError

/-- A store takes another entry as long as the entry's position fits. -/
def checkEntries (what : String) (count : Nat) : Except CapacityError Unit :=
  if maxIndex < count then .error (.tooMany what count) else .ok ()

def checkListLength (what : String) (count : Nat) : Except CapacityError Unit :=
  if maxListLength < count then .error (.tooLong what count) else .ok ()

theorem checkEntries_eq_ok_iff {what : String} {count : Nat} :
    checkEntries what count = .ok () ↔ count ≤ maxIndex := by
  unfold checkEntries
  split <;> simp <;> omega

theorem checkListLength_eq_ok_iff {what : String} {count : Nat} :
    checkListLength what count = .ok () ↔ count ≤ maxListLength := by
  unfold checkListLength
  split <;> simp <;> omega

end ExprCore
