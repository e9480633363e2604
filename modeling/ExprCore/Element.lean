import ExprCore.EvalError
import ExprCore.Value.Numeric

/-!
# Array elements

Reading an element of an array, and writing one at the end of a path of keys. A write may append
to an array at any step of its path, and where it finds `null` it makes an array.

## Main definitions

- `Key`: a position, or the end of the array
- `Value.readElement`: the element at a position
- `Value.checkPath`: whether a write along a path succeeds
- `Value.storeAt`: the value after a write along a path

## Main statements

- `getElem?_putItem_self`, `getElem?_putItem_of_ne`, `size_putItem`: what a write does to the
  elements and to the length
- `Value.storeAt_cons`: a write rewrites the element at the position of its first key
- `Value.checkPath_eq_ok_iff`: the check succeeds exactly when the write does, and
  `Value.checkPath_eq_error_iff` says that both fail with the same error
-/

namespace ExprCore

/-- Where an element is written: at a position, or behind the last element if there is none. -/
abbrev Key := Option Int64

/-- The natural number of a position inside an array of the given length. -/
def positionBelow? (length : Nat) (position : Int64) : Option Nat :=
  if 0 ≤ position.toInt ∧ position.toInt < length then some position.toInt.toNat else none

/-- The position that a key denotes in an array of the given length. The length itself is the
position of an element to be appended. -/
def writePosition (length : Nat) : Key → Except EvalError Nat
  | none => .ok length
  | some key =>
    match positionBelow? (length + 1) key with
    | some position => .ok position
    | none => .error (.indexOutOfRange key length)

/-- The elements after a write at a position; the position behind the last element appends. -/
def putItem (items : Array Value) (position : Nat) (v : Value) : Array Value :=
  if position < items.size then items.setIfInBounds position v else items.push v

section putItem

variable {items : Array Value} {position : Nat}

@[simp] theorem getElem?_putItem_self (v : Value) (h : position ≤ items.size) :
    (putItem items position v)[position]? = some v := by
  unfold putItem
  split
  · rename_i hlt
    simp [hlt]
  · rename_i hlt
    have hlast : position = items.size := by omega
    simp [hlast]

/-- A write leaves every other element as it was. -/
theorem getElem?_putItem_of_ne (v : Value) {other : Nat} (h : position ≤ items.size)
    (hne : other ≠ position) : (putItem items position v)[other]? = items[other]? := by
  unfold putItem
  split
  · rw [Array.getElem?_setIfInBounds_ne (Ne.symm hne)]
  · rw [Array.getElem?_push, if_neg (by omega)]

/-- A write behind the last element makes the array one longer, and no other write does. -/
theorem size_putItem (v : Value) (h : position ≤ items.size) :
    (putItem items position v).size
      = if position = items.size then items.size + 1 else items.size := by
  unfold putItem
  split
  · rw [if_neg (by omega), Array.size_setIfInBounds]
  · rw [if_pos (by omega), Array.size_push]

end putItem

namespace Value

/-- The element of an array at the position that a value denotes. -/
def readElement (target index : Value) : Except EvalError Value :=
  match target.items? with
  | none => .error (.cannotIndex target.typeName)
  | some items =>
    match index.position? with
    | none => .error (.invalidIndex index.typeName)
    | some position =>
      match (positionBelow? items.size position).bind (items[·]?) with
      | some v => .ok v
      | none => .error (.indexOutOfRange position items.size)

/-- The elements of a value that is about to be written into. Where there is nothing yet, there is
an empty array. -/
def openItems : Value → Except EvalError (Array Value)
  | null => .ok #[]
  | array items => .ok items
  | v => .error (.cannotIndex v.typeName)

/-- Walk along a path of keys without writing. An element that is still to be appended counts as
`null`. -/
def checkPath (place : Value) : List Key → Except EvalError Unit
  | [] => .ok ()
  | key :: keys => do
    let items ← place.openItems
    let position ← writePosition items.size key
    checkPath (items[position]?.getD .null) keys

/-- The value after writing `v` at the end of a path of keys. An element is taken out of its array
while it is rewritten. -/
def storeAt (place : Value) : List Key → Value → Except EvalError Value
  | [], v => .ok v
  | key :: keys, v => do
    let items ← place.openItems
    let position ← writePosition items.size key
    if h : position < items.size then
      let taken := items.swapAt position .null h
      let element ← storeAt taken.1 keys v
      return .array (taken.2.setIfInBounds position element)
    else
      let element ← storeAt .null keys v
      return .array (items.push element)

/-- One step of a write: the element at the position of the first key is rewritten, or made from
`null` when it is still to be appended. -/
theorem storeAt_cons (place : Value) (key : Key) (keys : List Key) (v : Value) :
    place.storeAt (key :: keys) v = do
      let items ← place.openItems
      let position ← writePosition items.size key
      let element ← (items[position]?.getD .null).storeAt keys v
      return .array (putItem items position element) := by
  rw [storeAt]
  cases place.openItems with
  | error e => rfl
  | ok items =>
    cases hp : writePosition items.size key with
    | error e => simp [bind, Except.bind, hp]
    | ok position =>
      by_cases h : position < items.size
      · simp [bind, Except.bind, hp, h, putItem, Array.setIfInBounds]
      · simp [bind, Except.bind, hp, h, putItem]

/-- A write along a path that succeeds has written along the rest of the path at the position of the
first key. -/
theorem storeAt_cons_eq_ok {place v w : Value} {key : Key} {keys : List Key}
    (h : place.storeAt (key :: keys) v = .ok w) :
    ∃ items position element, place.openItems = .ok items
      ∧ writePosition items.size key = .ok position
      ∧ (items[position]?.getD .null).storeAt keys v = .ok element
      ∧ w = .array (putItem items position element) := by
  rw [storeAt_cons] at h
  cases hitems : place.openItems with
  | error e => simp [hitems, bind, Except.bind] at h
  | ok items =>
    cases hposition : writePosition items.size key with
    | error e => simp [hitems, hposition, bind, Except.bind] at h
    | ok position =>
      cases helement : (items[position]?.getD .null).storeAt keys v with
      | error e => simp [hitems, hposition, helement, bind, Except.bind] at h
      | ok element =>
        simp only [hitems, hposition, helement, bind, Except.bind, pure, Except.pure,
          Except.ok.injEq] at h
        exact ⟨items, position, element, rfl, hposition, helement, h.symm⟩

/-- The check and the write go the same way: both succeed, or both fail with the same error. -/
theorem checkPath_eq_map_storeAt (place : Value) (keys : List Key) (v : Value) :
    place.checkPath keys = (place.storeAt keys v).map fun _ => () := by
  induction keys generalizing place with
  | nil => rfl
  | cons key keys ih =>
    rw [storeAt_cons, checkPath]
    cases place.openItems with
    | error e => rfl
    | ok items =>
      cases hp : writePosition items.size key with
      | error e => simp [bind, Except.bind, hp, Except.map]
      | ok position =>
        have hrest := ih (items[position]?.getD .null)
        simp only [bind, Except.bind, hp, hrest]
        cases (items[position]?.getD .null).storeAt keys v <;> rfl

/-- The check succeeds exactly when the write does. -/
theorem checkPath_eq_ok_iff {place : Value} {keys : List Key} (v : Value) :
    place.checkPath keys = .ok () ↔ ∃ w, place.storeAt keys v = .ok w := by
  rw [checkPath_eq_map_storeAt place keys v]
  cases place.storeAt keys v <;> simp [Except.map]

/-- The check fails with an error exactly when the write does. -/
theorem checkPath_eq_error_iff {place : Value} {keys : List Key} {e : EvalError} (v : Value) :
    place.checkPath keys = .error e ↔ place.storeAt keys v = .error e := by
  rw [checkPath_eq_map_storeAt place keys v]
  cases place.storeAt keys v <;> simp [Except.map]

end Value

end ExprCore
