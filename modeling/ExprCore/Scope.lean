import ExprCore.Name
import ExprCore.Numbering
import ExprCore.Slot

/-!
# Scopes

A scope binds the variable names of one body to slots. Slots are handed out densely in the order
in which names are first written, and a name keeps its slot.

## Main definitions

- `Scope`: the names of a body, numbered by slot
- `Scope.find?`: the slot of a name that is bound already; used for reads
- `Scope.define`: the slot of a name, which is bound on first sight; used for writes
- `Scope.defineChecked`: the same within the limits of the 32-bit form

## Main statements

- `Scope.find?_define_self`, `Scope.find?_define_of_some`, `Scope.find?_define_of_ne`: what a
  definition does to the bindings
- `Scope.defineChecked_of_room`, `Scope.defineChecked_of_fits`: within the limits the check changes
  nothing

## Design notes

One numbering stands for both directions, from names to slots and from slots to names. A scope that
keeps an index of the slots beside the list of the names hands out the same slots
(`Scope.defineAll_numbering`).
-/

namespace ExprCore

/-- The variables of one function body or of the top level. -/
structure Scope where
  /-- The body that the scope belongs to. -/
  id : ScopeId
  /-- The names bound so far; the number of a name is its slot. -/
  names : Numbering Name
deriving Repr

namespace Scope

/-- The scope of a body in which nothing is bound yet. -/
def new (id : ScopeId) : Scope := ⟨id, .empty⟩

/-- The scope of the top level in which nothing is bound yet. -/
def root : Scope := new .root

instance : Inhabited Scope := ⟨root⟩

/-- The number of names bound so far, and so of slots handed out. -/
def slotCount (s : Scope) : Nat := s.names.size

def find? (s : Scope) (name : Name) : Option Slot := (s.names.number? name).map Slot.mk

/-- The slot of a name and the scope that binds it. A new name gets the next slot. -/
def define (s : Scope) (name : Name) : Slot × Scope :=
  (⟨(s.names.insert name).1⟩, ⟨s.id, (s.names.insert name).2⟩)

/-- The slot of a name and the scope that binds it, unless there is no slot left for a new name. -/
def defineChecked (s : Scope) (name : Name) : Except CapacityError (Slot × Scope) :=
  match s.find? name with
  | some slot => .ok (slot, s)
  | none =>
    if maxIndex < s.slotCount then .error (.tooManyVariables s.slotCount) else .ok (s.define name)

@[simp] theorem id_define (s : Scope) (name : Name) : (s.define name).2.id = s.id := rfl

@[simp] theorem find?_define_self (s : Scope) (name : Name) :
    (s.define name).2.find? name = some (s.define name).1 := by
  simp [find?, define]

/-- A definition keeps the slot of every name that is bound. -/
theorem find?_define_of_some {s : Scope} {name other : Name} {slot : Slot}
    (h : s.find? other = some slot) : (s.define name).2.find? other = some slot := by
  obtain ⟨i, hi, rfl⟩ := Option.map_eq_some_iff.1 h
  simp [find?, define, Numbering.number?_insert_of_some hi]

/-- A definition binds no name but its own. -/
theorem find?_define_of_ne {s : Scope} {name other : Name} (h : other ≠ name) :
    (s.define name).2.find? other = s.find? other := by
  simp [find?, define, Numbering.number?_insert_of_ne h]

/-- Defining a bound name changes nothing. -/
theorem define_of_find? {s : Scope} {name : Name} {slot : Slot} (h : s.find? name = some slot) :
    s.define name = (slot, s) := by
  obtain ⟨i, hi, rfl⟩ := Option.map_eq_some_iff.1 h
  simp [define, Numbering.insert_of_some hi]

theorem defineChecked_of_find? {s : Scope} {name : Name} {slot : Slot}
    (h : s.find? name = some slot) : s.defineChecked name = .ok (slot, s) := by
  unfold defineChecked
  rw [h]

/-- Within the limits the check changes nothing. -/
theorem defineChecked_of_room {s : Scope} (name : Name) (h : s.slotCount ≤ maxIndex) :
    s.defineChecked name = .ok (s.define name) := by
  cases hname : s.find? name with
  | some slot => rw [defineChecked_of_find? hname, define_of_find? hname]
  | none =>
    unfold defineChecked
    rw [hname]
    exact if_neg (Nat.not_lt.2 h)

/-- A new name takes one more slot, and a bound name takes none. -/
theorem defineChecked_of_fits {s : Scope} {name : Name}
    (h : (s.define name).2.slotCount ≤ maxIndex + 1) :
    s.defineChecked name = .ok (s.define name) := by
  cases hname : s.find? name with
  | some slot => rw [defineChecked_of_find? hname, define_of_find? hname]
  | none =>
    refine defineChecked_of_room name (Nat.le_of_lt_succ ?_)
    have hnumber : s.names.number? name = none := Option.map_eq_none_iff.1 hname
    have hsize : (s.define name).2.slotCount = s.slotCount + 1 := by
      rw [define, Numbering.insert_of_none hnumber]
      exact List.length_append
    rwa [hsize] at h

/-- Every slot of a bound name lies below the slot count. -/
theorem index_lt_slotCount {s : Scope} {name : Name} {slot : Slot}
    (h : s.find? name = some slot) : slot.index < s.slotCount := by
  obtain ⟨i, hi, rfl⟩ := Option.map_eq_some_iff.1 h
  exact Numbering.lt_size_of_number? hi

/-- Two names never share a slot. -/
theorem find?_injective {s : Scope} {a b : Name} {slot : Slot} (ha : s.find? a = some slot)
    (hb : s.find? b = some slot) : a = b := by
  obtain ⟨i, hi, rfl⟩ := Option.map_eq_some_iff.1 ha
  obtain ⟨j, hj, hji⟩ := Option.map_eq_some_iff.1 hb
  cases hji
  have := (Numbering.number?_eq_some_iff.1 hi).symm.trans (Numbering.number?_eq_some_iff.1 hj)
  exact Option.some.inj this

end Scope

end ExprCore
