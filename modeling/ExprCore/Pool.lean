import ExprCore.Capacity

/-!
# Pooled lists

A pool keeps many lists in one array. A list is stored as a segment: where it starts and how many
entries it has. The empty list takes no room and always has the segment at the very start.

## Main definitions

- `Segment`: the place of a list in a pool
- `Pool.add`: store a list and return its segment
- `Pool.addChecked`: the same within the limits of the 32-bit form
- `Pool.read`: the list that a segment stands for

## Main statements

- `Pool.read_add`: a stored list reads back
- `Pool.read_add_of_within`: storing a list leaves every segment inside the pool as it was
-/

namespace ExprCore

/-- The place of a list in a pool: its first position and its number of entries. -/
structure Segment where
  /-- The position of the first entry. -/
  start : Nat
  length : Nat
deriving DecidableEq, Repr

namespace Segment

/-- The segment of the empty list. -/
def empty : Segment := ⟨0, 0⟩

/-- The position just past the last entry. -/
def stop (r : Segment) : Nat := r.start + r.length

end Segment

/-- Many lists kept one after the other in a single array. -/
structure Pool (α : Type) where
  entries : Array α
deriving Repr

namespace Pool

variable {α : Type}

/-- The pool that holds no list. -/
def empty : Pool α := ⟨#[]⟩

def size (p : Pool α) : Nat := p.entries.size

/-- Store a list at the end of the pool. The empty list takes no room. -/
def add (p : Pool α) (items : List α) : Segment × Pool α :=
  if items.isEmpty then (.empty, p)
  else (⟨p.size, items.length⟩, ⟨p.entries ++ items⟩)

/-- Store a list unless the pool or the list has outgrown its limit. The empty list is stored
without looking at the room left. -/
def addChecked (pool list : String) (p : Pool α) (items : List α) :
    Except CapacityError (Segment × Pool α) :=
  if items.isEmpty then .ok (.empty, p)
  else do
    checkEntries pool p.size
    checkListLength list items.length
    return p.add items

/-- The list that a segment stands for. -/
def read (p : Pool α) (r : Segment) : List α :=
  (p.entries.extract r.start r.stop).toList

/-- A segment lies within the pool when all its positions do. -/
def Within (p : Pool α) (r : Segment) : Prop := r.stop ≤ p.size

theorem read_eq (p : Pool α) (r : Segment) :
    p.read r = (p.entries.toList.drop r.start).take r.length := by
  simp [read, Segment.stop, List.extract_eq_take_drop]

@[simp] theorem add_nil (p : Pool α) : p.add [] = (.empty, p) := rfl

@[simp] theorem read_empty (p : Pool α) : p.read .empty = [] := by
  simp [read_eq, Segment.empty]

theorem read_add (p : Pool α) (items : List α) :
    (p.add items).2.read (p.add items).1 = items := by
  cases items with
  | nil => simp
  | cons a as => simp [add, read_eq, size]

/-- Within the limits every list is stored. -/
theorem addChecked_of_room {pool list : String} {p : Pool α} {items : List α}
    (hsize : p.size ≤ maxIndex) (hlength : items.length ≤ maxListLength) :
    p.addChecked pool list items = .ok (p.add items) := by
  cases items with
  | nil => rfl
  | cons a as =>
    have hpool : checkEntries pool p.size = .ok () := checkEntries_eq_ok_iff.2 hsize
    have hlist : checkListLength list (a :: as).length = .ok () :=
      checkListLength_eq_ok_iff.2 hlength
    simp only [addChecked, List.isEmpty_cons, Bool.false_eq_true, if_false, hpool, hlist, bind,
      Except.bind, pure, Except.pure]

/-- Storing a list leaves the lists stored earlier as they were. -/
theorem read_add_of_within {p : Pool α} {r : Segment} (items : List α) (h : p.Within r) :
    (p.add items).2.read r = p.read r := by
  cases items with
  | nil => rfl
  | cons a as =>
    have hlen : r.start + r.length ≤ p.entries.toList.length := by
      simpa [Within, Segment.stop, size] using h
    simp only [add, List.isEmpty_cons, Bool.false_eq_true, if_false, read_eq,
      Array.toList_appendList]
    rw [List.drop_append_of_le_length (by omega),
      List.take_append_of_le_length (by rw [List.length_drop]; omega)]

/-- Storing a list adds as many entries as the list has. -/
theorem size_add (p : Pool α) (items : List α) :
    (p.add items).2.size = p.size + items.length := by
  cases items with
  | nil => rfl
  | cons a as =>
    simp only [add, List.isEmpty_cons, Bool.false_eq_true, if_false, size, ← Array.length_toList,
      Array.toList_appendList, List.length_append]

/-- The segment of a stored list lies within the pool. -/
theorem within_add (p : Pool α) (items : List α) : (p.add items).2.Within (p.add items).1 := by
  rw [Within, size_add]
  cases items with
  | nil => exact Nat.zero_le _
  | cons a as => exact Nat.le_refl _

end Pool

end ExprCore
