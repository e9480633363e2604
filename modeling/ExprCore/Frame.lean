import ExprCore.Slot
import ExprCore.Value.Basic

/-!
# Frames

The storage of the variables during an evaluation. A frame has a cell for every slot: cells that
were never written read as `null`, cells that were unset are undefined. A write past the end makes
the frame longer.

## Main definitions

- `Cell`: the state of one variable
- `Frame`: the cells by slot
- `Frame.get?`: the value of a variable, absent once it was unset
- `Frame.content`: the value of a variable that is about to be written
- `Frame.set`, `Frame.unset`: writes
- `Frame.takeOut`: the first half of a partial write

## Main statements

- `Frame.cell_write_self`, `Frame.cell_write_of_ne`, `Frame.size_write`: what a write does to the
  cells and to the length
- `Frame.takeOut_eq`: taking out reads the content and stores `null`
-/

namespace ExprCore

/-- The state of one variable. -/
inductive Cell where
  /-- Never written. -/
  | vacant
  /-- Cleared on purpose. -/
  | unset
  | set (value : Value)
deriving Inhabited

namespace Cell

/-- The value that a read yields. A cleared cell yields none. -/
def get? : Cell → Option Value
  | vacant => some .null
  | unset => none
  | set value => some value

/-- The value that a partial write starts from. -/
def content : Cell → Value
  | set value => value
  | vacant | unset => .null

/-- Equality of state and of the value held. -/
def same : Cell → Cell → Bool
  | vacant, vacant | unset, unset => true
  | set a, set b => a == b
  | _, _ => false

theorem content_eq_getD (c : Cell) : c.content = c.get?.getD .null := by
  cases c <;> rfl

end Cell

/-- The cells of all variables; slots past the end are vacant. -/
structure Frame where
  cells : Array Cell

namespace Frame

/-- The frame without cells. -/
def empty : Frame := ⟨#[]⟩

/-- The frame of `count` vacant cells. -/
def ofCount (count : Nat) : Frame := ⟨Array.replicate count .vacant⟩

def size (f : Frame) : Nat := f.cells.size

/-- The state of a variable. -/
def cell (f : Frame) (slot : Slot) : Cell := f.cells[slot.index]?.getD .vacant

/-- The value of a variable, absent once it was unset. -/
def get? (f : Frame) (slot : Slot) : Option Value := (f.cell slot).get?

def content (f : Frame) (slot : Slot) : Value := (f.cell slot).content

/-- Replace the cell of a slot, with vacant cells up to it if the frame is too short. -/
def write (f : Frame) (slot : Slot) (c : Cell) : Frame :=
  if slot.index < f.size then ⟨f.cells.setIfInBounds slot.index c⟩
  else ⟨(f.cells ++ Array.replicate (slot.index - f.size) Cell.vacant).push c⟩

def set (f : Frame) (slot : Slot) (value : Value) : Frame := f.write slot (.set value)

def unset (f : Frame) (slot : Slot) : Frame := f.write slot .unset

/-- Take the content of a variable out of the frame for a partial write, which puts it back changed.
In the meantime the variable holds `null`. -/
def takeOut (f : Frame) (slot : Slot) : Value × Frame :=
  if h : slot.index < f.cells.size then
    let taken := f.cells.swapAt slot.index (.set .null) h
    (taken.1.content, ⟨taken.2⟩)
  else (.null, f.set slot .null)

/-- Equality of two frames cell by cell; their lengths count. -/
def same (f g : Frame) : Bool :=
  f.size == g.size && (List.range f.size).all fun n => (f.cell ⟨n⟩).same (g.cell ⟨n⟩)

instance : BEq Frame := ⟨same⟩

@[simp] theorem cell_write_self (f : Frame) (slot : Slot) (c : Cell) :
    (f.write slot c).cell slot = c := by
  unfold write
  split
  · rename_i h
    simp only [size] at h
    simp [cell, h]
  · rename_i h
    have hsize : (f.cells ++ Array.replicate (slot.index - f.size) Cell.vacant).size
        = slot.index := by
      simp only [Array.size_append, Array.size_replicate, size] at h ⊢
      omega
    simp only [cell, Array.getElem?_push, hsize, if_true, Option.getD_some]

/-- A write leaves every other cell as it was. -/
theorem cell_write_of_ne {f : Frame} {slot other : Slot} (c : Cell) (h : other ≠ slot) :
    (f.write slot c).cell other = f.cell other := by
  have hne : other.index ≠ slot.index := fun heq => h (by cases other; cases slot; simp_all)
  unfold write
  split
  · simp [cell, Array.getElem?_setIfInBounds_ne (Ne.symm hne)]
  · rename_i hlt
    simp only [cell, size, Array.getElem?_push, Array.getElem?_append, Array.getElem?_replicate,
      Array.size_append, Array.size_replicate] at hlt ⊢
    by_cases hin : other.index < f.cells.size
    · rw [if_neg (by omega), if_pos hin]
    · rw [if_neg (by omega), if_neg hin]
      split <;> simp [Array.getElem?_eq_none (Nat.le_of_not_lt hin)]

/-- A write makes the frame just long enough and never shorter. -/
theorem size_write (f : Frame) (slot : Slot) (c : Cell) :
    (f.write slot c).size = max f.size (slot.index + 1) := by
  unfold write
  split <;> simp [size] at * <;> omega

theorem takeOut_eq (f : Frame) (slot : Slot) :
    f.takeOut slot = (f.content slot, f.set slot .null) := by
  unfold takeOut
  split
  · rename_i h
    simp [content, cell, set, write, size, h, Array.setIfInBounds]
  · rename_i h
    have hvacant : f.content slot = .null := by
      simp [content, cell, Array.getElem?_eq_none (Nat.le_of_not_lt h), Cell.content]
    rw [hvacant]

end Frame

end ExprCore
