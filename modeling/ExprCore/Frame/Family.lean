import ExprCore.Frame

/-!
# Families of frames

Frames that are copied from one another. A copy shares its arrays with the frame that it was made
from until either of them is written, and an array that two frames share is equal to itself. That
matters for arrays with something inside that is no number, which comparison of their elements
would tell apart from themselves.

## Main definitions

- `FrameRecord`: a frame that knows which write made each of its cells
- `FrameFamily`: the frames and the number of writes so far
- `FrameFamily.add`, `FrameFamily.copy`, `FrameFamily.set`, `FrameFamily.unset`: the operations
- `FrameRecord.same`: equality of two frames of a family

## Main statements

- `FrameRecord.same_of_frame_same`: frames that are equal by content are equal
-/

namespace ExprCore

/-- A frame with its history. -/
structure FrameRecord where
  frame : Frame
  /-- The slots written, each with the number of the write, latest first. -/
  writes : List (Slot × Nat)

namespace FrameRecord

/-- A frame that was not written. -/
def new (frame : Frame) : FrameRecord := ⟨frame, []⟩

def write? (r : FrameRecord) (slot : Slot) : Option Nat := r.writes.lookup slot

/-- The state of a variable if it holds an array. -/
def array? (r : FrameRecord) (slot : Slot) : Option (Array Value) :=
  match r.frame.cell slot with
  | .set (.array items) => some items
  | _ => none

/-- Whether two frames hold the same array in a slot. It was stored by one write. -/
def sharesArray (r t : FrameRecord) (slot : Slot) : Bool :=
  (r.array? slot).isSome && (r.write? slot).isSome && r.write? slot == t.write? slot

/-- Equality of two frames: they have the same length, and each cell is equal or is a shared
array. -/
def same (r t : FrameRecord) : Bool :=
  r.frame.size == t.frame.size && (List.range r.frame.size).all fun n =>
    (r.frame.cell ⟨n⟩).same (t.frame.cell ⟨n⟩) || r.sharesArray t ⟨n⟩

theorem same_of_frame_same {r t : FrameRecord} (h : r.frame.same t.frame = true) :
    r.same t = true := by
  simp only [Frame.same, same, Bool.and_eq_true, List.all_eq_true, Bool.or_eq_true] at h ⊢
  exact ⟨h.1, fun n hn => Or.inl (h.2 n hn)⟩

end FrameRecord

/-- Frames that are copied from one another, by number. -/
structure FrameFamily where
  members : Array FrameRecord
  writes : Nat

namespace FrameFamily

/-- The family of one frame without cells. -/
def initial : FrameFamily := ⟨#[.new .empty], 0⟩

def size (f : FrameFamily) : Nat := f.members.size

/-- Add a frame that shares nothing with the others. -/
def add (f : FrameFamily) (frame : Frame) : FrameFamily :=
  { f with members := f.members.push (.new frame) }

def copy (f : FrameFamily) (r : FrameRecord) : FrameFamily :=
  { f with members := f.members.push r }

/-- Change a cell of a frame, which is a write of its own. -/
def change (f : FrameFamily) (number : Nat) (slot : Slot) (how : Frame → Frame) : FrameFamily :=
  ⟨f.members.modify number fun r => ⟨how r.frame, (slot, f.writes) :: r.writes⟩, f.writes + 1⟩

def set (f : FrameFamily) (number : Nat) (slot : Slot) (v : Value) : FrameFamily :=
  f.change number slot (·.set slot v)

def unset (f : FrameFamily) (number : Nat) (slot : Slot) : FrameFamily :=
  f.change number slot (·.unset slot)

end FrameFamily

end ExprCore
