import ExprCore.Evaluation

/-!
# Histories of frames

Variables are set, unset and changed in place one after another. What a variable reads as is decided
by the last write to it alone, however the others were written and however often the frame was made
longer on the way.

A frame may also keep for every cell a state and a value side by side, where a change in place takes
the value as it is and a read looks at the state first. Such a frame is as good, because whatever is
done to it, a cell that is not set holds `null`.

## Main definitions

- `Frame.change`: a change of a variable in place
- `FrameWrite`: the writes to a frame, and `Frame.afterAll`, the frame after some of them
- `FlaggedFrame`: a frame whose cells have a state beside their value

## Main statements

- `Eval.storeAt_eq_ok_iff`: the element writes of an evaluation are changes in place
- `Frame.get?_afterAll_last`, `Frame.get?_afterAll_filter`: what decides what a variable reads as
- `FlaggedFrame.clean_afterAll`, `FlaggedFrame.frame_afterAll`: a frame with states keeps its cells
  clean, and says the same as a frame without
- `variables_keep_their_last_write`: what holds of a frame after any history
-/

namespace ExprCore

/-- Change the content of a variable in place. The variable is set afterwards. -/
def Frame.change (f : Frame) (slot : Slot) (how : Value → Value) : Frame :=
  let taken := f.takeOut slot
  taken.2.set slot (how taken.1)

theorem Frame.change_eq (f : Frame) (slot : Slot) (how : Value → Value) :
    f.change slot how = (f.set slot .null).set slot (how (f.content slot)) := by
  rw [change, takeOut_eq]

/-- A write to an element that succeeds is a change of its variable in place. -/
theorem Eval.storeAt_eq_ok_iff {slot : Slot} {keys : List Key} {v : Value} {m m' : Machine} :
    storeAt slot keys v m = .ok () m'
      ↔ ∃ how, (m.frame.content slot).storeAt keys v = .ok (how (m.frame.content slot))
        ∧ m' = ⟨m.frame.change slot how, m.calls⟩ := by
  rw [storeAt_eq]
  cases hstore : (m.frame.content slot).storeAt keys v with
  | error e => simp
  | ok array =>
    constructor
    · intro h
      cases h
      exact ⟨fun _ => array, rfl, by rw [Frame.change_eq]⟩
    · rintro ⟨how, hhow, rfl⟩
      cases hhow
      rw [Frame.change_eq]

/-- A write to a variable. -/
inductive FrameWrite where
  | set (slot : Slot) (v : Value)
  | unset (slot : Slot)
  /-- A change in place, by any function of the content. -/
  | change (slot : Slot) (how : Value → Value)

namespace FrameWrite

def slot : FrameWrite → Slot
  | set slot _ | unset slot | change slot _ => slot

def run (f : Frame) : FrameWrite → Frame
  | set slot v => f.set slot v
  | unset slot => f.unset slot
  | change slot how => f.change slot how

/-- What the variable reads as after a write, when it read as `before` until then. A change in place
starts from `null` where nothing is read. -/
def leaves (before : Option Value) : FrameWrite → Option Value
  | set _ v => some v
  | unset _ => none
  | change _ how => some (how (before.getD .null))

variable {f : Frame} {slot : Slot}

theorem get?_run_self (w : FrameWrite) (f : Frame) :
    (w.run f).get? w.slot = w.leaves (f.get? w.slot) := by
  cases w with
  | set slot v => simp [run, FrameWrite.slot, leaves, Frame.get?, Frame.set, Cell.get?]
  | unset slot => simp [run, FrameWrite.slot, leaves, Frame.get?, Frame.unset, Cell.get?]
  | change slot how =>
    simp [run, FrameWrite.slot, leaves, Frame.get?, Frame.change_eq, Frame.set, Frame.content,
      Cell.get?, Cell.content_eq_getD]

/-- A write leaves the other variables alone. -/
theorem cell_run_of_ne {w : FrameWrite} (h : w.slot ≠ slot) :
    (w.run f).cell slot = f.cell slot := by
  have hne : slot ≠ w.slot := Ne.symm h
  cases w with
  | set other v => exact Frame.cell_write_of_ne _ hne
  | unset other => exact Frame.cell_write_of_ne _ hne
  | change other how =>
    rw [run, Frame.change_eq]
    exact (Frame.cell_write_of_ne _ hne).trans (Frame.cell_write_of_ne _ hne)

theorem size_run (w : FrameWrite) (f : Frame) :
    (w.run f).size = max f.size (w.slot.index + 1) := by
  cases w with
  | set slot v => exact Frame.size_write _ _ _
  | unset slot => exact Frame.size_write _ _ _
  | change slot how =>
    rw [run, Frame.change_eq, Frame.set, Frame.size_write, Frame.set, Frame.size_write,
      Nat.max_assoc, Nat.max_self]
    rfl

end FrameWrite

namespace Frame

variable {f g : Frame} {slot : Slot} {writes : List FrameWrite}

/-- The frame after writes one after another. -/
def afterAll (f : Frame) (writes : List FrameWrite) : Frame :=
  writes.foldl FrameWrite.run f

theorem afterAll_append (f : Frame) (earlier later : List FrameWrite) :
    f.afterAll (earlier ++ later) = (f.afterAll earlier).afterAll later := List.foldl_append

/-- A variable that is not written keeps its cell, also when the frame grows over it. -/
theorem cell_afterAll_of_ne (h : ∀ w ∈ writes, w.slot ≠ slot) :
    (f.afterAll writes).cell slot = f.cell slot := by
  induction writes generalizing f with
  | nil => rfl
  | cons w writes ih =>
    rw [List.forall_mem_cons] at h
    exact (ih h.2).trans (FrameWrite.cell_run_of_ne h.1)

/-- The last write to a variable decides what it reads as. -/
theorem get?_afterAll_last (f : Frame) (earlier : List FrameWrite) (w : FrameWrite)
    {later : List FrameWrite} (h : ∀ x ∈ later, x.slot ≠ w.slot) :
    (f.afterAll (earlier ++ w :: later)).get? w.slot
      = w.leaves ((f.afterAll earlier).get? w.slot) := by
  rw [afterAll_append]
  show ((w.run (f.afterAll earlier)).afterAll later).get? w.slot = _
  rw [get?, cell_afterAll_of_ne h]
  exact w.get?_run_self _

/-- Writes to other variables do not matter, nor does it how long the frame was. -/
theorem get?_afterAll_filter (h : f.get? slot = g.get? slot) :
    (f.afterAll writes).get? slot = (g.afterAll (writes.filter (·.slot = slot))).get? slot := by
  induction writes generalizing f g with
  | nil => exact h
  | cons w writes ih =>
    by_cases hw : w.slot = slot
    · rw [List.filter_cons_of_pos (by simpa using hw)]
      refine ih ?_
      rw [← hw] at h ⊢
      rw [w.get?_run_self, w.get?_run_self, h]
    · rw [List.filter_cons_of_neg (by simpa using hw)]
      refine ih ?_
      rw [← h, get?, get?, FrameWrite.cell_run_of_ne hw]

theorem size_afterAll (f : Frame) (writes : List FrameWrite) :
    (f.afterAll writes).size = (writes.map (·.slot.index + 1)).foldl max f.size := by
  induction writes generalizing f with
  | nil => rfl
  | cons w writes ih =>
    rw [List.map_cons, List.foldl_cons, ← w.size_run]
    exact ih (w.run f)

/-- What a partial write takes out of a variable is what a read finds there, or `null`. -/
theorem takeOut_fst (f : Frame) (slot : Slot) : (f.takeOut slot).1 = (f.get? slot).getD .null := by
  rw [takeOut_eq, content, Cell.content_eq_getD, get?]

@[simp] theorem cell_ofCount (count : Nat) (slot : Slot) : (ofCount count).cell slot = .vacant := by
  simp only [cell, ofCount, Array.getElem?_replicate]
  split <;> rfl

/-- Frames of one length with the same cells are equal. -/
theorem ext_cell (hsize : f.size = g.size) (hcell : ∀ slot, f.cell slot = g.cell slot) : f = g := by
  obtain ⟨a⟩ := f
  obtain ⟨b⟩ := g
  congr 1
  refine Array.ext hsize fun n ha hb => ?_
  have hn := hcell ⟨n⟩
  simpa [cell, ha, hb] using hn

end Frame

/-- The state of a variable apart from what it holds. -/
inductive CellState where
  | vacant
  | unset
  | set
deriving DecidableEq

/-- A cell that has a value in every state. -/
structure FlaggedCell where
  state : CellState
  value : Value

namespace FlaggedCell

/-- A cell that was never written. -/
def vacant : FlaggedCell := ⟨.vacant, .null⟩

/-- A cell that is not set holds nothing of what it held before. -/
def Clean (c : FlaggedCell) : Prop := c.state ≠ .set → c.value = .null

/-- The cell without the value that its state makes void. -/
def cell : FlaggedCell → Cell
  | ⟨.vacant, _⟩ => .vacant
  | ⟨.unset, _⟩ => .unset
  | ⟨.set, v⟩ => .set v

/-- The value that a read yields. The state tells only whether there is one. -/
def get? (c : FlaggedCell) : Option Value := if c.state = .unset then none else some c.value

theorem Clean.get?_eq {c : FlaggedCell} (h : c.Clean) : c.get? = c.cell.get? := by
  obtain ⟨state, v⟩ := c
  cases state with
  | vacant => exact congrArg some (h nofun)
  | unset => rfl
  | set => rfl

/-- The value of a clean cell is what a partial write has to start from. -/
theorem Clean.value_eq {c : FlaggedCell} (h : c.Clean) : c.value = c.cell.content := by
  obtain ⟨state, v⟩ := c
  cases state with
  | vacant => exact h nofun
  | unset => exact h nofun
  | set => rfl

end FlaggedCell

/-- The cells of all variables, each with its state. -/
structure FlaggedFrame where
  cells : Array FlaggedCell

namespace FlaggedFrame

/-- The frame of `count` vacant cells. -/
def ofCount (count : Nat) : FlaggedFrame := ⟨Array.replicate count .vacant⟩

/-- The cell of a variable; slots past the end are vacant. -/
def cellAt (f : FlaggedFrame) (slot : Slot) : FlaggedCell := f.cells[slot.index]?.getD .vacant

def get? (f : FlaggedFrame) (slot : Slot) : Option Value := (f.cellAt slot).get?

/-- The frame with vacant cells added until it has one for the slot. -/
def grown (f : FlaggedFrame) (slot : Slot) : FlaggedFrame :=
  ⟨f.cells ++ Array.replicate (slot.index + 1 - f.cells.size) .vacant⟩

/-- Change the cell of a variable, which is made if the frame is too short. -/
def inCell (f : FlaggedFrame) (slot : Slot) (change : FlaggedCell → FlaggedCell) : FlaggedFrame :=
  ⟨(f.grown slot).cells.modify slot.index change⟩

end FlaggedFrame

/-- What a write does to the cell of its variable. A change in place sets the state and goes on from
the value that is there. -/
def FrameWrite.onCell (c : FlaggedCell) : FrameWrite → FlaggedCell
  | set _ v => ⟨.set, v⟩
  | unset _ => ⟨.unset, .null⟩
  | change _ how => ⟨.set, how c.value⟩

namespace FlaggedFrame

variable {f : FlaggedFrame} {slot : Slot}

def run (f : FlaggedFrame) (w : FrameWrite) : FlaggedFrame := f.inCell w.slot w.onCell

/-- The frame after writes one after another. -/
def afterAll (f : FlaggedFrame) (writes : List FrameWrite) : FlaggedFrame := writes.foldl run f

/-- The frame without the values that the states of their cells make void. -/
def frame (f : FlaggedFrame) : Frame := ⟨f.cells.map FlaggedCell.cell⟩

def Clean (f : FlaggedFrame) : Prop := ∀ slot, (f.cellAt slot).Clean

theorem size_grown (f : FlaggedFrame) (slot : Slot) :
    (f.grown slot).cells.size = max f.cells.size (slot.index + 1) := by
  simp only [grown, Array.size_append, Array.size_replicate]
  omega

@[simp] theorem cellAt_grown (f : FlaggedFrame) (slot other : Slot) :
    (f.grown slot).cellAt other = f.cellAt other := by
  simp only [cellAt, grown, Array.getElem?_append, Array.getElem?_replicate]
  by_cases h : other.index < f.cells.size
  · rw [if_pos h]
  · rw [if_neg h, Array.getElem?_eq_none (Nat.le_of_not_lt h)]
    split <;> rfl

theorem size_inCell (f : FlaggedFrame) (slot : Slot) (change : FlaggedCell → FlaggedCell) :
    (f.inCell slot change).cells.size = max f.cells.size (slot.index + 1) := by
  rw [inCell, Array.size_modify, size_grown]

@[simp] theorem cellAt_inCell_self (f : FlaggedFrame) (slot : Slot)
    (change : FlaggedCell → FlaggedCell) :
    (f.inCell slot change).cellAt slot = change (f.cellAt slot) := by
  have hlt : slot.index < (f.grown slot).cells.size := by
    rw [size_grown]
    omega
  rw [← cellAt_grown f slot slot, cellAt, inCell, Array.getElem?_modify, if_pos rfl, cellAt,
    Array.getElem?_eq_getElem hlt]
  rfl

theorem cellAt_inCell_of_ne {other : Slot} (h : other ≠ slot)
    (change : FlaggedCell → FlaggedCell) :
    (f.inCell slot change).cellAt other = f.cellAt other := by
  have hne : slot.index ≠ other.index := fun heq => h (by cases slot; cases other; simp_all)
  rw [← cellAt_grown f slot other, cellAt, inCell, Array.getElem?_modify, if_neg hne, cellAt]

@[simp] theorem cellAt_ofCount (count : Nat) (slot : Slot) :
    (ofCount count).cellAt slot = .vacant := by
  simp only [cellAt, ofCount, Array.getElem?_replicate]
  split <;> rfl

@[simp] theorem cell_frame (f : FlaggedFrame) (slot : Slot) :
    f.frame.cell slot = (f.cellAt slot).cell := by
  simp only [frame, Frame.cell, cellAt, Array.getElem?_map]
  cases f.cells[slot.index]? <;> rfl

theorem size_frame (f : FlaggedFrame) : f.frame.size = f.cells.size := Array.size_map

/-- A write keeps a clean frame clean. A variable that is unset gives up its value for this. -/
theorem Clean.run (h : f.Clean) (w : FrameWrite) : (f.run w).Clean := by
  intro slot
  by_cases hslot : slot = w.slot
  · subst hslot
    rw [FlaggedFrame.run, cellAt_inCell_self]
    cases w with
    | set _ v => exact fun hset => absurd rfl hset
    | unset _ => exact fun _ => rfl
    | change _ how => exact fun hset => absurd rfl hset
  · rw [FlaggedFrame.run, cellAt_inCell_of_ne hslot]
    exact h slot

/-- On a clean frame a write says the same with states and without. -/
theorem Clean.frame_run (h : f.Clean) (w : FrameWrite) : (f.run w).frame = w.run f.frame := by
  refine Frame.ext_cell ?_ fun slot => ?_
  · rw [w.size_run, size_frame, size_frame, FlaggedFrame.run, size_inCell]
  · by_cases hslot : slot = w.slot
    · subst hslot
      rw [cell_frame, FlaggedFrame.run, cellAt_inCell_self]
      cases w with
      | set slot v => exact (Frame.cell_write_self _ _ _).symm
      | unset slot => exact (Frame.cell_write_self _ _ _).symm
      | change slot how =>
        rw [FrameWrite.run, Frame.change_eq, Frame.set, FrameWrite.slot, Frame.cell_write_self,
          Frame.content, cell_frame, ← (h slot).value_eq]
        rfl
    · rw [cell_frame, FlaggedFrame.run, cellAt_inCell_of_ne hslot,
        FrameWrite.cell_run_of_ne (Ne.symm hslot), cell_frame]

theorem clean_afterAll (h : f.Clean) (writes : List FrameWrite) : (f.afterAll writes).Clean := by
  induction writes generalizing f with
  | nil => exact h
  | cons w writes ih => exact ih (h.run w)

theorem frame_afterAll (h : f.Clean) (writes : List FrameWrite) :
    (f.afterAll writes).frame = f.frame.afterAll writes := by
  induction writes generalizing f with
  | nil => rfl
  | cons w writes ih =>
    have hrest := ih (h.run w)
    rw [h.frame_run] at hrest
    exact hrest

theorem clean_ofCount (count : Nat) : (ofCount count).Clean := by
  intro slot
  rw [cellAt_ofCount]
  exact fun _ => rfl

theorem frame_ofCount (count : Nat) : (ofCount count).frame = .ofCount count := by
  simp [ofCount, frame, Frame.ofCount, FlaggedCell.vacant, FlaggedCell.cell]

/-- Every cell that a clean frame has is clean. -/
theorem Clean.of_mem (h : f.Clean) {c : FlaggedCell} (hc : c ∈ f.cells) : c.Clean := by
  obtain ⟨n, hn, rfl⟩ := Array.mem_iff_getElem.1 hc
  have hcell := h ⟨n⟩
  rwa [cellAt, Array.getElem?_eq_getElem hn] at hcell

end FlaggedFrame

/-- A frame of any length goes through any history of writes. A variable that was not written reads
as `null`; any other one reads as its last write has left it, undefined after it was unset. So
writes to other variables do not matter, nor does the length of the frame at first. A change in
place starts from what is read, or from `null`, and the frame is just long enough. With a state
beside each value a frame reads the same, hands out the same values to be changed, and is the same
frame once the states are merged into the cells: a cell that is not set holds `null` at all
times. -/
theorem variables_keep_their_last_write (count : Nat) (writes : List FrameWrite) :
    let f := (Frame.ofCount count).afterAll writes
    let flagged := (FlaggedFrame.ofCount count).afterAll writes
    (∀ c ∈ flagged.cells, c.state ≠ .set → c.value = .null)
      ∧ flagged.frame = f
      ∧ (∀ slot, flagged.get? slot = f.get? slot)
      ∧ (∀ slot, (∀ w ∈ writes, w.slot ≠ slot) → f.get? slot = some .null)
      ∧ (∀ earlier w later, writes = earlier ++ w :: later → (∀ x ∈ later, x.slot ≠ w.slot) →
          f.get? w.slot = w.leaves (((Frame.ofCount count).afterAll earlier).get? w.slot))
      ∧ (∀ slot other, f.get? slot
          = ((Frame.ofCount other).afterAll (writes.filter (·.slot = slot))).get? slot)
      ∧ (∀ slot, (f.takeOut slot).1 = (f.get? slot).getD .null
          ∧ (flagged.cellAt slot).value = (f.get? slot).getD .null)
      ∧ f.size = (writes.map (·.slot.index + 1)).foldl max count := by
  intro f flagged
  have hclean : flagged.Clean :=
    FlaggedFrame.clean_afterAll (FlaggedFrame.clean_ofCount count) writes
  have hframe : flagged.frame = f := by
    rw [FlaggedFrame.frame_afterAll (FlaggedFrame.clean_ofCount count), FlaggedFrame.frame_ofCount]
  refine ⟨fun c hc => hclean.of_mem hc, hframe, fun slot => ?_, fun slot hslot => ?_, ?_,
    fun slot other => ?_, fun slot => ⟨f.takeOut_fst slot, ?_⟩, ?_⟩
  · rw [← hframe, FlaggedFrame.get?, (hclean slot).get?_eq, Frame.get?, FlaggedFrame.cell_frame]
  · rw [Frame.get?, Frame.cell_afterAll_of_ne hslot, Frame.cell_ofCount]
    rfl
  · rintro earlier w later rfl hlater
    exact Frame.get?_afterAll_last _ earlier w hlater
  · refine Frame.get?_afterAll_filter ?_
    rw [Frame.get?, Frame.get?, Frame.cell_ofCount, Frame.cell_ofCount]
  · rw [(hclean slot).value_eq, ← FlaggedFrame.cell_frame, hframe, Cell.content_eq_getD, Frame.get?]
  · rw [Frame.size_afterAll]
    simp [Frame.size, Frame.ofCount]

/-- `$0` is set and unset before an array is made around its content, which is `null` by then, and
the frame of one cell grows over `$1` to hold `$2`. -/
theorem variables_keep_their_last_write_unset :
    let around (v : Value) : Value := .array #[v]
    let earlier : List FrameWrite := [.set ⟨0⟩ (.int 4), .unset ⟨0⟩]
    let later : List FrameWrite := [.set ⟨2⟩ (.bool true)]
    let f := (Frame.ofCount 1).afterAll (earlier ++ .change ⟨0⟩ around :: later)
    (∀ w ∈ later, w.slot ≠ ⟨0⟩) ∧ f.get? ⟨0⟩ = some (.array #[.null])
      ∧ (∀ w ∈ earlier ++ .change ⟨0⟩ around :: later, w.slot ≠ ⟨1⟩) ∧ f.get? ⟨1⟩ = some .null
      ∧ f.size = 3 := by
  intro around earlier later f
  obtain ⟨-, -, -, hvacant, hlast, -, -, hsize⟩ :=
    variables_keep_their_last_write 1 (earlier ++ .change ⟨0⟩ around :: later)
  have hlater : ∀ w ∈ later, w.slot ≠ ⟨0⟩ := by simp [later, FrameWrite.slot]
  have hnone : ∀ w ∈ earlier ++ .change ⟨0⟩ around :: later, w.slot ≠ ⟨1⟩ := by
    simp [earlier, later, FrameWrite.slot]
  exact ⟨hlater, hlast earlier _ later rfl hlater, hnone, hvacant ⟨1⟩ hnone, hsize⟩

end ExprCore
