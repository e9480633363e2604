/-!
# Source spans

Half-open ranges of byte offsets into a source text. Offsets are 32-bit numbers; a range whose
bounds do not fit is refused, and a length that would run past the last offset is cut there.

## Main definitions

- `Span`: a range `start..stop`, with `Span.dummy` for constructs that have no position
- `Span.merge`: the least span that covers two others
- `Span.ofRange?`: a span from unbounded positions, or the bound that is too large
- `Located`: an item together with its span
-/

namespace ExprCore

/-- The largest offset that a span can hold. -/
def maxOffset : Nat := 4294967295

/-- A half-open range of byte offsets. The end may lie before the start; such a span is empty. -/
structure Span where
  /-- The first offset of the range. -/
  start : Nat
  /-- The offset just past the range. -/
  stop : Nat
deriving DecidableEq, Inhabited, Repr

/-- Why a pair of positions is no span. -/
inductive SpanError where
  /-- The start is larger than every offset. -/
  | startTooLarge (position : Nat)
  /-- The end is larger than every offset. -/
  | stopTooLarge (position : Nat)
deriving DecidableEq, Repr

namespace SpanError

/-- The text of the error, with the offending position and the largest offset. -/
def message : SpanError → String
  | .startTooLarge position => s!"span start {position} exceeds u32::MAX ({maxOffset})"
  | .stopTooLarge position => s!"span end {position} exceeds u32::MAX ({maxOffset})"

end SpanError

namespace Span

/-- The span of a construct that stands nowhere in the source. -/
def dummy : Span := ⟨0, 0⟩

/-- The span of `length` bytes from `start`, cut at the largest offset. -/
def ofStartLength (start length : Nat) : Span := ⟨start, min (start + length) maxOffset⟩

/-- The span between two positions of any size. The start is looked at first. -/
def ofRange? (start stop : Nat) : Except SpanError Span :=
  if maxOffset < start then .error (.startTooLarge start)
  else if maxOffset < stop then .error (.stopTooLarge stop)
  else .ok ⟨start, stop⟩

def length (s : Span) : Nat := s.stop - s.start

/-- Whether the span holds no byte. -/
def isEmpty (s : Span) : Bool := decide (s.stop ≤ s.start)

/-- Whether the span records no position. -/
def isDummy (s : Span) : Bool := s == dummy

def contains (s : Span) (offset : Nat) : Bool := decide (s.start ≤ offset ∧ offset < s.stop)

/-- The least span that covers both spans. -/
def merge (s t : Span) : Span := ⟨min s.start t.start, max s.stop t.stop⟩

/-- A span is written `start..end`. -/
def text (s : Span) : String := s!"{s.start}..{s.stop}"

instance : ToString Span := ⟨text⟩

@[simp] theorem isDummy_iff {s : Span} : s.isDummy = true ↔ s = dummy := by
  simp [isDummy]

theorem contains_iff {s : Span} {offset : Nat} :
    s.contains offset = true ↔ s.start ≤ offset ∧ offset < s.stop := by
  simp [contains]

theorem isEmpty_iff_length_eq_zero {s : Span} : s.isEmpty = true ↔ s.length = 0 := by
  simp [isEmpty, length]
  omega

theorem merge_comm (s t : Span) : s.merge t = t.merge s := by
  simp [merge, Nat.min_comm, Nat.max_comm]

/-- Merging loses no offset of the first span, hence none of the second. -/
theorem contains_merge_of_contains {s t : Span} {offset : Nat}
    (h : s.contains offset = true) : (s.merge t).contains offset = true := by
  rw [contains_iff] at h ⊢
  simp only [merge]
  omega

end Span

/-- An item together with the place in the source that it comes from. -/
structure Located (α : Type) where
  item : α
  span : Span
deriving DecidableEq, Repr

end ExprCore
