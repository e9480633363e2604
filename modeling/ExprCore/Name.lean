import ExprCore.Capacity
import ExprCore.Numbering

/-!
# Names

Variable names, function names and the text of literals are kept once in a table and referred to
by number. The empty string always has the number 0.

## Main definitions

- `Name`: a reference to a string in a table
- `NameTable`: the strings in order of first appearance
- `NameTable.intern`: the name of a string, which is entered on first sight
- `NameTable.text`: the string of a name, empty for a name that was never handed out

## Main statements

- `NameTable.text_intern`: an interned string reads back
- `NameTable.text_of_intern`: interning changes the text of no name in use
-/

namespace ExprCore

/-- A reference to a string in a table of names. -/
structure Name where
  index : Nat
deriving DecidableEq, Hashable, Inhabited, Repr

namespace Name

/-- The name of the empty string. -/
def empty : Name := ⟨0⟩

def describe (n : Name) : String := s!"Name({n.index})"

end Name

/-- Distinct strings, numbered in order of first appearance. -/
structure NameTable where
  strings : Numbering String
deriving Repr

namespace NameTable

/-- The table that holds the empty string alone. -/
def new : NameTable := ⟨(Numbering.empty.insert "").2⟩

def size (t : NameTable) : Nat := t.strings.size

/-- The name of a string, if it was entered. -/
def find? (t : NameTable) (s : String) : Option Name := (t.strings.number? s).map Name.mk

/-- The name of a string together with the table that holds it. A full table takes no new
string. -/
def intern (t : NameTable) (s : String) : Except CapacityError (Name × NameTable) :=
  match t.strings.number? s with
  | some i => .ok (⟨i⟩, t)
  | none =>
    if maxIndex < t.size then .error (.tooManyNames t.size)
    else .ok (⟨(t.strings.insert s).1⟩, ⟨(t.strings.insert s).2⟩)

/-- The string of a name. A name that was never handed out has the empty text. -/
def text (t : NameTable) (n : Name) : String := (t.strings.item? n.index).getD ""

/-- When interning succeeds, it inserts the string into the numbering. -/
theorem eq_insert_of_intern {t u : NameTable} {s : String} {n : Name}
    (h : t.intern s = .ok (n, u)) :
    n.index = (t.strings.insert s).1 ∧ u.strings = (t.strings.insert s).2 := by
  unfold intern at h
  cases hs : t.strings.number? s with
  | some i =>
    rw [hs] at h
    cases h
    simp [Numbering.insert_of_some hs]
  | none =>
    rw [hs] at h
    dsimp only at h
    split at h
    · cases h
    · cases h
      exact ⟨rfl, rfl⟩

theorem text_intern {t u : NameTable} {s : String} {n : Name} (h : t.intern s = .ok (n, u)) :
    u.text n = s := by
  obtain ⟨hn, hu⟩ := eq_insert_of_intern h
  simp [text, hn, hu]

/-- Interning changes the text of no name in use. -/
theorem text_of_intern {t u : NameTable} {s : String} {n m : Name}
    (h : t.intern s = .ok (n, u)) (hm : m.index < t.size) : u.text m = t.text m := by
  obtain ⟨_, hu⟩ := eq_insert_of_intern h
  obtain ⟨r, hget⟩ : ∃ r, t.strings.item? m.index = some r :=
    ⟨_, List.getElem?_eq_getElem hm⟩
  simp [text, hu, hget, Numbering.item?_insert_of_some hget]

end NameTable

end ExprCore
