import ExprCore.Numbering
import Mathlib.Data.Finset.Card

/-!
# Numbers in order of first appearance

Items are inserted into a numbering one after another. Whatever is inserted later, an item keeps its
number. In a numbering that was empty at first, the number of an item is how many different items
were inserted before it first was, so that the numbers in use are 0, 1, 2, … without a gap.

## Main definitions

- `Numbering.insertAll`: insertions one after another

## Main statements

- `Numbering.number?_insertAll_of_some`: numbers stay
- `Numbering.mem_insertAll`: the items that have a number
- `Numbering.size_insertAll_empty`, `Numbering.number?_insertAll_empty`: how many numbers are in
  use, and which item has which
-/

namespace ExprCore

namespace Numbering

variable {α : Type} [DecidableEq α] {t : Numbering α} {a b : α} {i : ℕ}

/-- The numbering after items have been inserted one after another. -/
def insertAll (t : Numbering α) (as : List α) : Numbering α :=
  as.foldl (fun t a => (t.insert a).2) t

theorem insertAll_append (t : Numbering α) (as bs : List α) :
    t.insertAll (as ++ bs) = (t.insertAll as).insertAll bs := List.foldl_append

theorem mem_items_iff : a ∈ t.items ↔ ∃ i, t.number? a = some i := by
  simp only [number?_eq_some_iff, item?, List.mem_iff_getElem?]

theorem number?_injective (ha : t.number? a = some i) (hb : t.number? b = some i) : a = b :=
  Option.some.inj ((number?_eq_some_iff.1 ha).symm.trans (number?_eq_some_iff.1 hb))

/-- Every number below the number of items is in use. -/
theorem exists_number?_of_lt (h : i < t.size) : ∃ a ∈ t.items, t.number? a = some i :=
  ⟨t.items[i], List.getElem_mem h, number?_eq_some_iff.2 (List.getElem?_eq_getElem h)⟩

/-- Whatever is inserted later, an item keeps its number. -/
theorem number?_insertAll_of_some (as : List α) (h : t.number? b = some i) :
    (t.insertAll as).number? b = some i := by
  induction as generalizing t with
  | nil => exact h
  | cons a as ih => exact ih (number?_insert_of_some h)

theorem size_le_size_insertAll (t : Numbering α) (as : List α) :
    t.size ≤ (t.insertAll as).size := by
  induction as generalizing t with
  | nil => exact le_rfl
  | cons a as ih => exact (size_le_size_insert t a).trans (ih _)

theorem mem_insert : b ∈ (t.insert a).2.items ↔ b ∈ t.items ∨ b = a := by
  cases h : t.number? a with
  | some i =>
    have ha : a ∈ t.items := mem_items_iff.2 ⟨i, h⟩
    rw [insert_of_some h]
    exact ⟨.inl, fun hb => hb.elim id fun hb => hb ▸ ha⟩
  | none => simp [insert_of_none h]

/-- The items that have a number are those that had one or were inserted. -/
theorem mem_insertAll (as : List α) : b ∈ (t.insertAll as).items ↔ b ∈ t.items ∨ b ∈ as := by
  induction as generalizing t with
  | nil => simp [insertAll]
  | cons a as ih =>
    rw [List.mem_cons, ← or_assoc, ← mem_insert]
    exact ih

/-- As many numbers are in use as different items were inserted. -/
theorem size_insertAll_empty (as : List α) : (empty.insertAll as).size = as.toFinset.card := by
  rw [size, ← List.toFinset_card_of_nodup (empty.insertAll as).nodup]
  congr 1
  ext a
  rw [List.mem_toFinset, List.mem_toFinset, mem_insertAll]
  exact ⟨fun h => h.resolve_left List.not_mem_nil, .inr⟩

/-- An item that is new gets the least number that is not in use. -/
theorem number?_insert_of_not_mem (h : a ∉ t.items) : (t.insert a).2.number? a = some t.size := by
  have hnew : t.number? a = none := List.idxOf?_eq_none_iff.2 h
  rw [number?_insert_self, insert_of_none hnew]

/-- The number of an item is how many different items were inserted before it first was. -/
theorem number?_insertAll_empty {as : List α} (h : a ∈ as) :
    (empty.insertAll as).number? a = some (as.takeWhile (· ≠ a)).toFinset.card := by
  obtain ⟨before, after, rfl, hfirst⟩ := List.eq_append_cons_of_mem h
  have hbefore : (before ++ a :: after).takeWhile (· ≠ a) = before := by
    have hne : ∀ b ∈ before, decide (b ≠ a) = true := fun b hb =>
      decide_eq_true fun hba => hfirst (hba ▸ hb)
    rw [List.takeWhile_append_of_pos hne, List.takeWhile_cons_of_neg (by simp), List.append_nil]
  have hnew : a ∉ (empty.insertAll before).items := by
    rw [mem_insertAll]
    exact fun hmem => hfirst (hmem.resolve_left List.not_mem_nil)
  rw [insertAll_append, hbefore, ← size_insertAll_empty]
  exact number?_insertAll_of_some after (number?_insert_of_not_mem hnew)

end Numbering

end ExprCore
