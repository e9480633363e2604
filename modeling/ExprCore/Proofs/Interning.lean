import ExprCore.Name
import ExprCore.Proofs.FirstAppearance
import Mathlib.Algebra.Group.Nat.Defs

/-!
# Interning one string after another

A table of names starts with the empty string and takes in strings one after another. As long as
there is room, every string gets a name, equal strings get equal names and different strings get
different ones. A name reads back as its string whatever is interned later, and the names in use are
numbered without a gap in order of first appearance.

## Main definitions

- `NameTable.internAll`: strings interned one after another, each with the name that it got

## Main statements

- `NameTable.internAll_of_room`: what happens in a table that has room for all the strings
- `interned_names_stay`: what holds of a table after any history
-/

namespace ExprCore

namespace NameTable

variable {t : NameTable} {s : String} {n : Name} {strings : List String}

/-- Intern strings one after another. The result lists each of them with the name that it got. -/
def internAll (t : NameTable) :
    List String → Except CapacityError (List (String × Name) × NameTable)
  | [] => .ok ([], t)
  | s :: strings => do
    let (n, t) ← t.intern s
    let (history, t) ← t.internAll strings
    return ((s, n) :: history, t)

/-- A string is interned when the table has room for it, or holds it already. -/
theorem intern_of_room (h : (t.strings.insert s).2.size ≤ 2 ^ 32) :
    t.intern s = .ok (⟨(t.strings.insert s).1⟩, ⟨(t.strings.insert s).2⟩) := by
  unfold intern
  cases hs : t.strings.number? s with
  | some i => simp only [Numbering.insert_of_some hs]
  | none =>
    have hroom : ¬ maxIndex < t.size := by
      simp only [Numbering.insert_of_none hs, Numbering.size, List.length_append,
        List.length_singleton] at h
      simp only [maxIndex, size, Numbering.size]
      omega
    exact if_neg hroom

/-- In a table with room for all the strings each of them gets its number as its name. -/
theorem internAll_of_room (h : (t.strings.insertAll strings).size ≤ 2 ^ 32) :
    ∃ history, t.internAll strings = .ok (history, ⟨t.strings.insertAll strings⟩)
      ∧ history.map Prod.fst = strings
      ∧ ∀ p ∈ history, (t.strings.insertAll strings).number? p.1 = some p.2.index := by
  induction strings generalizing t with
  | nil => exact ⟨[], rfl, rfl, by simp⟩
  | cons s strings ih =>
    have hfirst := intern_of_room ((Numbering.size_le_size_insertAll _ strings).trans h)
    obtain ⟨history, hrest, hstrings, hnumber⟩ := ih (t := ⟨(t.strings.insert s).2⟩) h
    refine ⟨(s, ⟨(t.strings.insert s).1⟩) :: history, ?_, by rw [List.map_cons, hstrings], ?_⟩
    · rw [internAll, hfirst]
      simp only [bind, Except.bind, hrest]
      rfl
    · rw [List.forall_mem_cons]
      have hown := Numbering.number?_insert_self t.strings s
      exact ⟨Numbering.number?_insertAll_of_some strings hown, hnumber⟩

/-- The name of a string reads back as the string. -/
theorem text_of_number? (h : t.strings.number? s = some n.index) : t.text n = s := by
  rw [text, Numbering.number?_eq_some_iff.1 h, Option.getD_some]

/-- Interning a string again changes nothing. -/
theorem intern_of_number? (h : t.strings.number? s = some n.index) : t.intern s = .ok (n, t) := by
  rw [intern, h]

/-- Beyond the names in use there is the empty text alone. -/
theorem text_of_size_le (h : t.size ≤ n.index) : t.text n = "" := by
  rw [text, Numbering.item?, List.getElem?_eq_none h, Option.getD_none]

section FromEmpty

variable {history : List (String × Name)}

/-- The names of the strings that were entered are the numbers below the size. -/
theorem mem_map_snd_iff
    (hnumber : ∀ p ∈ history, (Numbering.empty.insertAll (history.map Prod.fst)).number? p.1
      = some p.2.index) :
    n ∈ history.map Prod.snd
      ↔ n.index < (Numbering.empty.insertAll (history.map Prod.fst)).size := by
  rw [List.mem_map]
  constructor
  · rintro ⟨p, hp, rfl⟩
    exact Numbering.lt_size_of_number? (hnumber p hp)
  · intro hn
    obtain ⟨s, hs, hsn⟩ := Numbering.exists_number?_of_lt hn
    rw [Numbering.mem_insertAll, List.mem_map] at hs
    obtain ⟨p, hp, rfl⟩ := hs.resolve_left List.not_mem_nil
    have hindex : p.2.index = n.index := Option.some.inj ((hnumber p hp).symm.trans hsn)
    exact ⟨p, hp, congrArg Name.mk hindex⟩

/-- The number of a string counts the different strings that came before it. -/
theorem index_eq_card {p : String × Name} (hp : p ∈ history)
    (hnumber : (Numbering.empty.insertAll (history.map Prod.fst)).number? p.1 = some p.2.index) :
    p.2.index = ((history.map Prod.fst).takeWhile (· ≠ p.1)).toFinset.card := by
  have hmem : p.1 ∈ history.map Prod.fst := List.mem_map_of_mem hp
  rw [Numbering.number?_insertAll_empty hmem] at hnumber
  exact (Option.some.inj hnumber).symm

end FromEmpty

/-- A table holds the empty string and the other strings that were interned. -/
theorem size_insertAll_new (strings : List String) :
    (new.strings.insertAll strings).size = 1 + (strings.toFinset.erase "").card := by
  have hmem : "" ∈ ("" :: strings).toFinset := by simp
  have hsize : (new.strings.insertAll strings).size = ("" :: strings).toFinset.card :=
    Numbering.size_insertAll_empty ("" :: strings)
  rw [hsize, ← Finset.card_erase_add_one hmem, List.toFinset_cons, Finset.erase_insert_eq_erase,
    Nat.add_comm]

/-- Fewer than 2³² different strings fit beside the empty one. -/
theorem room_new (h : strings.toFinset.card < 2 ^ 32) :
    (new.strings.insertAll strings).size ≤ 2 ^ 32 := by
  have hother : (strings.toFinset.erase "").card ≤ strings.toFinset.card := Finset.card_erase_le
  rw [size_insertAll_new]
  omega

end NameTable

/-- Fewer than 2³² different strings are interned in a new table. Each gets a name, and two of them
get the same name exactly when they are equal. However many more are interned after that, a name
reads back as its string, and interning the string again returns the name and changes nothing. The
names in use are the numbers below the size of the table: the empty string has the number 0, and the
number of each other string counts the different strings before its first appearance. Every name
that is not in use reads as the empty string. -/
theorem interned_names_stay (strings : List String) (h : strings.toFinset.card < 2 ^ 32) :
    ∃ history t, NameTable.new.internAll strings = .ok (history, t)
      ∧ history.map Prod.fst = strings
      ∧ (∀ p ∈ history, ∀ q ∈ history, p.2 = q.2 ↔ p.1 = q.1)
      ∧ (∀ further, (strings ++ further).toFinset.card < 2 ^ 32 →
          ∃ later u, t.internAll further = .ok (later, u)
            ∧ ∀ p ∈ history, u.text p.2 = p.1 ∧ u.intern p.1 = .ok (p.2, u))
      ∧ (∀ n, n ∈ Name.empty :: history.map Prod.snd ↔ n.index < t.size)
      ∧ (∀ p ∈ ("", Name.empty) :: history,
          p.2.index = (("" :: strings).takeWhile (· ≠ p.1)).toFinset.card)
      ∧ t.size = 1 + (strings.toFinset.erase "").card
      ∧ ∀ n, n ∉ history.map Prod.snd → t.text n = "" := by
  obtain ⟨history, hrun, rfl, hnumber⟩ := NameTable.internAll_of_room (NameTable.room_new h)
  -- the empty string is in the table as if it had been interned first
  have hnew : NameTable.new.strings.number? "" = some Name.empty.index := rfl
  have hempty := Numbering.number?_insertAll_of_some (history.map Prod.fst) hnew
  have hnumbers : ∀ p ∈ ("", Name.empty) :: history,
      (Numbering.empty.insertAll ((("", Name.empty) :: history).map Prod.fst)).number? p.1
        = some p.2.index :=
    List.forall_mem_cons.2 ⟨hempty, hnumber⟩
  refine ⟨history, _, hrun, rfl, ?_, ?_, fun n => NameTable.mem_map_snd_iff hnumbers, ?_,
    NameTable.size_insertAll_new _, ?_⟩
  · intro p hp q hq
    have hp' := hnumber p hp
    have hq' := hnumber q hq
    constructor
    · intro hname
      rw [← hname] at hq'
      exact Numbering.number?_injective hp' hq'
    · intro hstring
      rw [← hstring, hp'] at hq'
      exact congrArg Name.mk (Option.some.inj hq')
  · intro further hfurther
    have hroom := NameTable.room_new hfurther
    rw [Numbering.insertAll_append] at hroom
    obtain ⟨later, hlater, -⟩ := NameTable.internAll_of_room
      (t := ⟨NameTable.new.strings.insertAll (history.map Prod.fst)⟩) hroom
    refine ⟨later, _, hlater, fun p hp => ?_⟩
    have hkept := Numbering.number?_insertAll_of_some further (hnumber p hp)
    exact ⟨NameTable.text_of_number? hkept, NameTable.intern_of_number? hkept⟩
  · intro p hp
    exact NameTable.index_eq_card hp (hnumbers p hp)
  · intro n hn
    by_cases hn' : n = Name.empty
    · rw [hn']
      exact NameTable.text_of_number? (hnumbers ("", Name.empty) List.mem_cons_self)
    · refine NameTable.text_of_size_le (Nat.le_of_not_lt fun hlt => ?_)
      have hused := List.mem_cons.1 ((NameTable.mem_map_snd_iff hnumbers).2 hlt)
      exact hused.elim hn' hn

/-- Four strings of which one is empty and two are the same. -/
theorem interned_names_stay_repeated :
    let strings := ["a", "", "b", "a"]
    strings.toFinset.card < 2 ^ 32
      ∧ ∃ history t, NameTable.new.internAll strings = .ok (history, t)
        ∧ history.map (·.2.index) = [1, 0, 2, 1] ∧ t.size = 3 := by
  intro strings
  have hfew : strings.toFinset.card < 2 ^ 32 := by decide
  obtain ⟨history, t, hrun, hstrings, -, -, -, hindex, hsize, -⟩ := interned_names_stay strings hfew
  have hnumbers : history.map (·.2.index)
      = (history.map Prod.fst).map fun s => (("" :: strings).takeWhile (· ≠ s)).toFinset.card := by
    rw [List.map_map]
    exact List.map_congr_left fun p hp => hindex p (List.mem_cons_of_mem _ hp)
  rw [hstrings] at hnumbers
  exact ⟨hfew, history, t, hrun, hnumbers.trans (by decide), hsize.trans (by decide)⟩

end ExprCore
