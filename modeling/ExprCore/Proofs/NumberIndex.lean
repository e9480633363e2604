import ExprCore.Proofs.Allocations
import ExprCore.Proofs.Interning
import ExprCore.Scope

/-!
# Numberings in two stores

A table that numbers things may keep two stores: the items by number, and an index of their numbers
by item. An insertion looks at the index, and a new item goes into both stores. Two stores that are
in step stand for one numbering, so that scopes and tables of names can be kept either way: they
hand out the same slots and names, and they refuse the same ones.

## Main definitions

- `NumberIndex`: the two stores, which say the same
- `NumberIndex.insert`, `NumberIndex.insertChecked`: insertions, without limits and within them
- `NumberIndex.numbering`: the numbering that two stores stand for

## Main statements

- `NumberIndex.insert_numbering`, `NumberIndex.insertAll_numbering`: insertions into two stores are
  insertions into their numbering
- `NumberIndex.exists_numbering_eq`: every numbering can be kept in two stores
- `NameTable.internAll_numbering`, `Scope.defineAll_numbering`: names and slots handed out by two
  stores one after another
-/

namespace ExprCore

/-- The items by number, and an index of their numbers. -/
structure NumberIndex (α : Type) [DecidableEq α] [Hashable α] where
  numbers : Std.HashMap α ℕ
  items : Array α
  /-- Both stores say the same. -/
  inStep : ∀ (a : α) (i : ℕ), numbers[a]? = some i ↔ items[i]? = some a

theorem Numbering.eq_of_items_eq {α : Type} {t u : Numbering α} (h : t.items = u.items) :
    t = u := by
  cases t
  cases u
  cases h
  rfl

/-- Different items that are new are put behind the others. -/
theorem Numbering.items_insertAll_of_nodup {α : Type} [DecidableEq α] {t : Numbering α}
    {as : List α} (h : (t.items ++ as).Nodup) : (t.insertAll as).items = t.items ++ as := by
  induction as generalizing t with
  | nil => exact (List.append_nil _).symm
  | cons a as ih =>
    have hnew : t.number? a = none :=
      List.idxOf?_eq_none_iff.2 fun ha => (List.nodup_append.1 h).2.2 a ha a List.mem_cons_self rfl
    have hinsert : (t.insert a).2.items = t.items ++ [a] := by rw [insert_of_none hnew]
    rw [List.append_cons, ← hinsert] at h ⊢
    exact ih h

namespace NumberIndex

variable {α : Type} [DecidableEq α] [Hashable α] {a : α}

/-- The two stores without items. -/
def empty : NumberIndex α := ⟨∅, #[], fun a i => by simp⟩

theorem inStep_insert {x : NumberIndex α} (h : x.numbers[a]? = none) (b : α) (i : ℕ) :
    (x.numbers.insert a x.items.size)[b]? = some i ↔ (x.items.push a)[i]? = some b := by
  rw [Std.HashMap.getElem?_insert, Array.getElem?_push]
  have hold := x.inStep b i
  by_cases hab : a = b
  · subst hab
    -- the item was nowhere, so its number is the new one
    rw [h] at hold
    rw [if_pos (beq_self_eq_true a), Option.some_inj]
    by_cases hi : i = x.items.size
    · rw [if_pos hi]
      exact iff_of_true hi.symm rfl
    · rw [if_neg hi, ← hold]
      exact iff_of_false (Ne.symm hi) nofun
  · rw [if_neg fun hbeq => hab (eq_of_beq hbeq), hold]
    by_cases hi : i = x.items.size
    · rw [if_pos hi, hi, Array.getElem?_eq_none le_rfl]
      exact iff_of_false nofun fun hsame => hab (Option.some.inj hsame)
    · rw [if_neg hi]

/-- The number of an item and the stores in which it has that number. A new item goes into both. -/
def insert (x : NumberIndex α) (a : α) : ℕ × NumberIndex α :=
  match h : x.numbers[a]? with
  | some i => (i, x)
  | none =>
    (x.items.size, ⟨x.numbers.insert a x.items.size, x.items.push a, inStep_insert h⟩)

/-- The same within the limits of the 32-bit form. -/
def insertChecked (full : ℕ → CapacityError) (x : NumberIndex α) (a : α) :
    Except CapacityError (ℕ × NumberIndex α) :=
  match x.numbers[a]? with
  | some i => .ok (i, x)
  | none => if maxIndex < x.items.size then .error (full x.items.size) else .ok (x.insert a)

/-- The stores after items have been inserted one after another. -/
def insertAll (x : NumberIndex α) (as : List α) : NumberIndex α :=
  as.foldl (fun x a => (x.insert a).2) x

/-- No item has two numbers, since the index holds one number for it. -/
theorem nodup_items (x : NumberIndex α) : x.items.toList.Nodup := by
  rw [List.nodup_iff_getElem?_ne_getElem?]
  intro i j hij hj heq
  have hitem : x.items[j]? = some x.items.toList[j] := by
    rw [← Array.getElem?_toList, List.getElem?_eq_getElem hj]
  rw [Array.getElem?_toList, Array.getElem?_toList, hitem] at heq
  have hnumber := (x.inStep _ j).2 hitem
  rw [(x.inStep _ i).2 heq] at hnumber
  exact Nat.ne_of_lt hij (Option.some.inj hnumber)

/-- The numbering that the two stores stand for. -/
def numbering (x : NumberIndex α) : Numbering α := ⟨x.items.toList, x.nodup_items⟩

/-- The index holds the numbers of the items. -/
theorem getElem?_numbers (x : NumberIndex α) (a : α) : x.numbers[a]? = x.numbering.number? a := by
  refine Option.ext fun i => ?_
  rw [x.inStep, Numbering.number?_eq_some_iff, Numbering.item?, numbering, Array.getElem?_toList]

theorem insertChecked_of_some {x : NumberIndex α} {full : ℕ → CapacityError} {i : ℕ}
    (h : x.numbers[a]? = some i) : x.insertChecked full a = .ok (i, x) := by
  unfold insertChecked
  rw [h]

theorem insertChecked_of_none {x : NumberIndex α} {full : ℕ → CapacityError}
    (h : x.numbers[a]? = none) :
    x.insertChecked full a =
      if maxIndex < x.items.size then .error (full x.items.size) else .ok (x.insert a) := by
  unfold insertChecked
  rw [h]

@[simp] theorem numbering_empty : (empty : NumberIndex α).numbering = .empty := rfl

/-- An insertion into two stores is one into their numbering. -/
theorem insert_numbering (x : NumberIndex α) (a : α) :
    x.numbering.insert a = ((x.insert a).1, (x.insert a).2.numbering) := by
  have hnumber := x.getElem?_numbers a
  unfold insert
  split
  · rename_i i h
    rw [Numbering.insert_of_some (hnumber.symm.trans h)]
  · rename_i h
    rw [Numbering.insert_of_none (hnumber.symm.trans h)]
    simp [numbering, Numbering.size]

theorem insertAll_numbering (x : NumberIndex α) (as : List α) :
    x.numbering.insertAll as = (x.insertAll as).numbering := by
  induction as generalizing x with
  | nil => rfl
  | cons a as ih =>
    have hfirst : (x.numbering.insert a).2 = (x.insert a).2.numbering := by
      rw [insert_numbering]
    show ((x.numbering.insert a).2).insertAll as = ((x.insert a).2.insertAll as).numbering
    rw [hfirst, ih]

/-- Every numbering can be kept in two stores. -/
theorem exists_numbering_eq (t : Numbering α) : ∃ x : NumberIndex α, x.numbering = t := by
  refine ⟨empty.insertAll t.items, ?_⟩
  have hitems : ((Numbering.empty : Numbering α).insertAll t.items).items = t.items :=
    Numbering.items_insertAll_of_nodup (t := .empty) t.nodup
  rw [← insertAll_numbering, numbering_empty]
  exact Numbering.eq_of_items_eq hitems

end NumberIndex

/-- What one step does through a view of the state, a run of steps does. -/
theorem allocateAll_map {σ τ ρ π κ : Type} {f : σ → ρ → Except CapacityError (π × σ)}
    {g : τ → ρ → Except CapacityError (κ × τ)} {p : κ → π} {q : τ → σ}
    (hstep : ∀ t request, f (q t) request = (g t request).map (Prod.map p q)) (t : τ)
    (requests : List ρ) :
    allocateAll f (q t) requests =
      (allocateAll g t requests).map
        (Prod.map (List.map fun placed => (placed.1, p placed.2)) q) := by
  induction requests generalizing t with
  | nil => rfl
  | cons request requests ih =>
    simp only [allocateAll, hstep]
    cases g t request with
    | error e => rfl
    | ok placed =>
      simp only [Except.map, Prod.map, bind, Except.bind, ih]
      cases allocateAll g placed.2 requests <;> rfl

namespace NameTable

variable (x : NumberIndex String)

theorem text_numbering (n : Name) : (mk x.numbering).text n = x.items[n.index]?.getD "" := by
  rw [text, Numbering.item?, NumberIndex.numbering, Array.getElem?_toList]

theorem intern_numbering (s : String) :
    (mk x.numbering).intern s = (x.insertChecked .tooManyNames s).map
      (Prod.map Name.mk fun y => ⟨y.numbering⟩) := by
  unfold intern
  rw [← x.getElem?_numbers]
  cases hs : x.numbers[s]? with
  | some i =>
    rw [NumberIndex.insertChecked_of_some hs]
    rfl
  | none =>
    rw [NumberIndex.insertChecked_of_none hs, NumberIndex.insert_numbering]
    by_cases hfull : maxIndex < x.items.size
    · rw [if_pos hfull]
      exact if_pos hfull
    · rw [if_neg hfull]
      exact if_neg hfull

theorem internAll_eq_allocateAll (t : NameTable) (strings : List String) :
    t.internAll strings = allocateAll intern t strings := by
  induction strings generalizing t with
  | nil => rfl
  | cons s strings ih => simp only [internAll, allocateAll, ih]

/-- Names are handed out by two stores as by their numbering, one after another. -/
theorem internAll_numbering (strings : List String) :
    (mk x.numbering).internAll strings =
      (allocateAll (NumberIndex.insertChecked .tooManyNames) x strings).map
        (Prod.map (List.map fun placed => (placed.1, ⟨placed.2⟩)) fun y => ⟨y.numbering⟩) := by
  rw [internAll_eq_allocateAll]
  exact allocateAll_map (q := fun y => mk y.numbering) intern_numbering x strings

end NameTable

namespace Scope

variable (x : NumberIndex Name) (body : ScopeId)

theorem find?_numbering (name : Name) :
    (mk body x.numbering).find? name = x.numbers[name]?.map Slot.mk := by
  rw [find?, x.getElem?_numbers]

theorem defineChecked_numbering (name : Name) :
    (mk body x.numbering).defineChecked name = (x.insertChecked .tooManyVariables name).map
      (Prod.map Slot.mk fun y => ⟨body, y.numbering⟩) := by
  unfold defineChecked
  rw [find?_numbering]
  cases hname : x.numbers[name]? with
  | some i =>
    rw [NumberIndex.insertChecked_of_some hname]
    rfl
  | none =>
    rw [NumberIndex.insertChecked_of_none hname, define, NumberIndex.insert_numbering]
    by_cases hfull : maxIndex < x.items.size
    · rw [if_pos hfull]
      exact if_pos hfull
    · rw [if_neg hfull]
      exact if_neg hfull

/-- Slots are handed out by two stores as by their numbering, one after another. -/
theorem defineAll_numbering (names : List Name) :
    allocateAll defineChecked (mk body x.numbering) names =
      (allocateAll (NumberIndex.insertChecked .tooManyVariables) x names).map
        (Prod.map (List.map fun placed => (placed.1, ⟨placed.2⟩)) fun y => ⟨body, y.numbering⟩) :=
  allocateAll_map (q := fun y => mk body y.numbering) (defineChecked_numbering · body) x names

end Scope

end ExprCore
