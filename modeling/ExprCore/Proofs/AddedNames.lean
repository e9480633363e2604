import ExprCore.Proofs.Additions
import ExprCore.Proofs.WrittenNames

/-!
# Compilation only adds names

While expressions are compiled, names keep their slots and new names get the next ones. This holds
also of a compilation that fails half-way.

## Main definitions

- `Scope.Continues`: a scope with the same names first
- `Lower.KeepsScope`: a step of compilation that only adds names, whether it succeeds or not

## Main statements

- `Scope.Continues.added`: the names that are added are those that come into sight
- `continues_compile`, `continues_compileSequence`: compilation only adds names
-/

namespace ExprCore

/-- The scope `t` has the names of `s` in the same order, and maybe more names behind them. -/
structure Scope.Continues (s t : Scope) : Prop where
  id_eq : t.id = s.id
  names : s.names.items <+: t.names.items

namespace Scope

variable {s t u : Scope}

theorem Continues.refl (s : Scope) : s.Continues s := ⟨rfl, List.prefix_refl _⟩

theorem Continues.trans (hst : s.Continues t) (htu : t.Continues u) : s.Continues u :=
  ⟨htu.id_eq.trans hst.id_eq, hst.names.trans htu.names⟩

theorem continues_define (s : Scope) (name : Name) : s.Continues (s.define name).2 := by
  cases h : s.names.number? name with
  | some i =>
    simp only [define, Numbering.insert_of_some h]
    exact .refl s
  | none =>
    simp only [define, Numbering.insert_of_none h]
    exact ⟨rfl, List.prefix_append _ _⟩

theorem Continues.slotCount_le (h : s.Continues t) : s.slotCount ≤ t.slotCount :=
  h.names.length_le

/-- A scope that continues another one keeps its slots. -/
theorem Continues.extends (h : s.Continues t) : s.Extends t := by
  intro name slot hfind
  obtain ⟨i, hi, rfl⟩ := Option.map_eq_some_iff.1 hfind
  obtain ⟨added, hadded⟩ := h.names
  have hitem : s.names.items[i]? = some name := Numbering.number?_eq_some_iff.1 hi
  have hlater : t.names.item? i = some name := by
    rw [Numbering.item?, ← hadded, List.getElem?_append_left (List.getElem?_eq_some_iff.1 hitem).1]
    exact hitem
  rw [find?, Numbering.number?_eq_some_iff.2 hlater]
  rfl

theorem mem_items_iff {name : Name} : name ∈ s.names.items ↔ s.sight name = true := by
  rw [sight, find?, Option.isSome_map, Numbering.number?, Option.isSome_iff_ne_none, Ne,
    List.idxOf?_eq_none_iff, Decidable.not_not]

/-- The names that are added are those that come into sight. -/
theorem Continues.added (h : s.Continues t) (written : List Name)
    (hsight : t.sight = s.sight.adding written) :
    ∃ added, t.names.items = s.names.items ++ added
      ∧ ∀ name, name ∈ added ↔ name ∈ written ∧ s.find? name = none := by
  obtain ⟨added, hadded⟩ := h.names
  refine ⟨added, hadded.symm, fun name => ?_⟩
  have hmem : name ∈ s.names.items ∨ name ∈ added ↔ s.sight name = true ∨ name ∈ written := by
    rw [← List.mem_append, hadded, mem_items_iff, hsight]
    simp [Sight.adding]
  have hbound : name ∈ s.names.items ↔ s.find? name ≠ none := by
    rw [mem_items_iff, sight, Option.isSome_iff_ne_none]
  -- a name stands only once in the scope, so that no added name was there before
  have hnew : name ∈ added → name ∉ s.names.items := by
    have hnodup := t.names.nodup
    rw [← hadded] at hnodup
    exact fun ha hs => (List.nodup_append.1 hnodup).2.2 name hs name ha rfl
  rw [← mem_items_iff] at hmem
  constructor
  · intro ha
    refine ⟨(hmem.1 (.inr ha)).resolve_left (hnew ha), Decidable.not_not.1 fun hne => ?_⟩
    exact hnew ha (hbound.2 hne)
  · rintro ⟨hw, hnone⟩
    exact (hmem.2 (.inr hw)).resolve_left fun hs => hbound.1 hs hnone

/-- A scope that brings no new name into sight is the same scope. -/
theorem Continues.eq_of_sight_eq (h : s.Continues t) (hsight : t.sight = s.sight) : t = s := by
  obtain ⟨added, hitems, hadded⟩ := h.added [] (by rw [hsight, Sight.adding_nil])
  have hnone : added = [] := by
    refine List.eq_nil_iff_forall_not_mem.2 fun name hname => ?_
    exact List.not_mem_nil ((hadded name).1 hname).1
  have hid := h.id_eq
  obtain ⟨id, ⟨items, nodup⟩⟩ := s
  obtain ⟨id', ⟨items', nodup'⟩⟩ := t
  subst hnone
  simp only [List.append_nil] at hitems hid
  subst hitems
  subst hid
  rfl

end Scope

theorem LowerState.continues_storeAll (s : LowerState) (additions : List Addition) :
    s.scope.Continues (s.storeAll additions).scope := by
  induction additions generalizing s with
  | nil => exact .refl s.scope
  | cons a additions ih =>
    refine Scope.Continues.trans ?_ (ih (s.store a))
    cases a with
    | name name => exact s.scope.continues_define name
    | node _ _ | list _ | slots _ => exact .refl s.scope

namespace Lower

variable {α : Type}

/-- The step only adds names to the scope, whether it succeeds or not. -/
def KeepsScope (x : Lower α) : Prop :=
  ∀ s : LowerState,
    match x s with
    | .ok _ t | .error _ t => s.scope.Continues t.scope

/-- Nothing that is stored takes the slot of a name away. -/
theorem StoresOnly.keepsScope {x : Lower α} (h : StoresOnly x) : KeepsScope x := by
  intro s
  have hx := h s
  cases hresult : x s with
  | ok a t | error e t =>
    rw [hresult] at hx
    obtain ⟨additions, rfl⟩ := hx
    exact s.continues_storeAll additions

end Lower

open Lower

theorem Compilation.continues_ofLower {root : Lower NodeId} (h : KeepsScope root) (scope : Scope) :
    scope.Continues (Compilation.ofLower scope root).scope := by
  have hroot := h ⟨scope, .empty⟩
  unfold Compilation.ofLower EStateM.run
  split at hroot <;> (rename_i hrun; rw [hrun]; exact hroot)

theorem continues_compile (names : NameTable) (scope : Scope) (root : Option Expr) :
    scope.Continues (compile names scope root).scope := by
  cases root with
  | none => exact .refl scope
  | some e => exact Compilation.continues_ofLower (storesOnly_lower names e).keepsScope scope

theorem continues_compileSequence (names : NameTable) (scope : Scope)
    (members : List (Option Expr)) :
    scope.Continues (compileSequence names scope members).scope := by
  unfold compileSequence
  split
  · exact .refl scope
  · exact Compilation.continues_ofLower (storesOnly_lowerSequence names members).keepsScope scope

end ExprCore
