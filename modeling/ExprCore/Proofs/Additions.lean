import ExprCore.Proofs.Relocation

/-!
# What compilation adds

Compilation changes its state only by storing one thing after another: nodes, lists and names. It
does so without looking at the limits of the 32-bit form. Since stores only grow, a state that is
within the limits was within them at every step before, so that each of these things could have
been stored with the checks, to the same effect.

## Main definitions

- `Addition`: a thing that is stored
- `LowerState.store`, `LowerState.storeAll`: the state with one thing more, or with several
- `LowerState.storeChecked`, `LowerState.storeAllChecked`: the same within the limits
- `LowerState.Fits`: a state within the limits
- `Lower.StoresOnly`: a step of compilation that does nothing but store, whether it succeeds or not
- `Compilation.StoresWithinLimits`: what this says of code and scopes that are within the limits

## Main statements

- `LowerState.storeAllChecked_of_fits`: no check refuses what leads to a state within the limits
- `Lower.storesOnly_lower`: compilation of an expression does nothing but store
- `compile_storesWithinLimits`, `compileSequence_storesWithinLimits`: the checks let through
  whatever ends in code and a scope within the limits
-/

namespace ExprCore

/-- A thing that compilation stores. -/
inductive Addition where
  | node (node : Node) (span : Span)
  | list (ids : List NodeId)
  | slots (slots : List Slot)
  | name (name : Name)

/-- How many entries the list has that is stored. -/
def Addition.listLength : Addition → Nat
  | .list ids => ids.length
  | .slots bound => bound.length
  | .node .. | .name _ => 0

/-- A list that ends within the limits has its start within them. The empty list is always
stored. -/
theorem Pool.addChecked_of_fits {α : Type} {pool list : String} {p : Pool α} {items : List α}
    (hsize : (p.add items).2.size ≤ maxIndex + 1) (hlength : items.length ≤ maxListLength) :
    p.addChecked pool list items = .ok (p.add items) := by
  cases items with
  | nil => rfl
  | cons a as =>
    refine addChecked_of_room ?_ hlength
    rw [size_add, List.length_cons] at hsize
    omega

namespace LowerState

/-- The state with one thing more. -/
def store (s : LowerState) : Addition → LowerState
  | .node node span => s.add node span
  | .list ids => s.addList ids
  | .slots slots => s.addSlots slots
  | .name name => s.define name

/-- The same unless a limit is passed. -/
def storeChecked (s : LowerState) : Addition → Except CapacityError LowerState
  | .node node span => do
    let (_, code) ← s.code.addChecked node span
    return ⟨s.scope, code⟩
  | .list ids => do
    let (_, code) ← s.code.addListChecked ids
    return ⟨s.scope, code⟩
  | .slots slots => do
    let (_, code) ← s.code.addSlotsChecked slots
    return ⟨s.scope, code⟩
  | .name name => do
    let (_, scope) ← s.scope.defineChecked name
    return ⟨scope, s.code⟩

def storeAll (s : LowerState) (additions : List Addition) : LowerState := additions.foldl store s

def storeAllChecked (s : LowerState) (additions : List Addition) :
    Except CapacityError LowerState :=
  additions.foldlM storeChecked s

/-- There are at most 2³² entries of each kind, so that each of them has a position. -/
structure Fits (s : LowerState) : Prop where
  nodes : s.code.size ≤ maxIndex + 1
  lists : s.code.lists.size ≤ maxIndex + 1
  slots : s.code.slots.size ≤ maxIndex + 1
  names : s.scope.slotCount ≤ maxIndex + 1

variable {s t : LowerState} {a : Addition} {additions : List Addition}

theorem storeAll_append (s : LowerState) (additions further : List Addition) :
    s.storeAll (additions ++ further) = (s.storeAll additions).storeAll further :=
  List.foldl_append

theorem extends_store (s : LowerState) (a : Addition) : s.Extends (s.store a) := by
  cases a with
  | node node span => exact s.extends_add node span
  | list ids => exact s.extends_addList ids
  | slots slots => exact s.extends_addSlots slots
  | name name => exact s.extends_define name

theorem slotCount_le_store (s : LowerState) (a : Addition) :
    s.scope.slotCount ≤ (s.store a).scope.slotCount := by
  cases a with
  | name name => exact Numbering.size_le_size_insert _ _
  | node _ _ | list _ | slots _ => exact Nat.le_refl _

/-- A state within the limits was within them before something was stored. -/
theorem Fits.of_store (h : (s.store a).Fits) : s.Fits where
  nodes := Nat.le_trans (s.extends_store a).code.size_le h.nodes
  lists := Nat.le_trans (s.extends_store a).code.lists.size_le h.lists
  slots := Nat.le_trans (s.extends_store a).code.slots.size_le h.slots
  names := Nat.le_trans (s.slotCount_le_store a) h.names

theorem Fits.of_storeAll (h : (s.storeAll additions).Fits) : s.Fits := by
  induction additions generalizing s with
  | nil => exact h
  | cons a additions ih => exact (ih (s := s.store a) h).of_store

theorem storeChecked_of_fits (h : (s.store a).Fits) (hlength : a.listLength ≤ maxListLength) :
    s.storeChecked a = .ok (s.store a) := by
  cases a with
  | node node span =>
    have hsize : s.code.size ≤ maxIndex := by
      have hadd := h.nodes
      rw [store, size_add] at hadd
      exact Nat.le_of_succ_le_succ hadd
    rw [storeChecked, Code.addChecked_of_room node span hsize]
    rfl
  | list ids =>
    rw [storeChecked, Code.addListChecked, Pool.addChecked_of_fits h.lists hlength]
    rfl
  | slots slots =>
    rw [storeChecked, Code.addSlotsChecked, Pool.addChecked_of_fits h.slots hlength]
    rfl
  | name name =>
    rw [storeChecked, Scope.defineChecked_of_fits h.names]
    rfl

/-- Nothing that leads to a state within the limits is refused by the checks on the way. -/
theorem storeAllChecked_of_fits (h : (s.storeAll additions).Fits)
    (hlength : ∀ a ∈ additions, a.listLength ≤ maxListLength) :
    s.storeAllChecked additions = .ok (s.storeAll additions) := by
  induction additions generalizing s with
  | nil => rfl
  | cons a additions ih =>
    have hfirst : s.storeChecked a = .ok (s.store a) :=
      storeChecked_of_fits (Fits.of_storeAll (s := s.store a) h) (hlength a List.mem_cons_self)
    show s.storeChecked a >>= (storeAllChecked · additions) = _
    rw [hfirst]
    exact ih h fun b hb => hlength b (List.mem_cons_of_mem _ hb)

end LowerState

namespace Lower

variable {α β : Type}

/-- The step does nothing but store, whether it succeeds or not. -/
def StoresOnly (x : Lower α) : Prop :=
  ∀ s : LowerState,
    match x s with
    | .ok _ t | .error _ t => ∃ additions, t = s.storeAll additions

namespace StoresOnly

theorem pure (a : α) : StoresOnly (Pure.pure a) := fun _ => ⟨[], rfl⟩

theorem throw (e : CompileError) : StoresOnly (MonadExcept.throw e : Lower α) := fun _ => ⟨[], rfl⟩

theorem bind {x : Lower α} {f : α → Lower β} (hx : StoresOnly x) (hf : ∀ a, StoresOnly (f a)) :
    StoresOnly (x >>= f) := by
  intro s
  have hfirst := hx s
  simp only [Bind.bind, EStateM.bind]
  cases hresult : x s with
  | error e t =>
    rw [hresult] at hfirst
    exact hfirst
  | ok a t =>
    rw [hresult] at hfirst
    obtain ⟨additions, rfl⟩ := hfirst
    have hrest := hf a (s.storeAll additions)
    dsimp only
    split at hrest <;>
    · obtain ⟨further, rfl⟩ := hrest
      exact ⟨additions ++ further, (s.storeAll_append additions further).symm⟩

/-- What stands in front of the code does not matter. -/
theorem compositional (base : Code) : Compositional base fun _ x _ => StoresOnly x where
  pure _ a := pure a
  throw _ e := throw e
  bind hx hf := hx.bind hf
  get _ := ⟨[], rfl⟩
  emit node span _ := ⟨[.node node span], rfl⟩
  emitList ids _ := ⟨[.list ids], rfl⟩
  emitSlots slots _ := ⟨[.slots slots], rfl⟩
  define name _ := ⟨[.name name], rfl⟩
  find? _ _ := ⟨[], rfl⟩
  scopeId _ := ⟨[], rfl⟩

end StoresOnly

/-- Compilation of an expression does nothing but store, whether it succeeds or not. -/
theorem storesOnly_lower (names : NameTable) (e : Expr) : StoresOnly (lower names e) :=
  (StoresOnly.compositional .empty).lower names e

theorem storesOnly_lowerMembers (names : NameTable) (done : List NodeId)
    (members : List (Option Expr)) : StoresOnly (lowerMembers names done members) := by
  induction members generalizing done with
  | nil => exact .pure _
  | cons member members ih =>
    cases member with
    | none => exact .throw _
    | some e => exact (storesOnly_lower names e).bind fun id => ih (id :: done)

theorem storesOnly_lowerSequence (names : NameTable) (members : List (Option Expr)) :
    StoresOnly (lowerSequence names members) := by
  have hall := StoresOnly.compositional .empty
  refine (storesOnly_lowerMembers names [] members).bind fun items => ?_
  exact (hall.emitList items).bind fun segment => hall.emit _ _

end Lower

open Lower

/-- Where a compilation succeeds, it has stored one thing after another. As long as its code and its
scope are within the limits and no list is too long, the checks let all of this through. -/
def Compilation.StoresWithinLimits (scope : Scope) (c : Compilation) : Prop :=
  ∀ compiled, c.result = .ok compiled → ∃ additions,
    LowerState.storeAll ⟨scope, .empty⟩ additions = ⟨c.scope, compiled.code⟩ ∧
    (LowerState.Fits ⟨c.scope, compiled.code⟩ →
      (∀ a ∈ additions, a.listLength ≤ maxListLength) →
      LowerState.storeAllChecked ⟨scope, .empty⟩ additions = .ok ⟨c.scope, compiled.code⟩)

theorem Compilation.storesWithinLimits_ofLower {root : Lower NodeId} (h : StoresOnly root)
    (scope : Scope) : (ofLower scope root).StoresWithinLimits scope := by
  intro compiled hok
  have hroot := h ⟨scope, .empty⟩
  unfold ofLower EStateM.run at hok ⊢
  cases hrun : root ⟨scope, .empty⟩ with
  | error e t =>
    rw [hrun] at hok
    cases hok
  | ok id t =>
    rw [hrun] at hok hroot
    cases hok
    obtain ⟨additions, rfl⟩ := hroot
    exact ⟨additions, rfl, LowerState.storeAllChecked_of_fits⟩

theorem compile_storesWithinLimits (names : NameTable) (scope : Scope) (root : Option Expr) :
    (compile names scope root).StoresWithinLimits scope := by
  cases root with
  | none => exact fun _ hok => nomatch hok
  | some e => exact Compilation.storesWithinLimits_ofLower (storesOnly_lower names e) scope

theorem compileSequence_storesWithinLimits (names : NameTable) (scope : Scope)
    (members : List (Option Expr)) :
    (compileSequence names scope members).StoresWithinLimits scope := by
  unfold compileSequence
  split
  · exact fun _ hok => nomatch hok
  · exact Compilation.storesWithinLimits_ofLower (storesOnly_lowerSequence names members) scope

end ExprCore
