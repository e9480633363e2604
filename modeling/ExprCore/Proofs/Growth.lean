import ExprCore.Lowering

/-!
# Growth of code and scopes

Compilation only ever adds: nodes go behind the nodes that are there, lists go behind the lists
that are there, and a name that has a slot keeps it. What was read from a smaller state is read
from every larger one.

## Main definitions

- `Pool.Extends`, `Code.Extends`, `Scope.Extends`: the larger one keeps what the smaller one holds
- `LowerState.add` and its companions: the state after one step of compilation

## Main statements

- `Code.Extends.get?`, `Code.Extends.list`, `Code.Extends.slotList`: what was stored reads back
- `LowerState.Extends.trans`: growth composes
-/

namespace ExprCore

/-- What stands in an array stands at the same place in every array that starts with it. -/
theorem getElem?_of_prefix {α : Type} {xs ys : Array α} {i : Nat} {a : α}
    (h : xs.toList <+: ys.toList) (ha : xs[i]? = some a) : ys[i]? = some a := by
  obtain ⟨more, hmore⟩ := h
  have hx : xs.toList[i]? = some a := by simpa using ha
  rw [← Array.getElem?_toList, ← hmore,
    List.getElem?_append_left (List.getElem?_eq_some_iff.1 hx).1]
  exact hx

/-- The pool `q` starts with the entries of `p`. -/
def Pool.Extends {α : Type} (p q : Pool α) : Prop := p.entries.toList <+: q.entries.toList

namespace Pool

variable {α : Type} {p q : Pool α}

theorem Extends.refl (p : Pool α) : p.Extends p := List.prefix_refl _

theorem Extends.trans {r : Pool α} (hpq : p.Extends q) (hqr : q.Extends r) : p.Extends r :=
  List.IsPrefix.trans hpq hqr

theorem extends_add (p : Pool α) (items : List α) : p.Extends (p.add items).2 := by
  cases items with
  | nil => exact Extends.refl p
  | cons a as =>
    show p.entries.toList <+: (p.entries ++ (a :: as)).toList
    rw [Array.toList_appendList]
    exact List.prefix_append _ _

theorem Extends.size_le (h : p.Extends q) : p.size ≤ q.size := by
  simpa [size] using List.IsPrefix.length_le h

theorem Extends.within {r : Segment} (h : p.Extends q) (hr : p.Within r) : q.Within r :=
  Nat.le_trans hr h.size_le

/-- A list inside the smaller pool is the same list in the larger one. -/
theorem Extends.read {r : Segment} (h : p.Extends q) (hr : p.Within r) : q.read r = p.read r := by
  obtain ⟨more, hmore⟩ := h
  have hlen : r.start + r.length ≤ p.entries.toList.length := by
    simpa [Within, Segment.stop, size] using hr
  rw [read_eq, read_eq, ← hmore, List.drop_append_of_le_length (by omega),
    List.take_append_of_le_length (by rw [List.length_drop]; omega)]

end Pool

/-- The code `d` starts with the nodes and the lists of `c`. -/
structure Code.Extends (c d : Code) : Prop where
  nodes : c.nodes.toList <+: d.nodes.toList
  lists : c.lists.Extends d.lists
  slots : c.slots.Extends d.slots

namespace Code

variable {c d : Code}

theorem Extends.refl (c : Code) : c.Extends c :=
  ⟨List.prefix_refl _, Pool.Extends.refl _, Pool.Extends.refl _⟩

theorem Extends.trans {e : Code} (hcd : c.Extends d) (hde : d.Extends e) : c.Extends e :=
  ⟨hcd.nodes.trans hde.nodes, hcd.lists.trans hde.lists, hcd.slots.trans hde.slots⟩

theorem extends_add (c : Code) (node : Node) (span : Span) : c.Extends (c.add node span).2 := by
  refine ⟨?_, Pool.Extends.refl _, Pool.Extends.refl _⟩
  show c.nodes.toList <+: (c.nodes.push ⟨node, span⟩).toList
  rw [Array.toList_push]
  exact List.prefix_append _ _

theorem extends_addList (c : Code) (ids : List NodeId) : c.Extends (c.addList ids).2 :=
  ⟨List.prefix_refl _, Pool.extends_add _ _, Pool.Extends.refl _⟩

theorem extends_addSlots (c : Code) (slots : List Slot) : c.Extends (c.addSlots slots).2 :=
  ⟨List.prefix_refl _, Pool.Extends.refl _, Pool.extends_add _ _⟩

theorem Extends.size_le (h : c.Extends d) : c.size ≤ d.size := by
  simpa [size] using h.nodes.length_le

theorem index_lt_size {id : NodeId} {node : Located Node} (h : c.get? id = some node) :
    id.index < c.size :=
  (Array.getElem?_eq_some_iff.1 h).1

/-- A stored node is found at the same place in the larger code. -/
theorem Extends.get? {id : NodeId} {node : Located Node} (h : c.Extends d)
    (hget : c.get? id = some node) : d.get? id = some node :=
  getElem?_of_prefix h.nodes hget

theorem Extends.list {r : Segment} (h : c.Extends d) (hr : c.lists.Within r) :
    d.lists.read r = c.lists.read r :=
  h.lists.read hr

theorem Extends.slotList {r : Segment} (h : c.Extends d) (hr : c.slots.Within r) :
    d.slots.read r = c.slots.read r :=
  h.slots.read hr

end Code

/-- The scope `t` keeps the slot of every name bound in `s`. -/
def Scope.Extends (s t : Scope) : Prop :=
  ∀ ⦃name slot⦄, s.find? name = some slot → t.find? name = some slot

namespace Scope

theorem Extends.refl (s : Scope) : s.Extends s := fun _ _ h => h

theorem Extends.trans {s t u : Scope} (hst : s.Extends t) (htu : t.Extends u) : s.Extends u :=
  fun _ _ h => htu (hst h)

theorem extends_define (s : Scope) (name : Name) : s.Extends (s.define name).2 :=
  fun _ _ h => find?_define_of_some h

/-- Every slot below the slot count has a name. -/
theorem find?_getElem {s : Scope} {n : Nat} (h : n < s.slotCount) :
    s.find? s.names.items[n] = some ⟨n⟩ := by
  have hitem : s.names.item? n = some s.names.items[n] := List.getElem?_eq_getElem h
  rw [find?, Numbering.number?_eq_some_iff.2 hitem]
  rfl

end Scope

namespace LowerState

def next (s : LowerState) : NodeId := ⟨s.code.size⟩

def add (s : LowerState) (node : Node) (span : Span) : LowerState :=
  ⟨s.scope, (s.code.add node span).2⟩

def segment (s : LowerState) (ids : List NodeId) : Segment := (s.code.addList ids).1

def addList (s : LowerState) (ids : List NodeId) : LowerState := ⟨s.scope, (s.code.addList ids).2⟩

def slotSegment (s : LowerState) (slots : List Slot) : Segment := (s.code.addSlots slots).1

def addSlots (s : LowerState) (slots : List Slot) : LowerState :=
  ⟨s.scope, (s.code.addSlots slots).2⟩

/-- The slot that a name gets when it is written. -/
def slot (s : LowerState) (name : Name) : Slot := (s.scope.define name).1

def define (s : LowerState) (name : Name) : LowerState := ⟨(s.scope.define name).2, s.code⟩

/-- The state `t` keeps the code and the bindings of `s`. -/
structure Extends (s t : LowerState) : Prop where
  code : s.code.Extends t.code
  scope : s.scope.Extends t.scope

variable {s t : LowerState}

theorem Extends.refl (s : LowerState) : s.Extends s := ⟨Code.Extends.refl _, Scope.Extends.refl _⟩

theorem Extends.trans {u : LowerState} (hst : s.Extends t) (htu : t.Extends u) : s.Extends u :=
  ⟨hst.code.trans htu.code, hst.scope.trans htu.scope⟩

theorem extends_add (s : LowerState) (node : Node) (span : Span) : s.Extends (s.add node span) :=
  ⟨Code.extends_add _ _ _, Scope.Extends.refl _⟩

theorem extends_addList (s : LowerState) (ids : List NodeId) : s.Extends (s.addList ids) :=
  ⟨Code.extends_addList _ _, Scope.Extends.refl _⟩

theorem extends_addSlots (s : LowerState) (slots : List Slot) : s.Extends (s.addSlots slots) :=
  ⟨Code.extends_addSlots _ _, Scope.Extends.refl _⟩

theorem extends_define (s : LowerState) (name : Name) : s.Extends (s.define name) :=
  ⟨Code.Extends.refl _, Scope.extends_define _ _⟩

@[simp] theorem size_add (s : LowerState) (node : Node) (span : Span) :
    (s.add node span).code.size = s.code.size + 1 := by
  simp [add, Code.add, Code.size]

@[simp] theorem size_addList (s : LowerState) (ids : List NodeId) :
    (s.addList ids).code.size = s.code.size := rfl

@[simp] theorem size_define (s : LowerState) (name : Name) :
    (s.define name).code.size = s.code.size := rfl

@[simp] theorem scope_add (s : LowerState) (node : Node) (span : Span) :
    (s.add node span).scope = s.scope := rfl

@[simp] theorem scope_addList (s : LowerState) (ids : List NodeId) :
    (s.addList ids).scope = s.scope := rfl

@[simp] theorem scope_addSlots (s : LowerState) (slots : List Slot) :
    (s.addSlots slots).scope = s.scope := rfl

/-- The node added last is found at its reference, whatever comes later. -/
theorem get?_of_extends {node : Node} {span : Span} {d : Code}
    (h : (s.add node span).code.Extends d) : d.get? s.next = some ⟨node, span⟩ :=
  h.get? (Code.get?_add_self s.code node span)

theorem read_of_extends {ids : List NodeId} {d : Code} (h : (s.addList ids).code.Extends d) :
    d.lists.read (s.segment ids) = ids :=
  (h.list (Pool.within_add _ _)).trans (Pool.read_add _ _)

theorem read_slots_of_extends {slots : List Slot} {d : Code}
    (h : (s.addSlots slots).code.Extends d) : d.slots.read (s.slotSegment slots) = slots :=
  (h.slotList (Pool.within_add _ _)).trans (Pool.read_add _ _)

/-- A name that was bound for a write has its slot, whatever comes later. -/
theorem find?_of_extends {name : Name} {t : Scope} (h : (s.define name).scope.Extends t) :
    t.find? name = some (s.slot name) :=
  h (Scope.find?_define_self s.scope name)

end LowerState

end ExprCore
