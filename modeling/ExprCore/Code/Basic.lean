import ExprCore.Code.Node
import ExprCore.Span

/-!
# Compiled code

The nodes of one compiled expression, each with its span, and the lists that they refer to. Nodes
are only ever added, so references stay good.

## Main definitions

- `Code`: nodes with their lists
- `Code.add`, `Code.addList`, `Code.addSlots`: store something
- `Code.addChecked`, `Code.addListChecked`, `Code.addSlotsChecked`: the same within the limits of
  the 32-bit form
- `Compiled`: code with the node that it starts from

## Main statements

- `Code.get?_add_self`, `Code.get?_add_of_lt`: a node reads back, also after more has been stored
- `Code.addChecked_of_room`, `Code.addListChecked_of_room`, `Code.addSlotsChecked_of_room`: within
  the limits the checks change nothing

## Design notes

Compilation stores without checks, as the notes on it explain. The checks are for code that is put
together by hand, and they tell where the reserved position is handed out.
-/

namespace ExprCore

/-- The nodes of an expression with their lists. -/
structure Code where
  nodes : Array (Located Node)
  lists : Pool NodeId
  slots : Pool Slot

namespace Code

/-- The code without nodes. -/
def empty : Code := ⟨#[], .empty, .empty⟩

instance : Inhabited Code := ⟨empty⟩

def size (c : Code) : Nat := c.nodes.size

def get? (c : Code) (id : NodeId) : Option (Located Node) := c.nodes[id.index]?

/-- Store a node behind the others. -/
def add (c : Code) (node : Node) (span : Span) : NodeId × Code :=
  (⟨c.size⟩, { c with nodes := c.nodes.push ⟨node, span⟩ })

def addList (c : Code) (ids : List NodeId) : Segment × Code :=
  ((c.lists.add ids).1, { c with lists := (c.lists.add ids).2 })

def addSlots (c : Code) (slots : List Slot) : Segment × Code :=
  ((c.slots.add slots).1, { c with slots := (c.slots.add slots).2 })

/-- Store a node unless there is no position left for it. -/
def addChecked (c : Code) (node : Node) (span : Span) : Except CapacityError (NodeId × Code) := do
  checkEntries "nodes" c.size
  return c.add node span

def addListChecked (c : Code) (ids : List NodeId) : Except CapacityError (Segment × Code) := do
  let (segment, lists) ← c.lists.addChecked "node lists" "node list" ids
  return (segment, { c with lists })

def addSlotsChecked (c : Code) (slots : List Slot) : Except CapacityError (Segment × Code) := do
  let (segment, slots) ← c.slots.addChecked "slot lists" "slot list" slots
  return (segment, { c with slots })

@[simp] theorem get?_add_self (c : Code) (node : Node) (span : Span) :
    (c.add node span).2.get? (c.add node span).1 = some ⟨node, span⟩ := by
  simp [get?, add, size]

/-- A stored node is not touched by storing another. -/
theorem get?_add_of_lt {c : Code} {id : NodeId} (node : Node) (span : Span)
    (h : id.index < c.size) : (c.add node span).2.get? id = c.get? id := by
  simp only [size] at h
  simp [get?, add, Array.getElem?_push, Nat.ne_of_lt h]

theorem addChecked_of_room {c : Code} (node : Node) (span : Span) (h : c.size ≤ maxIndex) :
    c.addChecked node span = .ok (c.add node span) := by
  rw [addChecked, checkEntries_eq_ok_iff.2 h]
  rfl

theorem addListChecked_of_room {c : Code} {ids : List NodeId} (hsize : c.lists.size ≤ maxIndex)
    (hlength : ids.length ≤ maxListLength) : c.addListChecked ids = .ok (c.addList ids) := by
  rw [addListChecked, Pool.addChecked_of_room hsize hlength]
  rfl

theorem addSlotsChecked_of_room {c : Code} {slots : List Slot} (hsize : c.slots.size ≤ maxIndex)
    (hlength : slots.length ≤ maxListLength) :
    c.addSlotsChecked slots = .ok (c.addSlots slots) := by
  rw [addSlotsChecked, Pool.addChecked_of_room hsize hlength]
  rfl

end Code

/-- Code with the node that it starts from. -/
structure Compiled where
  code : Code
  root : NodeId

namespace Compiled

def rootNode? (c : Compiled) : Option (Located Node) := c.code.get? c.root

def span (c : Compiled) : Span := (c.rootNode?.map Located.span).getD .dummy

end Compiled

end ExprCore
