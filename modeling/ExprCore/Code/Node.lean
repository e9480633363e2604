import ExprCore.Name
import ExprCore.Operator.Basic
import ExprCore.Pool
import ExprCore.Slot

/-!
# Nodes

One instruction of compiled code. Variables are slots, literals are constants, and the operands of
an instruction are references to other nodes.

## Main definitions

- `NodeId`: a reference to a node
- `Node`: the instructions
- `Node.describe`: how a node is written in messages
-/

namespace ExprCore

/-- A reference to a node. -/
structure NodeId where
  index : Nat
deriving DecidableEq, Inhabited, Repr

namespace NodeId

/-- In the 32-bit form one position is reserved for the absence of a node. -/
def isValid (id : NodeId) : Bool := id.index != reservedIndex

/-- The reference, unless it is at the reserved position. -/
def present? (id : NodeId) : Option NodeId := if id.isValid then some id else none

def describe (id : NodeId) : String :=
  if id.isValid then s!"NodeId({id.index})" else "NodeId::INVALID"

/-- How the absence of a reference is written. -/
def describeOption : Option NodeId → String
  | some id => id.describe
  | none => (NodeId.mk reservedIndex).describe

end NodeId

/-- An instruction of compiled code. -/
inductive Node where
  | int (value : Int64)
  /-- A double, by its bits. -/
  | float (bits : UInt64)
  | bool (value : Bool)
  /-- A read of a variable. A name that was not bound when it was compiled has no slot. -/
  | var (name : Name) (slot : Option Slot)
  | assign (slot : Slot) (value : NodeId)
  | step (slot : Slot) (delta : Int64) (fixity : Fixity)
  | unary (op : UnaryOp) (operand : NodeId)
  | binary (op : BinaryOp) (left right : NodeId)
  | list (items : Segment)
  | index (target : NodeId) (position : Option NodeId)
  /-- Store a value in an element of an array. The target leads to a variable; without a position
  the value is appended. -/
  | storeElement (target : NodeId) (position : Option NodeId) (value : NodeId)
  | call (name : Name) (scope : ScopeId) (arguments : Segment)
  | unset (slots : Segment)
  /-- A list of nodes one after the other; the last one gives the value. -/
  | sequence (items : Segment)
deriving DecidableEq, Repr

namespace Node

/-- The fields of a node in braces behind its name. -/
def withFields (name : String) (fields : List (String × String)) : String :=
  name ++ " \x7b " ++ ", ".intercalate (fields.map fun (field, text) => field ++ ": " ++ text)
    ++ " \x7d"

def describeSegment (kind : String) (r : Segment) : String :=
  withFields kind [("start", toString r.start), ("len", toString r.length)]

/-- How a node is written in messages. -/
def describe : Node → String
  | int value => s!"Int({value.toInt})"
  | float bits => s!"Float({bits.toNat})"
  | bool value => if value then "Bool(true)" else "Bool(false)"
  | var name slot =>
    withFields "Var" [("name", name.describe), ("slot", Slot.describeOption slot)]
  | assign slot value =>
    withFields "Assign" [("slot", slot.describe), ("value", value.describe)]
  | step slot delta fixity =>
    withFields "IncDec"
      [("slot", slot.describe), ("delta", toString delta.toInt), ("fixity", fixity.describe)]
  | unary op operand =>
    withFields "Unary" [("op", op.describe), ("operand", operand.describe)]
  | binary op left right =>
    withFields "Binary"
      [("op", op.describe), ("left", left.describe), ("right", right.describe)]
  | list items => "List(" ++ describeSegment "NodeRange" items ++ ")"
  | index target position =>
    withFields "Index"
      [("target", target.describe), ("index", NodeId.describeOption position)]
  | storeElement target position value =>
    withFields "IndexAssign"
      [("target", target.describe), ("index", NodeId.describeOption position),
        ("value", value.describe)]
  | call name scope arguments =>
    withFields "Call"
      [("func", name.describe), ("scope", scope.describe),
        ("args", describeSegment "NodeRange" arguments)]
  | unset slots => "Unset(" ++ describeSegment "SlotRange" slots ++ ")"
  | sequence items => "Seq(" ++ describeSegment "NodeRange" items ++ ")"

end Node

end ExprCore
