import ExprCore.Proofs.Composition
import ExprCore.Proofs.Reasons

/-!
# What a node does itself

The action that a node comes to, once its operands are evaluated, is one of a few for each kind of
node. Everything that is known about the actions of a node follows from one statement about all of
them.

## Main definitions

- `Action.Of`: what a node of a kind may come to

## Main statements

- `Node.acts_of`: a node comes to no other action
-/

namespace ExprCore

/-- The stop is one that a node makes for itself: its operands do not fit it, its target is not a
place, or a node is missing. -/
def Stop.IsOwn : Stop → Prop
  | .error e => e.Operational ∨ ∃ node, e = .invalidPlace node
  | .badCode => True

/-- The node may come to the action. Only reads, writes and calls tell which kind of node it is. -/
def Action.Of (code : Code) (node : Node) : Action → Prop
  | yield _ => True
  | stop why => why.IsOwn
  | read name slot => node = .var name slot
  | store slot _ => ∃ value, node = .assign slot value
  | step slot delta fixity => node = .step slot delta fixity
  | storeAt slot _ _ => ∃ target position value path, node = .storeElement target position value
      ∧ code.place? code.size target [position] = .ok (slot, path)
  | unset slots => ∃ segment, node = .unset segment ∧ slots = code.slots.read segment
  | call name scope _ => ∃ arguments, node = .call name scope arguments

theorem Action.of_ofExcept {code : Code} {node : Node} {r : Except EvalError Value}
    (h : ∀ e, r = .error e → e.Operational) : (Action.ofExcept r).Of code node := by
  cases r with
  | ok v => trivial
  | error e => exact .inl (h e rfl)

/-- A walk to a place ends nowhere only at a missing node or at one that holds no elements. -/
theorem Code.isOwn_of_place? {code : Code} {fuel : Nat} {target : NodeId}
    {keys : List (Option NodeId)} {why : Stop} (h : code.place? fuel target keys = .error why) :
    why.IsOwn := by
  induction fuel generalizing target keys with
  | zero =>
    cases h
    trivial
  | succ fuel ih =>
    simp only [place?] at h
    split at h
    · cases h
      trivial
    · cases h
    · exact ih h
    · cases h
      exact .inr ⟨_, rfl⟩

/-- A node comes to the actions of its kind only. -/
theorem Node.acts_of (code : Code) (node : Node) : (node.plan code).Acts (Action.Of code node) := by
  cases node with
  | int | float | bool => trivial
  | var | step => rfl
  | unset slots => exact ⟨slots, rfl, rfl⟩
  | assign slot value => exact fun v => ⟨value, rfl⟩
  | unary op x => exact fun v => Action.of_ofExcept fun e => UnaryOp.operational_of_apply
  | binary op left right =>
    intro l
    dsimp only
    cases op.shortcut? l with
    | some decided => trivial
    | none => exact fun r => Action.of_ofExcept fun e => BinaryOp.operational_of_apply
  | list items => exact Plan.acts_all fun vs => trivial
  | call name scope arguments => exact Plan.acts_all fun vs => ⟨arguments, rfl⟩
  | sequence items => exact Plan.acts_last (fun v => trivial) _ _
  | index target position =>
    intro t
    dsimp only
    cases position with
    | none => trivial
    | some position => exact fun p => Action.of_ofExcept fun e => Value.operational_of_readElement
  | storeElement target position value =>
    simp only [Node.plan]
    cases hplace : code.place? code.size target [position] with
    | error why => exact Code.isOwn_of_place? hplace
    | ok place =>
      refine Plan.acts_keys (fun typeName => .inl (.ofKind rfl)) fun ks v => ?_
      exact ⟨target, position, value, place.2, rfl, hplace⟩

end ExprCore
