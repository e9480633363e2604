import ExprCore.Evaluation
import ExprCore.Proofs.Steps

/-!
# The schedule of a node

One node does nothing but evaluate operands in some order and then take one action. The plan of a
node says which operands these are, given the values of the ones before, and which action comes in
the end. Facts about all nodes are facts about plans, so they need two cases and not one for each
kind of node.

## Main definitions

- `Action`: what a node does itself, once its operands are evaluated
- `Plan`: operands one after the other, and then an action
- `Node.plan`: the plan of a node

## Main statements

- `step_eq_run_plan`: a node does what its plan says
-/

namespace ExprCore

open Eval

/-- What a node does itself, once its operands are evaluated. -/
inductive Action where
  | yield (v : Value)
  | stop (why : Stop)
  | read (name : Name) (slot : Option Slot)
  | store (slot : Slot) (v : Value)
  /-- An increment or decrement. -/
  | step (slot : Slot) (delta : Int64) (fixity : Fixity)
  | storeAt (slot : Slot) (keys : List Key) (v : Value)
  | unset (slots : List Slot)
  | call (name : Name) (scope : ScopeId) (arguments : List Value)

def Action.ofExcept : Except EvalError Value → Action
  | .ok v => yield v
  | .error e => stop (.error e)

def Action.run (i : Interpreter) : Action → Eval Value
  | yield v => pure v
  | stop why => throw why
  | read name slot => i.readVar name slot
  | store slot v => do
    Eval.store slot v
    pure v
  | step slot delta fixity => do
    let current ← content slot
    let updated ← Eval.ofExcept (increment current delta)
    Eval.store slot updated
    match fixity with
    | .before => pure updated
    | .after => pure current
  | storeAt slot keys v => do
    Eval.storeAt slot keys v
    pure v
  | unset slots => do
    Eval.unset slots
    pure .null
  | call name scope arguments => i.call name scope arguments

inductive Plan where
  | act (action : Action)
  | operand (id : NodeId) (rest : Value → Plan)

namespace Plan

/-- Carry out a plan, for a given way to evaluate operands. -/
def run (i : Interpreter) (eval : NodeId → Eval Value) : Plan → Eval Value
  | act action => action.run i
  | operand id rest => do
    let v ← eval id
    (rest v).run i eval

def all : List NodeId → (List Value → Plan) → Plan
  | [], rest => rest []
  | id :: ids, rest => operand id fun v => all ids fun vs => rest (v :: vs)

/-- The keys on a path. A value that denotes no position ends the plan. -/
def keys : List (Option NodeId) → (List Key → Plan) → Plan
  | [], rest => rest []
  | none :: path, rest => keys path fun ks => rest (none :: ks)
  | some id :: path, rest => operand id fun v =>
    match v.position? with
    | some position => keys path fun ks => rest (some position :: ks)
    | none => act (.stop (.error (.invalidIndex v.typeName)))

/-- The operands of a list, of which the last one counts. -/
def last : List NodeId → Value → Plan
  | [], v => act (.yield v)
  | id :: ids, _ => operand id fun v => last ids v

variable {i : Interpreter} {eval : NodeId → Eval Value}

theorem run_all (ids : List NodeId) (rest : List Value → Plan) :
    (all ids rest).run i eval = ids.mapM eval >>= fun vs => (rest vs).run i eval := by
  induction ids generalizing rest with
  | nil => simp [all]
  | cons id ids ih => simp [all, run, ih]

theorem run_keys (path : List (Option NodeId)) (rest : List Key → Plan) :
    (keys path rest).run i eval
      = path.mapM (Interpreter.evalKey eval) >>= fun ks => (rest ks).run i eval := by
  induction path generalizing rest with
  | nil => simp [keys]
  | cons position path ih =>
    cases position with
    | none => simp [keys, ih, Interpreter.evalKey]
    | some id =>
      simp only [keys, run, List.mapM_cons, Interpreter.evalKey, bind_assoc]
      -- both sides evaluate the index; a value without a position ends both
      congr 1
      funext v
      cases v.position? with
      | none => rfl
      | some position => simp [ih]

theorem run_last (ids : List NodeId) (v : Value) :
    (last ids v).run i eval = ids.foldlM (fun _ id => eval id) v := by
  induction ids generalizing v with
  | nil => rfl
  | cons id ids ih => simp [last, run, ih]

end Plan

theorem Action.run_ofExcept (i : Interpreter) (r : Except EvalError Value) :
    (Action.ofExcept r).run i = Eval.ofExcept r := by
  cases r <;> rfl

open Plan in
def Node.plan (code : Code) : Node → Plan
  | .int value => act (.yield (.int value))
  | .float bits => act (.yield (.float (.ofBits bits)))
  | .bool value => act (.yield (.bool value))
  | .var name slot => act (.read name slot)
  | .assign slot value => operand value fun v => act (.store slot v)
  | .step slot delta fixity => act (.step slot delta fixity)
  | .unary op x => operand x fun v => act (.ofExcept (op.apply v))
  | .binary op left right => operand left fun l =>
    match op.shortcut? l with
    | some decided => act (.yield (.bool decided))
    | none => operand right fun r => act (.ofExcept (op.apply l r))
  | .list items => all (code.lists.read items) fun vs => act (.yield (.array vs.toArray))
  | .index target position => operand target fun t =>
    match position with
    | none => act (.stop .badCode)
    | some position => operand position fun p => act (.ofExcept (t.readElement p))
  | .storeElement target position value =>
    match code.place? code.size target [position] with
    | .error stop => act (.stop stop)
    | .ok (slot, path) => keys path fun ks => operand value fun v => act (.storeAt slot ks v)
  | .call name scope arguments => all (code.lists.read arguments) fun vs =>
    act (.call name scope vs)
  | .unset slots => act (.unset (code.slots.read slots))
  | .sequence items => last (code.lists.read items) .null

/-- A node does what its plan says. -/
theorem step_eq_run_plan (i : Interpreter) (code : Code) (eval : NodeId → Eval Value)
    (node : Node) : i.step code eval node = (node.plan code).run i eval := by
  cases node with
  | int | float | bool | var | assign | step | unset => rfl
  | unary op x =>
    simp only [Interpreter.step, Node.plan, Plan.run, Action.run_ofExcept]
  | binary op left right =>
    simp only [Interpreter.step, Node.plan, Plan.run]
    congr 1
    funext l
    cases op.shortcut? l with
    | some decided => rfl
    | none => simp only [Plan.run, Action.run_ofExcept]
  | list items => simp only [Interpreter.step, Node.plan, Plan.run_all, Plan.run, Action.run]
  | index target position =>
    simp only [Interpreter.step, Node.plan, Plan.run]
    congr 1
    funext t
    cases position with
    | none => rfl
    | some position => simp only [Plan.run, Action.run_ofExcept]
  | storeElement target position value =>
    simp only [Interpreter.step, Interpreter.storeElement, Node.plan]
    cases code.place? code.size target [position] with
    | error stop => rfl
    | ok place => simp only [Plan.run_keys, Plan.run, Action.run]
  | call name scope arguments => simp only [Interpreter.step, Node.plan, Plan.run_all, Plan.run,
      Action.run]
  | sequence items => simp only [Interpreter.step, Node.plan, Plan.run_last]

end ExprCore
