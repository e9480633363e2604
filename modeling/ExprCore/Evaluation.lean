import ExprCore.Code.Basic
import ExprCore.Element
import ExprCore.Frame
import ExprCore.Operation.Dispatch
import ExprCore.Registry

/-!
# Evaluation

Running code on a frame. Operands are evaluated from left to right; a logical operator leaves its
right operand out once the left one decides. An error carries the span of the innermost node that
has one, and what was written before it stays written.

## Main definitions

- `Interpreter`: the names, the registry and the policy that evaluation needs
- `Machine`: the frame and the requests made so far
- `Eval`: steps on a machine that may stop
- `Interpreter.step`: one node, for a given way to evaluate its operands
- `Interpreter.eval`: a node of code, to a given depth
- `Interpreter.evaluate`: an expression on a frame

## Main statements

- `Eval.located_eq_ok_iff`, `Eval.located_eq_error_iff`: only the places of errors differ
- `Eval.storeAt_eq`: the check in front of a partial write fails just as the write would
- `Interpreter.eval_of_get?`: how a node is evaluated

## Design notes

A node is evaluated by a function of what its operands do, and the recursion is tied afterwards.
What holds of every step therefore holds of every evaluation.
-/

namespace ExprCore

/-- What a read of an undefined variable does. A variable is undefined when its name was not bound
when the read was compiled, and when it was unset. -/
inductive UndefinedPolicy where
  /-- The read is an error. -/
  | strict
  /-- The read yields `null`. -/
  | lenient
deriving DecidableEq, Inhabited, Repr

/-- What an evaluation needs beside code and frame. -/
structure Interpreter where
  names : NameTable
  registry : Registry
  policy : UndefinedPolicy

/-- The state of an evaluation. -/
structure Machine where
  frame : Frame
  calls : CallLog

/-- Why an evaluation stops without a value. -/
inductive Stop where
  | error (e : EvalError)
  /-- Code that refers to a node that does not exist, or that never comes out of a circle.
  Compilation makes no such code. -/
  | badCode

/-- Give an error a place unless it has one. -/
def Stop.attachSpan (span : Span) : Stop → Stop
  | error e => error (e.attachSpan span)
  | badCode => badCode

/-- Steps of an evaluation. When one stops, the machine stays as it is at that point. -/
abbrev Eval := EStateM Stop Machine

namespace Eval

def fail {α : Type} (e : EvalError) : Eval α := throw (.error e)

/-- A result that needs no machine. -/
def ofExcept {α : Type} : Except EvalError α → Eval α
  | .ok a => pure a
  | .error e => fail e

/-- Give the errors of a step a place unless they have one. -/
def located {α : Type} (span : Span) (x : Eval α) : Eval α := fun m =>
  match x m with
  | .ok a m => .ok a m
  | .error e m => .error (e.attachSpan span) m

theorem located_eq_ok_iff {α : Type} {span : Span} {x : Eval α} {a : α} {m m' : Machine} :
    located span x m = .ok a m' ↔ x m = .ok a m' := by
  unfold located
  cases x m <;> simp

theorem located_eq_error_iff {α : Type} {span : Span} {x : Eval α} {why : Stop} {m m' : Machine} :
    located span x m = .error why m'
      ↔ ∃ stop, x m = .error stop m' ∧ why = stop.attachSpan span := by
  unfold located
  cases x m with
  | ok a m₁ => simp
  | error stop m₁ =>
    constructor
    · intro h
      cases h
      exact ⟨stop, rfl, rfl⟩
    · rintro ⟨_, h, rfl⟩
      cases h
      rfl

/-- The value of a variable, absent once it was unset. -/
def read? (slot : Slot) : Eval (Option Value) := fun m => .ok (m.frame.get? slot) m

def content (slot : Slot) : Eval Value := fun m => .ok (m.frame.content slot) m

def store (slot : Slot) (v : Value) : Eval Unit := fun ⟨frame, calls⟩ =>
  .ok () ⟨frame.set slot v, calls⟩

/-- Write an element of the array in a variable. The whole path is checked before the variable is
touched. -/
def storeAt (slot : Slot) (keys : List Key) (v : Value) : Eval Unit := fun ⟨frame, calls⟩ =>
  match (frame.content slot).checkPath keys with
  | .error e => .error (.error e) ⟨frame, calls⟩
  | .ok () =>
    -- taken out of the frame, the array has one owner and is changed in place
    let taken := frame.takeOut slot
    match taken.1.storeAt keys v with
    | .error e => .error (.error e) ⟨taken.2, calls⟩
    | .ok updated => .ok () ⟨taken.2.set slot updated, calls⟩

/-- A write along a path is checked first, and the check fails just as the write would. -/
theorem storeAt_eq (slot : Slot) (keys : List Key) (v : Value) (frame : Frame)
    (calls : CallLog) :
    storeAt slot keys v ⟨frame, calls⟩
      = match (frame.content slot).storeAt keys v with
        | .error e => .error (.error e) ⟨frame, calls⟩
        | .ok array => .ok () ⟨(frame.set slot .null).set slot array, calls⟩ := by
  cases hstore : (frame.content slot).storeAt keys v with
  | error e =>
    have hcheck := (Value.checkPath_eq_error_iff v).2 hstore
    simp only [storeAt, hcheck]
  | ok array =>
    have hcheck := (Value.checkPath_eq_ok_iff v).2 ⟨array, hstore⟩
    simp only [storeAt, hcheck, Frame.takeOut_eq, hstore]

def unset (slots : List Slot) : Eval Unit := fun ⟨frame, calls⟩ =>
  .ok () ⟨slots.foldl Frame.unset frame, calls⟩

def lookup (registry : Registry) (name : String) (scope : ScopeId) : Eval (Option CallTarget) :=
  fun ⟨frame, calls⟩ =>
    let target := registry.lookup calls name scope
    .ok target ⟨frame, calls.push (.lookup name scope)⟩

def invoke (registry : Registry) (target : CallTarget) (arguments : List Value) : Eval Value :=
  fun ⟨frame, calls⟩ =>
    let result := registry.invoke calls target arguments
    ofExcept result ⟨frame, calls.push (.invoke target arguments)⟩

end Eval

open Eval

/-- The result of a logical operator whose left operand decides. -/
def BinaryOp.shortcut? : BinaryOp → Value → Option Bool
  | .and, left => if left.isTruthy then none else some false
  | .or, left => if left.isTruthy then some true else none
  | _, _ => none

/-- The target of an element write is something that holds no elements. -/
def EvalError.invalidPlace (node : Node) : EvalError :=
  .new ("invalid array assignment target: " ++ node.describe)

/-- The variable that a target leads to and the nodes of the keys on the way, in front of the keys
that follow. A target deeper than `fuel` levels leads nowhere. -/
def Code.place? (code : Code) (fuel : Nat) (target : NodeId) (keys : List (Option NodeId)) :
    Except Stop (Slot × List (Option NodeId)) :=
  match fuel with
  | 0 => .error .badCode
  | fuel + 1 =>
    match code.get? target with
    | none => .error .badCode
    | some ⟨.var _ (some slot), _⟩ => .ok (slot, keys)
    | some ⟨.index target position, _⟩ => code.place? fuel target (position :: keys)
    | some ⟨node, _⟩ => .error (.error (.invalidPlace node))

namespace Interpreter

def undefined (i : Interpreter) (name : Name) : Eval Value :=
  match i.policy with
  | .strict => fail (.undefinedVariable (i.names.text name))
  | .lenient => pure .null

def readVar (i : Interpreter) (name : Name) (slot : Option Slot) : Eval Value := do
  match slot with
  | none => i.undefined name
  | some slot =>
    match ← read? slot with
    | some v => pure v
    | none => i.undefined name

/-- The key that a node denotes. Without a node it is the end of the array. -/
def evalKey (eval : NodeId → Eval Value) : Option NodeId → Eval Key
  | none => pure none
  | some id => do
    let v ← eval id
    match v.position? with
    | some position => pure (some position)
    | none => fail (.invalidIndex v.typeName)

/-- Write an element of an array. The keys come first, then the value. -/
def storeElement (code : Code) (eval : NodeId → Eval Value) (target : NodeId)
    (position : Option NodeId) (value : NodeId) : Eval Value := do
  match code.place? code.size target [position] with
  | .error stop => throw stop
  | .ok (slot, path) =>
    let keys ← path.mapM (evalKey eval)
    let v ← eval value
    storeAt slot keys v
    pure v

/-- Call a function: the arguments come first, then the function is looked up and run. -/
def call (i : Interpreter) (name : Name) (scope : ScopeId) (arguments : List Value) :
    Eval Value := do
  let text := i.names.text name
  match ← lookup i.registry text scope with
  | some target => invoke i.registry target arguments
  | none => fail (.undefinedFunction text)

/-- Evaluate one node, for a given way to evaluate its operands. -/
def step (i : Interpreter) (code : Code) (eval : NodeId → Eval Value) : Node → Eval Value
  | .int value => pure (.int value)
  | .float bits => pure (.float (.ofBits bits))
  | .bool value => pure (.bool value)
  | .var name slot => i.readVar name slot
  | .assign slot value => do
    let v ← eval value
    store slot v
    pure v
  | .step slot delta fixity => do
    let current ← content slot
    let updated ← ofExcept (increment current delta)
    store slot updated
    match fixity with
    | .before => pure updated
    | .after => pure current
  | .unary op operand => do
    let v ← eval operand
    ofExcept (op.apply v)
  | .binary op left right => do
    let l ← eval left
    match op.shortcut? l with
    | some decided => pure (.bool decided)
    | none => do
      let r ← eval right
      ofExcept (op.apply l r)
  | .list items => do
    let values ← (code.lists.read items).mapM eval
    pure (.array values.toArray)
  | .index target position => do
    let t ← eval target
    match position with
    | none => throw .badCode
    | some position => do
      let p ← eval position
      ofExcept (t.readElement p)
  | .storeElement target position value => storeElement code eval target position value
  | .call name scope arguments => do
    let values ← (code.lists.read arguments).mapM eval
    i.call name scope values
  | .unset slots => do
    unset (code.slots.read slots)
    pure .null
  | .sequence items => (code.lists.read items).foldlM (fun _ item => eval item) .null

/-- Evaluate a node of code, at most `fuel` levels deep. -/
def eval (i : Interpreter) (code : Code) : Nat → NodeId → Eval Value
  | 0, _ => throw .badCode
  | fuel + 1, id =>
    match code.get? id with
    | none => throw .badCode
    | some ⟨node, span⟩ => located span (i.step code (i.eval code fuel) node)

/-- A node that is there is evaluated by its step, one level deeper. -/
theorem eval_of_get? {i : Interpreter} {code : Code} {id : NodeId} {node : Node} {span : Span}
    (h : code.get? id = some ⟨node, span⟩) (fuel : Nat) :
    i.eval code (fuel + 1) id = located span (i.step code (i.eval code fuel) node) := by
  rw [eval, h]

/-- How deep an evaluation goes beyond the number of nodes. Code whose nodes only refer to earlier
ones needs no such room. Code that runs in circles until a condition ends them may need any depth,
and this one is out of reach. -/
def circleDepth : Nat := Nat.pow 2 62

def evaluate (i : Interpreter) (c : Compiled) : Eval Value :=
  i.eval c.code (c.code.size + circleDepth) c.root

end Interpreter

end ExprCore
