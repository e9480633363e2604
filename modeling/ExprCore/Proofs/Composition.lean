import ExprCore.Proofs.Schedule

/-!
# Two evaluations of the same code

Two interpreters that run the same code go through the same plans, and differ only in what their
actions do. A relation between evaluations that survives sequencing therefore holds of two whole
evaluations as soon as it holds of the actions that the code can come to.

## Main definitions

- `Plan.Acts`: a property of every action that a plan can come to
- `Eval.Compositional`: a relation that survives sequencing and the placing of errors

## Main statements

- `Plan.related_run`: plans are related when operands and actions are
- `Eval.Compositional.evaluate`: so are evaluations of the same code
-/

namespace ExprCore

open Eval

namespace Plan

/-- Whatever the operands yield, the action that the plan comes to has the property. -/
def Acts (P : Action → Prop) : Plan → Prop
  | act action => P action
  | operand _ rest => ∀ v, (rest v).Acts P

variable {P : Action → Prop}

theorem acts_of_forall (h : ∀ action, P action) (plan : Plan) : plan.Acts P := by
  induction plan with
  | act action => exact h action
  | operand id rest ih => exact ih

theorem Acts.imp {Q : Action → Prop} (himp : ∀ action, P action → Q action) {plan : Plan}
    (h : plan.Acts P) : plan.Acts Q := by
  induction plan with
  | act action => exact himp action h
  | operand id rest ih => exact fun v => ih v (h v)

theorem acts_all {ids : List NodeId} {rest : List Value → Plan} (h : ∀ vs, (rest vs).Acts P) :
    (all ids rest).Acts P := by
  induction ids generalizing rest with
  | nil => exact h []
  | cons id ids ih =>
    intro v
    exact ih fun vs => h (v :: vs)

theorem acts_keys {path : List (Option NodeId)} {rest : List Key → Plan}
    (hstop : ∀ typeName, P (.stop (.error (.invalidIndex typeName))))
    (h : ∀ ks, (rest ks).Acts P) : (keys path rest).Acts P := by
  induction path generalizing rest with
  | nil => exact h []
  | cons position path ih =>
    cases position with
    | none => exact ih fun ks => h (none :: ks)
    | some id =>
      intro v
      dsimp only
      cases v.position? with
      | none => exact hstop v.typeName
      | some position => exact ih fun ks => h (some position :: ks)

theorem acts_last (h : ∀ v, P (.yield v)) (ids : List NodeId) (v : Value) :
    (last ids v).Acts P := by
  induction ids generalizing v with
  | nil => exact h v
  | cons id ids ih =>
    intro v
    exact ih v

end Plan

/-- Two evaluations are related when their parts are. -/
structure Eval.Compositional (R : Eval Value → Eval Value → Prop) : Prop where
  badCode : R (throw .badCode) (throw .badCode)
  bind : ∀ {x y : Eval Value} {f g : Value → Eval Value}, R x y → (∀ v, R (f v) (g v)) →
    R (x >>= f) (y >>= g)
  located : ∀ (span : Span) {x y : Eval Value}, R x y → R (located span x) (located span y)

variable {R : Eval Value → Eval Value → Prop}

/-- Plans are related when their operands and the actions that they come to are. -/
theorem Plan.related_run (hR : Compositional R) {i j : Interpreter}
    {evalᵢ evalⱼ : NodeId → Eval Value}
    (heval : ∀ id, R (evalᵢ id) (evalⱼ id)) {plan : Plan}
    (hacts : plan.Acts fun action => R (action.run i) (action.run j)) :
    R (plan.run i evalᵢ) (plan.run j evalⱼ) := by
  induction plan with
  | act action => exact hacts
  | operand id rest ih => exact hR.bind (heval id) fun v => ih v (hacts v)

namespace Eval.Compositional

variable (i j : Interpreter)

theorem eval (hR : Compositional R) {code : Code}
    (hplans : ∀ node, (∃ id span, code.get? id = some ⟨node, span⟩) →
      (node.plan code).Acts fun action => R (action.run i) (action.run j))
    (fuel : Nat) (id : NodeId) : R (i.eval code fuel id) (j.eval code fuel id) := by
  induction fuel generalizing id with
  | zero => exact hR.badCode
  | succ fuel ih =>
    cases hget : code.get? id with
    | none =>
      simp only [Interpreter.eval, hget]
      exact hR.badCode
    | some found =>
      obtain ⟨node, span⟩ := found
      simp only [Interpreter.eval_of_get? hget, step_eq_run_plan]
      exact hR.located span (Plan.related_run hR ih (hplans node ⟨id, span, hget⟩))

/-- Two interpreters evaluate the same code in a related way when they carry out in a related way
the actions that its nodes come to. -/
theorem evaluate (hR : Compositional R) {c : Compiled}
    (hplans : ∀ node, (∃ id span, c.code.get? id = some ⟨node, span⟩) →
      (node.plan c.code).Acts fun action => R (action.run i) (action.run j)) :
    R (i.evaluate c) (j.evaluate c) :=
  hR.eval i j hplans _ _

end Eval.Compositional

end ExprCore
