import ExprCore.Compilation
import ExprCore.Proofs.OwnActions

/-!
# The lenient policy

The two policies on undefined variables differ in the reads of such variables only. A run under the
lenient policy is therefore the run under the strict policy, unless the latter stops at an undefined
variable; and the only errors of that kind under the lenient policy are those that functions raise.

## Main definitions

- `EvalErrorKind.IsUndefined`: the cause of an error is an undefined variable
- `Eval.Repairs`: doing the same, except where the other run stops at an undefined variable

## Main statements

- `Action.repairs_run`: an action under the two policies
- `Node.acts_defined`: no node is made for the error of an undefined variable
- `lenient_policy_only_repairs`: evaluation under the two policies
-/

namespace ExprCore

open Eval

/-- The cause of the error is an undefined variable. -/
def EvalErrorKind.IsUndefined (kind : EvalErrorKind) : Prop :=
  ∃ name, kind = .undefinedVariable name

theorem EvalErrorKind.not_isUndefined_of_isOperational {kind : EvalErrorKind}
    (h : kind.isOperational = true) : ¬ kind.IsUndefined := by
  rintro ⟨name, rfl⟩
  cases h

/-- The second step does the same as the first one, unless that one stops at an undefined
variable. -/
def Eval.Repairs (x y : Eval Value) : Prop :=
  ∀ m, y m = x m ∨ ∃ e m', x m = .error (.error e) m' ∧ e.kind.IsUndefined

theorem Eval.Repairs.refl (x : Eval Value) : Repairs x x := fun _ => .inl rfl

theorem Eval.compositional_repairs : Compositional Repairs where
  badCode := .refl _
  bind := by
    intro x y f g hx hf m
    rcases hx m with heq | ⟨e, m', hstop, hundefined⟩
    · cases hresult : x m with
      | ok v m' =>
        rw [hresult] at heq
        rw [bind_of_ok hresult rfl, bind_of_ok heq rfl]
        exact hf v m'
      | error why m' =>
        rw [hresult] at heq
        exact .inl ((bind_of_error heq).trans (bind_of_error hresult).symm)
    · exact .inr ⟨e, m', bind_of_error hstop, hundefined⟩
  located := by
    intro span x y hx m
    rcases hx m with heq | ⟨e, m', hstop, hundefined⟩
    · exact .inl (by simp only [Eval.located, heq])
    · refine .inr ⟨e.attachSpan span, m', by simp only [Eval.located, hstop, Stop.attachSpan], ?_⟩
      rwa [EvalError.kind_attachSpan]

section Policies

variable (names : NameTable) (registry : Registry)

theorem Interpreter.repairs_undefined (name : Name) :
    Repairs (undefined ⟨names, registry, .strict⟩ name)
      (undefined ⟨names, registry, .lenient⟩ name) :=
  fun m => .inr ⟨_, m, rfl, _, rfl⟩

theorem Interpreter.repairs_readVar (name : Name) (slot : Option Slot) :
    Repairs (readVar ⟨names, registry, .strict⟩ name slot)
      (readVar ⟨names, registry, .lenient⟩ name slot) := by
  cases slot with
  | none => exact repairs_undefined names registry name
  | some slot =>
    intro m
    simp only [readVar, read?, Bind.bind, EStateM.bind]
    cases m.frame.get? slot with
    | none => exact repairs_undefined names registry name m
    | some v => exact .inl rfl

theorem Action.repairs_run (action : Action) :
    Repairs (action.run ⟨names, registry, .strict⟩) (action.run ⟨names, registry, .lenient⟩) := by
  cases action with
  | read name slot => exact Interpreter.repairs_readVar names registry name slot
  | yield | stop | store | step | storeAt | unset | call => exact .refl _

end Policies

/-- A stop at an undefined variable is only admitted as what a function has raised. -/
def Stop.Defined (registry : Registry) (calls : CallLog) : Stop → Prop
  | .error e => e.kind.IsUndefined → e.RaisedBy registry calls
  | .badCode => True

theorem Stop.defined_admits (registry : Registry) :
    Stop.Admits registry (Stop.Defined registry) where
  attachSpan := by
    intro calls why span h
    cases why with
    | badCode => trivial
    | error e =>
      simpa only [Stop.attachSpan, Stop.Defined, EvalError.kind_attachSpan,
        EvalError.raisedBy_attachSpan] using h
  operational h hundefined := (EvalErrorKind.not_isUndefined_of_isOperational h hundefined).elim
  undefinedFunction := nofun
  raised h _ := h

theorem Interpreter.stopsOnly_undefined_of_lenient {i : Interpreter} (h : i.policy = .lenient)
    {P : CallLog → Stop → Prop} (name : Name) : StopsOnly P (i.undefined name) := by
  simp only [undefined, h]
  exact .pure Value.null

/-- The action is not made for stopping at an undefined variable. -/
def Action.Defined : Action → Prop
  | stop (.error e) => ¬ e.kind.IsUndefined
  | stop .badCode | yield _ | read .. | store .. | step .. | storeAt .. | unset _ | call .. => True

theorem Action.stopsOnly_defined {i : Interpreter} (hlenient : i.policy = .lenient)
    {action : Action} (h : action.Defined) :
    StopsOnly (Stop.Defined i.registry) (action.run i) := by
  refine stopsOnly_run (Stop.defined_admits i.registry).covers
    (Interpreter.stopsOnly_undefined_of_lenient hlenient) ?_
  rintro why rfl calls
  cases why with
  | badCode => trivial
  | error e => exact fun hundefined => (h hundefined).elim

/-- No node comes to an action that is made for stopping at an undefined variable. -/
theorem Node.acts_defined (code : Code) (node : Node) : (node.plan code).Acts Action.Defined := by
  refine (node.acts_of code).imp fun action hof => ?_
  cases action with
  | stop why =>
    cases why with
    | badCode => trivial
    | error e =>
      obtain hoperational | ⟨other, rfl⟩ := hof
      · exact EvalErrorKind.not_isUndefined_of_isOperational hoperational.isOperational
      · rintro ⟨name, hkind⟩
        cases hkind
  | yield | read | store | step | storeAt | unset | call => trivial

theorem Eval.compositional_stopsOnly {registry : Registry} {P : CallLog → Stop → Prop}
    (hP : Stop.Admits registry P) (hbad : ∀ calls, P calls .badCode) :
    Compositional fun x _ => StopsOnly P x where
  badCode := .throw hbad
  bind hx hf := hx.bind hf
  located span _ _ hx := hx.located hP span

theorem Interpreter.stopsOnly_defined_of_lenient {i : Interpreter} (hlenient : i.policy = .lenient)
    (c : Compiled) : StopsOnly (Stop.Defined i.registry) (i.evaluate c) := by
  have hcompositional : Compositional fun x _ => StopsOnly (Stop.Defined i.registry) x :=
    compositional_stopsOnly (Stop.defined_admits i.registry) fun _ => trivial
  have hplans (node : Node) : (node.plan c.code).Acts fun action =>
      StopsOnly (Stop.Defined i.registry) (action.run i) :=
    (node.acts_defined c.code).imp fun _ => Action.stopsOnly_defined hlenient
  exact hcompositional.evaluate i i fun node _ => hplans node

/-- An evaluation that succeeds under the strict policy has the same result, the same frame and the
same requests under the lenient one, and so has an evaluation that stops for another reason than an
undefined variable. Under the lenient policy an undefined variable is reported only when the
function that was run last raises that very error. -/
theorem lenient_policy_only_repairs (names : NameTable) (registry : Registry) (c : Compiled)
    (m : Machine) :
    let strict : Interpreter := ⟨names, registry, .strict⟩
    let lenient : Interpreter := ⟨names, registry, .lenient⟩
    (∀ v m', strict.evaluate c m = .ok v m' → lenient.evaluate c m = .ok v m')
      ∧ (∀ why m', strict.evaluate c m = .error why m' →
          (∀ e name, why = .error e → e.kind ≠ .undefinedVariable name) →
          lenient.evaluate c m = .error why m')
      ∧ ∀ e m' name, lenient.evaluate c m = .error (.error e) m' →
          e.kind = .undefinedVariable name → e.RaisedBy registry m'.calls := by
  intro strict lenient
  have hrepairs : Repairs (strict.evaluate c) (lenient.evaluate c) :=
    compositional_repairs.evaluate strict lenient fun node _ =>
      Plan.acts_of_forall (Action.repairs_run names registry) _
  refine ⟨fun v m' hok => ?_, fun why m' hstop hother => ?_, fun e m' name hstop hkind => ?_⟩
  · rcases hrepairs m with heq | ⟨e, m'', hstrict, -⟩
    · rw [heq, hok]
    · rw [hok] at hstrict
      cases hstrict
  · rcases hrepairs m with heq | ⟨e, m'', hstrict, name, hkind⟩
    · rw [heq, hstop]
    · rw [hstop] at hstrict
      cases hstrict
      exact (hother e name rfl hkind).elim
  · have hstops := Interpreter.stopsOnly_defined_of_lenient (i := lenient) rfl c
    exact hstops m _ m' hstop ⟨name, hkind⟩

/-- With a function `f` that raises an undefined variable of its own unless it has an argument:
`f([])` and `f(+[])` under both policies, and `f()` under the lenient one. -/
theorem lenient_policy_only_repairs_call :
    let names : NameTable := ⟨⟨["", "f"], by decide⟩⟩
    let registry : Registry := ⟨fun _ _ _ => some ⟨0⟩, fun _ _ arguments =>
      if arguments.isEmpty then .error (.undefinedVariable "y") else .ok .null⟩
    let strict : Interpreter := ⟨names, registry, .strict⟩
    let lenient : Interpreter := ⟨names, registry, .lenient⟩
    let list : Expr := .mk .dummy (.array [])
    let f (arguments : List Expr) : Expr := .mk .dummy (.call ⟨1⟩ arguments)
    ∃ succeeds fails raises scope m₁ m₂ m₃,
      compile names .root (some (f [list])) = ⟨.ok succeeds, scope⟩
      ∧ compile names .root (some (f [.mk .dummy (.unary .plus list)])) = ⟨.ok fails, scope⟩
      ∧ compile names .root (some (f [])) = ⟨.ok raises, scope⟩
      ∧ strict.evaluate succeeds ⟨.empty, #[]⟩ = .ok .null m₁
      ∧ lenient.evaluate succeeds ⟨.empty, #[]⟩ = .ok .null m₁
      ∧ strict.evaluate fails ⟨.empty, #[]⟩ = .error (.error (.invalidUnaryOp .plus "array")) m₂
      ∧ lenient.evaluate fails ⟨.empty, #[]⟩ = .error (.error (.invalidUnaryOp .plus "array")) m₂
      ∧ lenient.evaluate raises ⟨.empty, #[]⟩ = .error (.error (.undefinedVariable "y")) m₃
      ∧ (EvalError.undefinedVariable "y").RaisedBy registry m₃.calls := by
  refine ⟨_, _, _, _, _, _, ?_, rfl, rfl, rfl, rfl, ?_, rfl, ?_, ?_⟩
  rotate_left
  · exact (lenient_policy_only_repairs _ _ _ _).1 _ _ rfl
  · refine (lenient_policy_only_repairs _ _ _ _).2.1 _ _ rfl ?_
    intro e name he
    cases he
    exact nofun
  · refine (and_iff_left_of_imp fun hraises => ?_).2 ?_
    · exact (lenient_policy_only_repairs _ _ _ _).2.2 _ _ "y" hraises rfl
    · rfl

end ExprCore
