import ExprCore.Proofs.Schedule

/-!
# Why evaluation stops

Operators and element accesses raise errors of the known causes only. An error that is nothing but
a text comes out of a function that was run, and then running it was the last request.

## Main definitions

- `EvalError.Named`: the cause of an error is one of the known ones
- `EvalErrorKind.isOperational`: the cause of an error lies in the operands
- `EvalError.Operational`: an error as the operators and the element accesses raise it
- `EvalError.RaisedBy`: the error is what the function that was run last has raised
- `Stop.Explained`: an error of a known cause, or what the function that was run last has raised
- `Eval.StopsOnly`, `Eval.Explained`: a step that stops for such reasons only

## Main statements

- `BinaryOp.operational_of_apply`, `UnaryOp.operational_of_apply`: the errors of operators
- `Value.operational_of_readElement`, `Value.operational_of_storeAt`: those of element accesses
- `Action.stopsOnly_run`, `Action.explained_run`: what a node does itself
-/

namespace ExprCore

/-- The cause of the error is one of the known ones and not just a text. -/
def EvalError.Named (e : EvalError) : Prop := ∀ text, e.kind ≠ .custom text

theorem EvalError.named_ofKind {kind : EvalErrorKind} (h : ∀ text, kind ≠ .custom text) :
    (EvalError.ofKind kind).Named := h

/-- The cause lies in the operands: no variable and no function is missing, and no function has
raised the error. -/
def EvalErrorKind.isOperational : EvalErrorKind → Bool
  | divisionByZero | negativeShift _ | typeMismatch .. | binaryTypeMismatch .. | invalidUnaryOp ..
  | indexOutOfRange .. => true
  | undefinedVariable _ | undefinedFunction _ | custom _ => false

theorem EvalError.named_of_isOperational {e : EvalError} (h : e.kind.isOperational = true) :
    e.Named := by
  intro text hkind
  rw [hkind] at h
  cases h

/-- The error says no more than its cause: it has the text of the cause, no place and no notes. -/
def EvalError.Plain (e : EvalError) : Prop := e = .ofKind e.kind

theorem EvalError.plain_ofKind (kind : EvalErrorKind) : (EvalError.ofKind kind).Plain := rfl

/-- An error as the operators and the element accesses raise it. -/
structure EvalError.Operational (e : EvalError) : Prop where
  isOperational : e.kind.isOperational = true
  plain : e.Plain

namespace EvalError.Operational

theorem ofKind {kind : EvalErrorKind} (h : kind.isOperational = true) :
    (EvalError.ofKind kind).Operational := ⟨h, plain_ofKind kind⟩

theorem named {e : EvalError} (h : e.Operational) : e.Named :=
  named_of_isOperational h.isOperational

end EvalError.Operational

section Operators

variable {e : EvalError}

theorem ArithmeticOp.operational_of_onFloats {op : ArithmeticOp} {a b : Float}
    (h : op.onFloats a b = .error e) : e.Operational := by
  cases op with
  | add | sub | mul => cases h
  | div =>
    simp only [onFloats] at h
    split at h
    · cases h
      exact .ofKind rfl
    · cases h

theorem ArithmeticOp.operational_of_onIntegers {op : ArithmeticOp} {a b : Int64}
    (h : op.onIntegers a b = .error e) : e.Operational := by
  unfold onIntegers at h
  split at h
  · cases h
    exact .ofKind rfl
  · split at h
    · cases h
    · exact operational_of_onFloats h

theorem ArithmeticOp.operational_of_apply {op : ArithmeticOp} {l r : Value}
    (h : op.apply l r = .error e) : e.Operational := by
  unfold apply at h
  split at h
  · exact operational_of_onIntegers h
  · exact operational_of_onFloats h
  · cases h
    exact .ofKind rfl

theorem ShiftOp.operational_of_operand {v : Value} (h : operand v = .error e) :
    e.Operational := by
  unfold operand at h
  split at h
  · cases h
  · cases h
    exact .ofKind rfl

theorem ShiftOp.operational_of_onIntegers {op : ShiftOp} {value amount : Int64}
    (h : op.onIntegers value amount = .error e) : e.Operational := by
  unfold onIntegers at h
  split at h
  · cases h
    exact .ofKind rfl
  · split at h <;> cases h

theorem ShiftOp.operational_of_apply {op : ShiftOp} {l r : Value} (h : op.apply l r = .error e) :
    e.Operational := by
  unfold apply at h
  cases hl : operand l with
  | error e' =>
    rw [hl] at h
    cases h
    exact operational_of_operand hl
  | ok value =>
    cases hr : operand r with
    | error e' =>
      rw [hl, hr] at h
      cases h
      exact operational_of_operand hr
    | ok amount =>
      rw [hl, hr] at h
      exact operational_of_onIntegers h

theorem BinaryOp.operational_of_apply {op : BinaryOp} {l r : Value}
    (h : op.apply l r = .error e) : e.Operational := by
  cases op with
  | add | sub | mul | div => exact ArithmeticOp.operational_of_apply h
  | shl | shr => exact ShiftOp.operational_of_apply h
  | eq | ne | lt | le | gt | ge | and | or => cases h

theorem UnaryOp.operational_of_apply {op : UnaryOp} {v : Value} (h : op.apply v = .error e) :
    e.Operational := by
  cases op with
  | neg =>
    simp only [apply, negate] at h
    split at h
    · split at h <;> cases h
    · cases h
    · cases h
      exact .ofKind rfl
  | plus =>
    simp only [apply, identity] at h
    split at h
    · cases h
    · cases h
      exact .ofKind rfl

theorem operational_of_increment {v : Value} {delta : Int64} (h : increment v delta = .error e) :
    e.Operational :=
  BinaryOp.operational_of_apply h

theorem operational_of_writePosition {length : Nat} {key : Key}
    (h : writePosition length key = .error e) : e.Operational := by
  unfold writePosition at h
  split at h
  · cases h
  · split at h
    · cases h
    · cases h
      exact .ofKind rfl

theorem Value.operational_of_readElement {target index : Value}
    (h : target.readElement index = .error e) : e.Operational := by
  unfold readElement at h
  split at h
  · cases h
    exact .ofKind rfl
  · split at h
    · cases h
      exact .ofKind rfl
    · split at h
      · cases h
      · cases h
        exact .ofKind rfl

theorem Value.operational_of_openItems {v : Value} (h : v.openItems = .error e) :
    e.Operational := by
  unfold openItems at h
  split at h
  · cases h
  · cases h
  · cases h
    exact .ofKind rfl

theorem Value.operational_of_storeAt {place : Value} {keys : List Key} {v : Value}
    (h : place.storeAt keys v = .error e) : e.Operational := by
  -- at each level either the value is no array, or the key is out of range, or the rest fails
  induction keys generalizing place with
  | nil => cases h
  | cons key keys ih =>
    rw [storeAt_cons] at h
    cases hitems : place.openItems with
    | error e' =>
      rw [hitems] at h
      cases h
      exact operational_of_openItems hitems
    | ok items =>
      cases hposition : writePosition items.size key with
      | error e' =>
        simp only [hitems, hposition, bind, Except.bind] at h
        cases h
        exact operational_of_writePosition hposition
      | ok position =>
        simp only [hitems, hposition, bind, Except.bind] at h
        split at h
        · rename_i hrest
          cases h
          exact ih hrest
        · cases h

end Operators

/-- The error is what the function that was run last has raised, but for its place. -/
def EvalError.RaisedBy (registry : Registry) (calls : CallLog) (e : EvalError) : Prop :=
  ∃ before target arguments raised,
    calls = before.push (.invoke target arguments)
      ∧ registry.invoke before target arguments = .error raised
      ∧ e.kind = raised.kind ∧ e.message = raised.message ∧ e.notes = raised.notes

/-- The place of an error says nothing about where it comes from. -/
@[simp] theorem EvalError.raisedBy_attachSpan {registry : Registry} {calls : CallLog}
    {e : EvalError} {span : Span} :
    (e.attachSpan span).RaisedBy registry calls ↔ e.RaisedBy registry calls := by
  simp only [RaisedBy, kind_attachSpan, message_attachSpan, notes_attachSpan]

@[simp] theorem EvalError.named_attachSpan {e : EvalError} {span : Span} :
    (e.attachSpan span).Named ↔ e.Named := by
  simp only [Named, kind_attachSpan]

/-- A stop with a reason: an error of a known cause, or what the function that was run last has
raised. The place of an error is not looked at. -/
def Stop.Explained (registry : Registry) (calls : CallLog) : Stop → Prop
  | .error e => e.Named ∨ e.RaisedBy registry calls
  | .badCode => False

/-- Whenever the step stops, the requests made until then and the reason satisfy the condition. -/
def Eval.StopsOnly {α : Type} (P : CallLog → Stop → Prop) (x : Eval α) : Prop :=
  ∀ m why m', x m = .error why m' → P m'.calls why

/-- When the step stops, it does so for a reason. -/
def Eval.Explained {α : Type} (registry : Registry) (x : Eval α) : Prop :=
  ∀ m why m', x m = .error why m' → why.Explained registry m'.calls

/-- A condition on stops that all actions keep to: it admits what operands, missing functions and
functions that were run can cause, and it does not look at the places of errors. -/
structure Stop.Admits (registry : Registry) (P : CallLog → Stop → Prop) : Prop where
  attachSpan : ∀ {calls why} (span : Span), P calls why → P calls (why.attachSpan span)
  operational : ∀ {calls} {e : EvalError}, e.kind.isOperational = true → P calls (.error e)
  undefinedFunction : ∀ {calls} (name : String), P calls (.error (.undefinedFunction name))
  raised : ∀ {calls} {e : EvalError}, e.RaisedBy registry calls → P calls (.error e)

/-- A condition on stops that actions keep to, as long as no place is attached to their errors. -/
structure Stop.Covers (registry : Registry) (P : CallLog → Stop → Prop) : Prop where
  operational : ∀ {calls} {e : EvalError}, e.Operational → P calls (.error e)
  undefinedFunction : ∀ {calls} (name : String), P calls (.error (.undefinedFunction name))
  raised : ∀ {calls target arguments e}, registry.invoke calls target arguments = .error e →
    P (calls.push (.invoke target arguments)) (.error e)

theorem Stop.Admits.covers {registry : Registry} {P : CallLog → Stop → Prop}
    (hP : Stop.Admits registry P) : Stop.Covers registry P where
  operational h := hP.operational h.isOperational
  undefinedFunction := hP.undefinedFunction
  raised h := hP.raised ⟨_, _, _, _, rfl, h, rfl, rfl, rfl⟩

namespace Eval

variable {α β : Type} {registry : Registry} {P : CallLog → Stop → Prop}

theorem StopsOnly.pure (a : α) : StopsOnly P (Pure.pure a : Eval α) := nofun

theorem StopsOnly.throw {why : Stop} (h : ∀ calls, P calls why) :
    StopsOnly P (MonadExcept.throw why : Eval α) := by
  intro m stop m' hstop
  cases hstop
  exact h m.calls

theorem StopsOnly.ofExcept {r : Except EvalError α}
    (h : ∀ e, r = .error e → ∀ calls, P calls (.error e)) : StopsOnly P (Eval.ofExcept r) := by
  cases r with
  | ok a => exact .pure a
  | error e => exact .throw (h e rfl)

theorem StopsOnly.bind {x : Eval α} {f : α → Eval β} (hx : StopsOnly P x)
    (hf : ∀ a, StopsOnly P (f a)) : StopsOnly P (x >>= f) := by
  intro m why m' hstop
  obtain hstop | ⟨a, m₁, -, hstop⟩ := bind_eq_error_iff.1 hstop
  · exact hx _ _ _ hstop
  · exact hf a _ _ _ hstop

theorem StopsOnly.located {x : Eval α} (hP : Stop.Admits registry P) (span : Span)
    (hx : StopsOnly P x) : StopsOnly P (Eval.located span x) := by
  intro m why m' hstop
  obtain ⟨own, hown, rfl⟩ := located_eq_error_iff.1 hstop
  exact hP.attachSpan span (hx _ _ _ hown)

theorem StopsOnly.store (slot : Slot) (v : Value) : StopsOnly P (Eval.store slot v) := nofun

theorem StopsOnly.unset (slots : List Slot) : StopsOnly P (Eval.unset slots) := nofun

theorem StopsOnly.storeAt (hP : Stop.Covers registry P) (slot : Slot) (keys : List Key)
    (v : Value) : StopsOnly P (Eval.storeAt slot keys v) := by
  rintro ⟨frame, calls⟩ why m' hstop
  rw [storeAt_eq] at hstop
  split at hstop
  · rename_i hstore
    cases hstop
    exact hP.operational (Value.operational_of_storeAt hstore)
  · cases hstop

/-- What a function raises is what the evaluation stops with, and nothing is requested after it. -/
theorem StopsOnly.invoke (hP : Stop.Covers registry P) (target : CallTarget)
    (arguments : List Value) : StopsOnly P (Eval.invoke registry target arguments) := by
  rintro ⟨frame, calls⟩ why m' hstop
  cases hresult : registry.invoke calls target arguments with
  | ok v =>
    simp only [Eval.invoke, hresult] at hstop
    cases hstop
  | error raised =>
    simp only [Eval.invoke, hresult] at hstop
    cases hstop
    exact hP.raised hresult

end Eval

open Eval

section Actions

variable {i : Interpreter} {P : CallLog → Stop → Prop}

theorem Interpreter.stopsOnly_readVar (hundefined : ∀ name, StopsOnly P (i.undefined name))
    (name : Name) (slot : Option Slot) : StopsOnly P (i.readVar name slot) := by
  cases slot with
  | none => exact hundefined name
  | some slot =>
    refine StopsOnly.bind nofun fun v => ?_
    cases v with
    | none => exact hundefined name
    | some v => exact .pure v

theorem Interpreter.stopsOnly_call (hP : Stop.Covers i.registry P) (name : Name)
    (scope : ScopeId) (arguments : List Value) : StopsOnly P (i.call name scope arguments) := by
  refine StopsOnly.bind nofun fun target => ?_
  cases target with
  | none => exact .throw fun calls => hP.undefinedFunction _
  | some target => exact .invoke hP target arguments

/-- An action keeps to a condition on stops when reads of undefined variables do, and when the stop
that the action is made for does. -/
theorem Action.stopsOnly_run (hP : Stop.Covers i.registry P)
    (hundefined : ∀ name, StopsOnly P (i.undefined name)) {action : Action}
    (hstop : ∀ why, action = .stop why → ∀ calls, P calls why) : StopsOnly P (action.run i) := by
  cases action with
  | yield v => exact .pure v
  | stop why => exact .throw (hstop why rfl)
  | read name slot => exact i.stopsOnly_readVar hundefined name slot
  | store slot v => exact (StopsOnly.store slot v).bind fun _ => .pure v
  | step slot delta fixity =>
    refine StopsOnly.bind nofun fun current => ?_
    have hincrement : StopsOnly P (Eval.ofExcept (increment current delta)) :=
      .ofExcept fun e he calls => hP.operational (operational_of_increment he)
    refine hincrement.bind fun updated => (StopsOnly.store slot updated).bind fun _ => ?_
    cases fixity <;> exact .pure _
  | storeAt slot keys v => exact (StopsOnly.storeAt hP slot keys v).bind fun _ => .pure v
  | unset slots => exact (StopsOnly.unset slots).bind fun _ => .pure _
  | call name scope arguments => exact i.stopsOnly_call hP name scope arguments

end Actions

theorem Stop.explained_admits (registry : Registry) :
    Stop.Admits registry fun calls why => why.Explained registry calls where
  attachSpan := by
    intro calls why span h
    cases why with
    | badCode => exact h
    | error e =>
      exact h.imp EvalError.named_attachSpan.2 EvalError.raisedBy_attachSpan.2
  operational h := .inl (EvalError.named_of_isOperational h)
  undefinedFunction name := .inl (EvalError.named_ofKind (by simp))
  raised h := .inr h

theorem Eval.Explained.bind {α β : Type} {registry : Registry} {x : Eval α} {f : α → Eval β}
    (hx : Explained registry x) (hf : ∀ a, Explained registry (f a)) :
    Explained registry (x >>= f) :=
  StopsOnly.bind hx hf

theorem Eval.Explained.located {α : Type} {registry : Registry} {x : Eval α} (span : Span)
    (hx : Explained registry x) : Explained registry (Eval.located span x) :=
  StopsOnly.located (Stop.explained_admits registry) span hx

theorem Interpreter.explained_undefined (i : Interpreter) (name : Name) :
    Explained i.registry (i.undefined name) := by
  unfold undefined
  cases i.policy with
  | strict => exact StopsOnly.throw fun calls => .inl (EvalError.named_ofKind (by simp))
  | lenient => exact StopsOnly.pure _

/-- The stop that an action is made for has a reason. -/
def Action.Justified : Action → Prop
  | stop .badCode => False
  | stop (.error e) => e.Named
  | yield _ | read .. | store .. | step .. | storeAt .. | unset _ | call .. => True

theorem Action.justified_ofExcept {r : Except EvalError Value}
    (h : ∀ e, r = .error e → e.Named) : (Action.ofExcept r).Justified := by
  cases r with
  | ok v => trivial
  | error e => exact h e rfl

theorem Action.explained_run (i : Interpreter) {action : Action} (h : action.Justified) :
    Explained i.registry (action.run i) := by
  refine stopsOnly_run (Stop.explained_admits i.registry).covers i.explained_undefined ?_
  rintro why rfl calls
  cases why with
  | badCode => exact h
  | error e => exact .inl h

end ExprCore
