import ExprCore.Proofs.Schedule

/-!
# Traces

What an evaluation does to the variables, in the order in which it happens: plain reads with what
they found, writes that were completed, and variables that were cleared.

## Main definitions

- `Event`, `Trace`: what happens to a variable, and such events in order
- `Interpreter.trace`: the trace of an evaluation
- `Trace.replay`: the contents of the variables after a trace
- `Trace.Faithful`: every read of a bound variable finds what the events before it left there

## Main statements

- `trace_records`: the trace of an evaluation is faithful, and ends with the contents that the
  evaluation ends with
- `Trace.Faithful.found_of_last_write`: a read of a bound variable finds what was written last
- `trace_stops_at_undefined`: under the strict policy a read that finds nothing ends the evaluation
-/

namespace ExprCore

open Eval

/-- What happens to a variable. -/
inductive Event where
  /-- A plain read. One that is not bound to a slot finds nothing. -/
  | read (name : Name) (slot : Option Slot) (found : Option Value)
  /-- A completed write, with the new content of the variable. -/
  | wrote (slot : Slot) (v : Value)
  | cleared (slot : Slot)

abbrev Trace := List Event

def Action.trace : Action → Machine → Trace
  | read name slot, m => [.read name slot (slot.bind m.frame.get?)]
  | store slot v, _ => [.wrote slot v]
  | step slot delta _, m =>
    match increment (m.frame.content slot) delta with
    | .ok updated => [.wrote slot updated]
    | .error _ => []
  | storeAt slot keys v, m =>
    match (m.frame.content slot).storeAt keys v with
    | .ok array => [.wrote slot array]
    | .error _ => []
  | unset slots, _ => slots.map .cleared
  | yield _, _ | stop _, _ | call .., _ => []

/-- The trace of a plan, from the traces of the operands. An operand that stops ends it. -/
def Plan.trace (eval : NodeId → Eval Value) (trace : NodeId → Machine → Trace) :
    Plan → Machine → Trace
  | act action, m => action.trace m
  | operand id rest, m => trace id m ++
    match eval id m with
    | .ok v m => (rest v).trace eval trace m
    | .error _ _ => []

/-- What happens while a node is evaluated, at most `fuel` levels deep. -/
def Interpreter.trace (i : Interpreter) (code : Code) : Nat → NodeId → Machine → Trace
  | 0, _, _ => []
  | fuel + 1, id, m =>
    match code.get? id with
    | none => []
    | some ⟨node, _⟩ => (node.plan code).trace (i.eval code fuel) (i.trace code fuel) m

def Interpreter.traceAll (i : Interpreter) (c : Compiled) : Machine → Trace :=
  i.trace c.code (c.code.size + circleDepth) c.root

def Event.apply (cells : Slot → Cell) : Event → Slot → Cell
  | read .. => cells
  | wrote slot v => fun other => if other = slot then .set v else cells other
  | cleared slot => fun other => if other = slot then .unset else cells other

/-- A read finds the content of its variable. -/
def Event.Reports (cells : Slot → Cell) : Event → Prop
  | read _ slot found => found = slot.bind fun s => (cells s).get?
  | wrote .. | cleared _ => True

/-- The event puts something into the slot, or clears it. -/
def Event.Touches (slot : Slot) : Event → Prop
  | read .. => False
  | wrote other _ | cleared other => other = slot

/-- The event is not a read that finds nothing. -/
def Event.Finds : Event → Prop
  | read _ _ none => False
  | read _ _ (some _) | wrote .. | cleared _ => True

namespace Trace

def replay (cells : Slot → Cell) (t : Trace) : Slot → Cell := t.foldl Event.apply cells

/-- Every read finds what the events before it left in its variable. -/
def Faithful : (Slot → Cell) → Trace → Prop
  | _, [] => True
  | cells, event :: t => event.Reports cells ∧ Faithful (event.apply cells) t

variable {cells : Slot → Cell} {t u : Trace}

theorem replay_append : replay cells (t ++ u) = replay (replay cells t) u :=
  List.foldl_append

theorem faithful_append :
    Faithful cells (t ++ u) ↔ Faithful cells t ∧ Faithful (replay cells t) u := by
  induction t generalizing cells with
  | nil => simp [Faithful, replay]
  | cons event t ih => simp [Faithful, replay, ih, and_assoc]

theorem replay_of_not_touches {slot : Slot} (h : ∀ event ∈ t, ¬ event.Touches slot) :
    replay cells t slot = cells slot := by
  induction t generalizing cells with
  | nil => rfl
  | cons event t ih =>
    rw [List.forall_mem_cons] at h
    have hevent : event.apply cells slot = cells slot := by
      cases event with
      | read => rfl
      | wrote other v | cleared other => exact if_neg fun heq => h.1 heq.symm
    exact (ih h.2).trans hevent

/-- A read of a bound variable finds what was written to it last. -/
theorem Faithful.found_of_last_write {before mid after : Trace} {name : Name} {slot : Slot}
    {v : Value} {found : Option Value}
    (h : Faithful cells (before ++ .wrote slot v :: mid ++ .read name (some slot) found :: after))
    (hmid : ∀ event ∈ mid, ¬ event.Touches slot) : found = some v := by
  obtain ⟨_, hread, _⟩ := faithful_append.1 h
  have hcell : replay cells (before ++ .wrote slot v :: mid) slot = .set v := by
    rw [replay_append]
    show replay (Event.apply (replay cells before) (.wrote slot v)) mid slot = .set v
    rw [replay_of_not_touches hmid]
    exact if_pos rfl
  rw [Event.Reports, Option.bind_some, hcell] at hread
  exact hread

end Trace

/-- The machine that a step leaves, whether it succeeds or not. -/
def Eval.after {α : Type} (x : Eval α) (m : Machine) : Machine :=
  match x m with
  | .ok _ m | .error _ m => m

/-- The trace says what happens to the variables from one machine to another one. -/
structure Trace.Records (t : Trace) (m m' : Machine) : Prop where
  faithful : Faithful m.frame.cell t
  replay_eq : replay m.frame.cell t = m'.frame.cell

namespace Trace.Records

variable {t u : Trace} {m m₁ m₂ : Machine}

theorem nil (m : Machine) : Records [] m m := ⟨trivial, rfl⟩

theorem append (ht : t.Records m m₁) (hu : Records u m₁ m₂) : Records (t ++ u) m m₂ := by
  refine ⟨faithful_append.2 ⟨ht.faithful, ?_⟩, ?_⟩
  · rw [ht.replay_eq]
    exact hu.faithful
  · rw [replay_append, ht.replay_eq, hu.replay_eq]

end Trace.Records

theorem Eval.after_bind_of_ok {α β : Type} {x : Eval α} {f : α → Eval β} {a : α} {m m' : Machine}
    (h : x m = .ok a m') : (x >>= f).after m = (f a).after m' := by
  unfold Eval.after
  rw [bind_of_ok h rfl]

theorem Eval.after_bind_of_error {α β : Type} {x : Eval α} {f : α → Eval β} {why : Stop}
    {m m' : Machine} (h : x m = .error why m') : (x >>= f).after m = m' := by
  unfold Eval.after
  rw [bind_of_error h]

theorem Interpreter.after_undefined (i : Interpreter) (name : Name) (m : Machine) :
    (i.undefined name).after m = m := by
  unfold undefined
  cases i.policy <;> rfl

theorem Interpreter.after_readVar (i : Interpreter) (name : Name) (slot : Option Slot)
    (m : Machine) : (i.readVar name slot).after m = m := by
  cases slot with
  | none => exact after_undefined i name m
  | some slot =>
    refine (after_bind_of_ok (rfl : read? slot m = .ok (m.frame.get? slot) m)).trans ?_
    cases m.frame.get? slot with
    | none => exact after_undefined i name m
    | some v => rfl

theorem Interpreter.frame_after_call (i : Interpreter) (name : Name) (scope : ScopeId)
    (arguments : List Value) (m : Machine) :
    ((i.call name scope arguments).after m).frame = m.frame := by
  obtain ⟨frame, calls⟩ := m
  have hlookup : lookup i.registry (i.names.text name) scope ⟨frame, calls⟩
    = .ok (i.registry.lookup calls (i.names.text name) scope)
        ⟨frame, calls.push (.lookup (i.names.text name) scope)⟩ := rfl
  rw [call, after_bind_of_ok hlookup]
  cases i.registry.lookup calls (i.names.text name) scope with
  | none => rfl
  | some target =>
    simp only [invoke, Eval.after]
    cases i.registry.invoke _ target arguments <;> rfl

theorem Frame.cell_set (f : Frame) (slot : Slot) (v : Value) :
    (f.set slot v).cell = Event.apply f.cell (.wrote slot v) := by
  funext other
  by_cases h : other = slot
  · subst h
    simp [Event.apply, set]
  · simp [Event.apply, set, cell_write_of_ne _ h, h]

theorem Frame.cell_unset (f : Frame) (slot : Slot) :
    (f.unset slot).cell = Event.apply f.cell (.cleared slot) := by
  funext other
  by_cases h : other = slot
  · subst h
    simp [Event.apply, unset]
  · simp [Event.apply, unset, cell_write_of_ne _ h, h]

theorem Trace.Records.of_frame_eq {m m' : Machine} (h : m'.frame = m.frame) :
    Trace.Records [] m m' :=
  ⟨trivial, by rw [h]; rfl⟩

theorem Action.records (i : Interpreter) (action : Action) (m : Machine) :
    (action.trace m).Records m ((action.run i).after m) := by
  obtain ⟨frame, calls⟩ := m
  cases action with
  | yield v => exact .nil _
  | stop why => exact .nil _
  | read name slot =>
    rw [run, Interpreter.after_readVar]
    exact ⟨⟨rfl, trivial⟩, rfl⟩
  | store slot v => exact ⟨⟨trivial, trivial⟩, (Frame.cell_set frame slot v).symm⟩
  | step slot delta fixity =>
    -- the result depends on the fixity, the write does not
    have hcontent : content slot ⟨frame, calls⟩ = .ok (frame.content slot) ⟨frame, calls⟩ := rfl
    simp only [trace, run]
    rw [Eval.after_bind_of_ok hcontent]
    cases hstep : increment (frame.content slot) delta with
    | error e => exact .nil _
    | ok updated =>
      refine ⟨⟨trivial, trivial⟩, (Frame.cell_set frame slot updated).symm.trans ?_⟩
      cases fixity <;> rfl
  | storeAt slot keys v =>
    simp only [trace, run]
    cases hstore : (frame.content slot).storeAt keys v with
    | error e =>
      rw [Eval.after_bind_of_error (by rw [Eval.storeAt_eq, hstore])]
      exact .nil _
    | ok array =>
      rw [Eval.after_bind_of_ok (by rw [Eval.storeAt_eq, hstore])]
      refine ⟨⟨trivial, trivial⟩, ?_⟩
      -- the `null` that stands in the slot meanwhile is written over
      show Event.apply frame.cell (.wrote slot array) = ((frame.set slot .null).set slot array).cell
      rw [Frame.cell_set, Frame.cell_set]
      funext other
      by_cases h : other = slot
      · simp [Event.apply, h]
      · simp [Event.apply, h]
  | unset slots =>
    show Trace.Records (slots.map .cleared) ⟨frame, calls⟩ ⟨slots.foldl Frame.unset frame, calls⟩
    induction slots generalizing frame with
    | nil => exact .nil _
    | cons slot slots ih =>
      obtain ⟨hfaithful, hreplay⟩ := ih (frame.unset slot)
      rw [Frame.cell_unset] at hfaithful hreplay
      exact ⟨⟨trivial, hfaithful⟩, hreplay⟩
  | call name scope arguments => exact .of_frame_eq (i.frame_after_call _ _ _ _)

theorem Plan.records {i : Interpreter} {eval : NodeId → Eval Value}
    {trace : NodeId → Machine → Trace}
    (h : ∀ id m, (trace id m).Records m ((eval id).after m)) (plan : Plan) (m : Machine) :
    (plan.trace eval trace m).Records m ((plan.run i eval).after m) := by
  induction plan generalizing m with
  | act action => exact action.records i m
  | operand id rest ih =>
    have hid := h id m
    unfold Eval.after at hid
    rw [Plan.trace, Plan.run]
    cases heval : eval id m with
    | ok v m' =>
      rw [heval] at hid
      rw [Eval.after_bind_of_ok heval]
      exact hid.append (ih v m')
    | error why m' =>
      rw [heval] at hid
      rw [Eval.after_bind_of_error heval, List.append_nil]
      exact hid

theorem Eval.after_located {α : Type} (span : Span) (x : Eval α) (m : Machine) :
    (located span x).after m = x.after m := by
  unfold Eval.after located
  cases x m <;> rfl

/-- The trace of an evaluation is faithful, and leads to the variables that the evaluation leaves,
whether it succeeds or not. -/
theorem trace_records (i : Interpreter) (code : Code) (fuel : Nat) (id : NodeId) (m : Machine) :
    (i.trace code fuel id m).Records m ((i.eval code fuel id).after m) := by
  induction fuel generalizing id m with
  | zero => exact .nil m
  | succ fuel ih =>
    unfold Interpreter.trace Interpreter.eval
    cases code.get? id with
    | none => exact .nil m
    | some node =>
      obtain ⟨node, span⟩ := node
      simp only [Eval.after_located, step_eq_run_plan]
      exact Plan.records ih (node.plan code) m

/-- Either every read finds something, or the last event is a read that finds nothing, and the
result is the error for its variable. -/
def Trace.StopsAtUndefined (names : NameTable) (t : Trace)
    (r : EStateM.Result Stop Machine Value) : Prop :=
  (∀ event ∈ t, event.Finds) ∨
    ∃ before name slot, t = before ++ [.read name slot none] ∧ (∀ event ∈ before, event.Finds)
      ∧ ∃ e m, r = .error (.error e) m ∧ e.kind = .undefinedVariable (names.text name)

theorem Action.finds_trace {action : Action} {m : Machine}
    (h : ∀ name slot, action ≠ .read name slot) : ∀ event ∈ action.trace m, event.Finds := by
  cases action with
  | read name slot => exact absurd rfl (h name slot)
  | yield | stop | call => exact nofun
  | store slot v => simp [trace, Event.Finds]
  | step slot delta fixity =>
    simp only [trace]
    split <;> simp [Event.Finds]
  | storeAt slot keys v =>
    simp only [trace]
    split <;> simp [Event.Finds]
  | unset slots => simp [trace, Event.Finds]

section Strict

variable {i : Interpreter} (hpolicy : i.policy = .strict)

include hpolicy

theorem Interpreter.undefined_of_strict (name : Name) :
    i.undefined name = fail (.undefinedVariable (i.names.text name)) := by
  rw [undefined, hpolicy]

theorem Action.stops_at_undefined (action : Action) (m : Machine) :
    Trace.StopsAtUndefined i.names (action.trace m) (action.run i m) := by
  by_cases hread : ∃ name slot, action = .read name slot
  · -- a read has one event, and finds nothing exactly when it fails
    obtain ⟨name, slot, rfl⟩ := hread
    have hmissing (found : Option Value) (hfound : found = none) {x : Eval Value}
        (hx : x m = i.undefined name m) :
        Trace.StopsAtUndefined i.names [.read name slot found] (x m) := by
      subst hfound
      rw [i.undefined_of_strict hpolicy] at hx
      exact .inr ⟨[], name, slot, rfl, nofun, _, _, hx, rfl⟩
    cases slot with
    | none => exact hmissing none rfl rfl
    | some slot =>
      cases hget : m.frame.get? slot with
      | none =>
        have hread : i.readVar name (some slot) m = i.undefined name m := by
          simp only [Interpreter.readVar, bind, EStateM.bind, read?, hget]
        exact hmissing (m.frame.get? slot) hget hread
      | some v =>
        refine .inl fun event hevent => ?_
        rw [List.mem_singleton.1 hevent, Option.bind_some, hget]
        trivial
  · exact .inl (finds_trace fun name slot h => hread ⟨name, slot, h⟩)

theorem Plan.stops_at_undefined {eval : NodeId → Eval Value} {trace : NodeId → Machine → Trace}
    (h : ∀ id m, Trace.StopsAtUndefined i.names (trace id m) (eval id m)) (plan : Plan)
    (m : Machine) :
    Trace.StopsAtUndefined i.names (plan.trace eval trace m) (plan.run i eval m) := by
  induction plan generalizing m with
  | act action => exact action.stops_at_undefined hpolicy m
  | operand id rest ih =>
    have hid := h id m
    have hrun : (Plan.operand id rest).run i eval m = EStateM.bind (eval id)
      (fun v => (rest v).run i eval) m := rfl
    rw [Plan.trace, hrun, EStateM.bind]
    cases heval : eval id m with
    | error why m' =>
      rw [heval] at hid
      rw [List.append_nil]
      exact hid
    | ok v m' =>
      rw [heval] at hid
      -- an operand with a value has found all it read, so only what follows can end here
      obtain hall | ⟨_, _, _, _, _, _, _, hstop, _⟩ := hid
      · obtain hrest | ⟨before, name, slot, htrace, hbefore, herror⟩ := ih v m'
        · exact .inl (List.forall_mem_append.2 ⟨hall, hrest⟩)
        · refine .inr ⟨trace id m ++ before, name, slot, ?_, ?_, herror⟩
          · show trace id m ++ (rest v).trace eval trace m' = _
            rw [htrace, List.append_assoc]
          · exact List.forall_mem_append.2 ⟨hall, hbefore⟩
      · cases hstop

/-- Under the strict policy a read that finds nothing is the last event of an evaluation, which
fails with the error for that variable. -/
theorem trace_stops_at_undefined (code : Code) (fuel : Nat) (id : NodeId) (m : Machine) :
    Trace.StopsAtUndefined i.names (i.trace code fuel id m) (i.eval code fuel id m) := by
  induction fuel generalizing id m with
  | zero => exact .inl (List.forall_mem_nil _)
  | succ fuel ih =>
    unfold Interpreter.trace Interpreter.eval
    cases code.get? id with
    | none => exact .inl (List.forall_mem_nil _)
    | some node =>
      obtain ⟨node, span⟩ := node
      have hplan := Plan.stops_at_undefined hpolicy ih (node.plan code) m
      simp only [located, step_eq_run_plan]
      obtain hall | ⟨before, name, slot, htrace, hbefore, e, m', herror, hkind⟩ := hplan
      · exact .inl hall
      · refine .inr ⟨before, name, slot, htrace, hbefore, e.attachSpan span, m', ?_, ?_⟩
        · rw [herror]
          rfl
        · rw [EvalError.kind_attachSpan, hkind]

end Strict

end ExprCore
