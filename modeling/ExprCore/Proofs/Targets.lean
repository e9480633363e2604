import ExprCore.Compilation
import ExprCore.Proofs.OwnActions
import ExprCore.Proofs.Trace

/-!
# What an evaluation writes

The nodes of code say which variables they may write or clear. An evaluation changes the frame only
by writes to these variables, whether it succeeds or not. In particular a frame that has room for
them keeps its length.

## Main definitions

- `Frame.Rewritten`: the frame after some writes to slots of a kind
- `Code.targets`: the variables that a node may write or clear
- `Code.IsTarget`: a variable that some node may write or clear

## Main statements

- `Action.writes_run`: what one action writes
- `Node.acts_on_targets`: the actions of a node write its targets only
- `Interpreter.writes_evaluate`: an evaluation writes the targets of its code only
- `only_targets_change`: so every other variable keeps its state and its value
-/

namespace ExprCore

open Eval

/-- The second frame is the first one after some writes to slots that satisfy `P`. -/
inductive Frame.Rewritten (P : Slot → Prop) (f : Frame) : Frame → Prop where
  | refl : Rewritten P f f
  | write {g slot} (cell : Cell) (hslot : P slot) (h : Rewritten P f g) :
      Rewritten P f (g.write slot cell)

namespace Frame.Rewritten

variable {P : Slot → Prop} {f g : Frame}

theorem trans {k : Frame} (hfg : f.Rewritten P g) (hgk : g.Rewritten P k) : f.Rewritten P k := by
  induction hgk with
  | refl => exact hfg
  | write cell hslot _ ih => exact .write cell hslot ih

theorem imp {Q : Slot → Prop} (himp : ∀ slot, P slot → Q slot) (h : f.Rewritten P g) :
    f.Rewritten Q g := by
  induction h with
  | refl => exact .refl
  | write cell hslot _ ih => exact .write cell (himp _ hslot) ih

/-- A frame that has a cell for every slot that is written keeps its length. -/
theorem size_eq (h : f.Rewritten P g) (hroom : ∀ slot, P slot → slot.index < f.size) :
    g.size = f.size := by
  induction h with
  | refl => rfl
  | write cell hslot _ ih =>
    rw [size_write, ih]
    exact Nat.max_eq_left (hroom _ hslot)

theorem size_le (h : f.Rewritten P g) : f.size ≤ g.size := by
  induction h with
  | refl => exact Nat.le_refl _
  | write cell _ _ ih =>
    rw [size_write]
    exact Nat.le_trans ih (Nat.le_max_left _ _)

/-- A slot that is not written keeps its cell, also when the frame grows over it. -/
theorem cell_eq (h : f.Rewritten P g) {slot : Slot} (hslot : ¬ P slot) :
    g.cell slot = f.cell slot := by
  induction h with
  | refl => rfl
  | write cell hwritten _ ih =>
    have hne : slot ≠ _ := fun heq => hslot (heq ▸ hwritten)
    rw [cell_write_of_ne cell hne, ih]

theorem unset {slots : List Slot} (hslots : ∀ slot ∈ slots, P slot) (f : Frame) :
    f.Rewritten P (slots.foldl Frame.unset f) := by
  induction slots generalizing f with
  | nil => exact .refl
  | cons slot slots ih =>
    rw [List.forall_mem_cons] at hslots
    exact trans (.write .unset hslots.1 .refl) (ih hslots.2 _)

end Frame.Rewritten

/-- The step changes the frame only by writes to slots that satisfy `P`. -/
def Eval.Writes {α : Type} (P : Slot → Prop) (x : Eval α) : Prop :=
  ∀ m : Machine, m.frame.Rewritten P (x.after m).frame

namespace Eval.Writes

variable {P : Slot → Prop} {α β : Type}

theorem of_frame_eq {x : Eval α} (h : ∀ m, (x.after m).frame = m.frame) : Writes P x := by
  intro m
  rw [h]
  exact .refl

theorem bind {x : Eval α} {f : α → Eval β} (hx : Writes P x) (hf : ∀ a, Writes P (f a)) :
    Writes P (x >>= f) := by
  intro m
  have hfirst := hx m
  unfold Eval.after at hfirst
  cases hresult : x m with
  | ok a m' =>
    rw [hresult] at hfirst
    rw [after_bind_of_ok hresult]
    exact hfirst.trans (hf a m')
  | error why m' =>
    rw [hresult] at hfirst
    rw [after_bind_of_error hresult]
    exact hfirst

theorem located (span : Span) {x : Eval α} (hx : Writes P x) : Writes P (Eval.located span x) := by
  intro m
  rw [after_located]
  exact hx m

theorem compositional : Compositional fun x _ => Writes P x where
  badCode := of_frame_eq fun _ => rfl
  bind := bind
  located span _ _ hx := located span hx

end Eval.Writes

/-- The variables that an action writes or clears. -/
def Action.targets : Action → List Slot
  | store slot _ | step slot _ _ | storeAt slot _ _ => [slot]
  | unset slots => slots
  | yield _ | stop _ | read .. | call .. => []

theorem Action.writes_run (i : Interpreter) (action : Action) :
    Writes (· ∈ action.targets) (action.run i) := by
  cases action with
  | yield | stop => exact .of_frame_eq fun _ => rfl
  | read name slot =>
    refine .of_frame_eq fun m => ?_
    rw [run, Interpreter.after_readVar]
  | call name scope arguments => exact .of_frame_eq (i.frame_after_call name scope arguments)
  | store slot v => exact fun m => .write _ (List.mem_singleton_self slot) .refl
  | unset slots => exact fun m => .unset (fun _ => id) m.frame
  | step slot delta fixity =>
    have hstore (v : Value) : Writes (· ∈ [slot]) (Eval.store slot v) :=
      fun m => .write _ (List.mem_singleton_self slot) .refl
    have hincrement (v : Value) : Writes (· ∈ [slot]) (Eval.ofExcept (increment v delta)) := by
      cases increment v delta <;> exact .of_frame_eq fun _ => rfl
    refine Writes.bind (.of_frame_eq fun _ => rfl) fun current => ?_
    refine (hincrement current).bind fun updated => (hstore updated).bind fun _ => ?_
    cases fixity <;> exact .of_frame_eq fun _ => rfl
  | storeAt slot keys v =>
    refine Writes.bind (fun m => ?_) fun _ => .of_frame_eq fun _ => rfl
    obtain ⟨frame, calls⟩ := m
    simp only [Eval.after, storeAt_eq]
    cases (frame.content slot).storeAt keys v with
    | error e => exact .refl
    | ok array =>
      -- the `null` that stands in the slot meanwhile is one write more
      have hslot := List.mem_singleton_self slot
      exact .write (.set array) hslot (.write (.set .null) hslot .refl)

/-- The variables that a node may write or clear. -/
def Code.targets (code : Code) : Node → List Slot
  | .assign slot _ | .step slot _ _ => [slot]
  | .storeElement target position _ =>
    match code.place? code.size target [position] with
    | .ok (slot, _) => [slot]
    | .error _ => []
  | .unset slots => code.slots.read slots
  | .int _ | .float _ | .bool _ | .var .. | .unary .. | .binary .. | .list _ | .index .. | .call ..
  | .sequence _ => []

/-- Some node of the code may write or clear the variable. -/
def Code.IsTarget (code : Code) (slot : Slot) : Prop :=
  ∃ id node span, code.get? id = some ⟨node, span⟩ ∧ slot ∈ code.targets node

/-- The action that a node comes to writes the targets of the node only. -/
theorem Node.acts_on_targets (code : Code) (node : Node) :
    (node.plan code).Acts fun action => action.targets ⊆ code.targets node := by
  refine (node.acts_of code).imp fun action hof => ?_
  cases action with
  | yield | stop | read | call => exact List.nil_subset _
  | step slot delta fixity =>
    cases hof
    exact List.Subset.refl _
  | store slot v =>
    obtain ⟨value, rfl⟩ := hof
    exact List.Subset.refl _
  | unset slots =>
    obtain ⟨segment, rfl, rfl⟩ := hof
    exact List.Subset.refl _
  | storeAt slot keys v =>
    obtain ⟨target, position, value, path, rfl, hplace⟩ := hof
    simp only [Code.targets, hplace]
    exact List.Subset.refl _

/-- An evaluation writes the targets of its code only, whether it succeeds or not. -/
theorem Interpreter.writes_evaluate (i : Interpreter) (c : Compiled) :
    Writes c.code.IsTarget (i.evaluate c) := by
  refine Writes.compositional.evaluate i i fun node hnode => ?_
  obtain ⟨id, span, hget⟩ := hnode
  refine (node.acts_on_targets c.code).imp fun action htargets m => ?_
  exact (action.writes_run i m).imp fun slot hslot => ⟨id, node, span, hget, htargets hslot⟩

/-- An evaluation, whether it succeeds or not, leaves every variable as it was that no node of the
code assigns, steps, clears or writes an element of: unset, set to the same value or never written,
which it may also be beyond the end of the frame. The frame never gets shorter. -/
theorem only_targets_change (i : Interpreter) (c : Compiled) (m : Machine) :
    m.frame.size ≤ ((i.evaluate c).after m).frame.size
      ∧ ∀ slot, ¬ c.code.IsTarget slot →
          ((i.evaluate c).after m).frame.cell slot = m.frame.cell slot := by
  have hwrites := i.writes_evaluate c m
  exact ⟨hwrites.size_le, fun slot hslot => hwrites.cell_eq hslot⟩

/-- `+($b = $a)`, which fails once the array of `$a` stands in `$b`, too: on a frame of one cell,
which holds `$a`, that cell is kept while the frame grows. -/
theorem only_targets_change_failed :
    let scope := (Scope.root.define ⟨1⟩).2
    let copy : Expr := .mk .dummy (.assign .equal (.mk .dummy (.var ⟨2⟩)) (.mk .dummy (.var ⟨1⟩)))
    let i : Interpreter := ⟨.new, .none, .strict⟩
    let m : Machine := ⟨Frame.empty.set ⟨0⟩ (.array #[.null]), #[]⟩
    ∃ c scope' m', compile .new scope (some (.mk .dummy (.unary .plus copy))) = ⟨.ok c, scope'⟩
      ∧ i.evaluate c m = .error (.error (.invalidUnaryOp .plus "array")) m'
      ∧ m'.frame.size = 2 ∧ ¬ c.code.IsTarget ⟨0⟩
      ∧ ((i.evaluate c).after m).frame.cell ⟨0⟩ = .set (.array #[.null]) := by
  refine ⟨_, _, _, rfl, rfl, rfl, ?_⟩
  refine (and_iff_left_of_imp fun hslot => (only_targets_change _ _ _).2 _ hslot).2 ?_
  -- the only target is the variable of the second node
  rintro ⟨⟨_ | _ | _ | n⟩, node, span, hget, hslot⟩ <;> cases hget
  · exact List.not_mem_nil hslot
  · exact absurd (List.mem_singleton.1 hslot) (by decide)
  · exact List.not_mem_nil hslot

end ExprCore
