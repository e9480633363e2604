import ExprCore.Proofs.Slots

/-!
# What an evaluation depends on

An evaluation only depends on what the variables that stand in its code can be read as. Two frames
that read alike there may differ in their lengths and in all other variables, and a variable that
was never written may hold `null` in the other frame: the result is the same, and so are the
requests, and afterwards the frames read alike again.

## Main definitions

- `Code.Mentions`: a variable stands in some node of the code
- `Machine.ReadsAlike`: two machines that cannot be told apart by reading some variables
- `Eval.SameOutcome`: the same value or the same reason to stop, on machines that read alike
- `Eval.DependsOn`: a step that depends on no other variables

## Main statements

- `Action.dependsOn_run`: what one action depends on
- `Node.acts_on_mentioned`: the actions of a node look at variables that the code mentions
- `only_mentioned_slots_matter`: evaluations on machines that read alike
-/

namespace ExprCore

open Eval

/-- The variable stands in some node of the code. -/
def Code.Mentions (code : Code) (slot : Slot) : Prop :=
  ∃ id node span, code.get? id = some ⟨node, span⟩ ∧ slot ∈ code.slotsOf node

/-- Reads of the slots that satisfy `P` yield the same on both machines, and the requests made so
far are the same. -/
structure Machine.ReadsAlike (P : Slot → Prop) (m n : Machine) : Prop where
  reads : ∀ slot, P slot → m.frame.get? slot = n.frame.get? slot
  calls : m.calls = n.calls

namespace Machine.ReadsAlike

variable {P : Slot → Prop} {m n : Machine} {slot : Slot}

theorem content (h : m.ReadsAlike P n) (hslot : P slot) :
    m.frame.content slot = n.frame.content slot := by
  have hread : (m.frame.cell slot).get? = (n.frame.cell slot).get? := h.reads slot hslot
  rw [Frame.content, Frame.content, Cell.content_eq_getD, Cell.content_eq_getD, hread]

/-- The same write on both sides hides no difference and makes none. -/
theorem write (h : m.ReadsAlike P n) (slot : Slot) (cell : Cell) :
    Machine.ReadsAlike P ⟨m.frame.write slot cell, m.calls⟩ ⟨n.frame.write slot cell, n.calls⟩ := by
  refine ⟨fun other hother => ?_, h.calls⟩
  simp only [Frame.get?]
  by_cases heq : other = slot
  · rw [heq, Frame.cell_write_self, Frame.cell_write_self]
  · rw [Frame.cell_write_of_ne cell heq, Frame.cell_write_of_ne cell heq]
    exact h.reads other hother

theorem unset (h : m.ReadsAlike P n) (slots : List Slot) :
    Machine.ReadsAlike P ⟨slots.foldl Frame.unset m.frame, m.calls⟩
      ⟨slots.foldl Frame.unset n.frame, n.calls⟩ := by
  induction slots generalizing m n with
  | nil => exact h
  | cons slot slots ih => exact ih (h.write slot .unset)

/-- The same request is recorded on both sides. -/
theorem request (h : m.ReadsAlike P n) (request : CallRequest) :
    Machine.ReadsAlike P ⟨m.frame, m.calls.push request⟩ ⟨n.frame, n.calls.push request⟩ :=
  ⟨h.reads, congrArg (·.push request) h.calls⟩

end Machine.ReadsAlike

namespace Eval

variable {α β : Type} {P : Slot → Prop}

/-- The same value, or the same reason to stop, on machines that read alike. -/
def SameOutcome (P : Slot → Prop) :
    EStateM.Result Stop Machine α → EStateM.Result Stop Machine α → Prop
  | .ok a m, .ok b n => a = b ∧ m.ReadsAlike P n
  | .error why m, .error why' n => why = why' ∧ m.ReadsAlike P n
  | _, _ => False

/-- The step has the same outcome on machines that read alike. -/
def DependsOn (P : Slot → Prop) (x : Eval α) : Prop :=
  ∀ m n : Machine, m.ReadsAlike P n → SameOutcome P (x m) (x n)

namespace DependsOn

theorem pure (a : α) : DependsOn P (Pure.pure a : Eval α) := fun _ _ h => ⟨rfl, h⟩

theorem throw (why : Stop) : DependsOn P (MonadExcept.throw why : Eval α) := fun _ _ h => ⟨rfl, h⟩

theorem ofExcept (r : Except EvalError α) : DependsOn P (Eval.ofExcept r) := by
  cases r with
  | ok a => exact pure a
  | error e => exact throw (.error e)

theorem bind {x : Eval α} {f : α → Eval β} (hx : DependsOn P x) (hf : ∀ a, DependsOn P (f a)) :
    DependsOn P (x >>= f) := by
  intro m n h
  have hfirst := hx m n h
  simp only [Bind.bind, EStateM.bind]
  cases hm : x m <;> cases hn : x n <;> simp only [hm, hn, SameOutcome] at hfirst
  · obtain ⟨rfl, halike⟩ := hfirst
    exact hf _ _ _ halike
  · exact hfirst

theorem located (span : Span) {x : Eval α} (hx : DependsOn P x) :
    DependsOn P (Eval.located span x) := by
  intro m n h
  have hinner := hx m n h
  simp only [Eval.located]
  cases hm : x m <;> cases hn : x n <;> simp only [hm, hn, SameOutcome] at hinner
  · exact hinner
  · obtain ⟨rfl, halike⟩ := hinner
    exact ⟨rfl, halike⟩

theorem compositional : Compositional fun x _ => DependsOn P x where
  badCode := throw .badCode
  bind := bind
  located span _ _ hx := located span hx

variable {slot : Slot}

theorem read? (hslot : P slot) : DependsOn P (Eval.read? slot) :=
  fun _ _ h => ⟨h.reads slot hslot, h⟩

theorem content (hslot : P slot) : DependsOn P (Eval.content slot) :=
  fun _ _ h => ⟨h.content hslot, h⟩

theorem store (slot : Slot) (v : Value) : DependsOn P (Eval.store slot v) :=
  fun _ _ h => ⟨rfl, h.write slot (.set v)⟩

theorem unset (slots : List Slot) : DependsOn P (Eval.unset slots) :=
  fun _ _ h => ⟨rfl, h.unset slots⟩

/-- A write to an element starts from the content of the variable: `null` for one that was never
written, for one that was cleared, and for one that holds `null`. -/
theorem storeAt (hslot : P slot) (keys : List Key) (v : Value) :
    DependsOn P (Eval.storeAt slot keys v) := by
  rintro ⟨frame, calls⟩ ⟨frame', calls'⟩ h
  have hcontent : frame.content slot = frame'.content slot := h.content hslot
  rw [storeAt_eq, storeAt_eq, hcontent]
  cases (frame'.content slot).storeAt keys v with
  | error e => exact ⟨rfl, h⟩
  | ok array => exact ⟨rfl, (h.write slot (.set .null)).write slot (.set array)⟩

theorem lookup (registry : Registry) (name : String) (scope : ScopeId) :
    DependsOn P (Eval.lookup registry name scope) := by
  rintro ⟨frame, calls⟩ ⟨frame', calls'⟩ h
  obtain rfl : calls = calls' := h.calls
  exact ⟨rfl, h.request _⟩

theorem invoke (registry : Registry) (target : CallTarget) (arguments : List Value) :
    DependsOn P (Eval.invoke registry target arguments) := by
  rintro ⟨frame, calls⟩ ⟨frame', calls'⟩ h
  obtain rfl : calls = calls' := h.calls
  exact ofExcept (registry.invoke calls target arguments) _ _ (h.request _)

end DependsOn

end Eval

section Actions

variable (i : Interpreter) {P : Slot → Prop}

theorem Interpreter.dependsOn_undefined (name : Name) : DependsOn P (i.undefined name) := by
  unfold undefined
  cases i.policy with
  | strict => exact .throw _
  | lenient => exact .pure _

theorem Interpreter.dependsOn_readVar (name : Name) {slot : Option Slot}
    (hslot : ∀ x, slot = some x → P x) : DependsOn P (i.readVar name slot) := by
  cases slot with
  | none => exact i.dependsOn_undefined name
  | some slot =>
    refine (DependsOn.read? (hslot slot rfl)).bind fun v => ?_
    cases v with
    | none => exact i.dependsOn_undefined name
    | some v => exact .pure v

theorem Interpreter.dependsOn_call (name : Name) (scope : ScopeId) (arguments : List Value) :
    DependsOn P (i.call name scope arguments) := by
  refine (DependsOn.lookup _ _ _).bind fun target => ?_
  cases target with
  | none => exact .throw _
  | some target => exact .invoke _ _ _

/-- The variables that an action looks at or writes. -/
def Action.slots : Action → List Slot
  | read _ slot => slot.toList
  | store slot _ | step slot _ _ | storeAt slot _ _ => [slot]
  | unset slots => slots
  | yield _ | stop _ | call .. => []

theorem Action.dependsOn_run {action : Action} (h : ∀ slot ∈ action.slots, P slot) :
    DependsOn P (action.run i) := by
  cases action with
  | yield v => exact .pure v
  | stop why => exact .throw why
  | read name slot => exact i.dependsOn_readVar name fun x hx => h x (Option.mem_toList.2 hx)
  | store slot v => exact (DependsOn.store slot v).bind fun _ => .pure v
  | step slot delta fixity =>
    refine (DependsOn.content (h slot (List.mem_singleton_self slot))).bind fun current => ?_
    refine (DependsOn.ofExcept _).bind fun updated => ?_
    refine (DependsOn.store slot updated).bind fun _ => ?_
    cases fixity <;> exact .pure _
  | storeAt slot keys v =>
    refine (DependsOn.storeAt (h slot (List.mem_singleton_self slot)) keys v).bind fun _ => ?_
    exact .pure v
  | unset slots => exact (DependsOn.unset slots).bind fun _ => .pure _
  | call name scope arguments => exact i.dependsOn_call name scope arguments

end Actions

/-- The variable that a target leads to stands in the last node of the way. -/
theorem Code.mentions_of_place? {code : Code} {fuel : Nat} {target : NodeId}
    {keys path : List (Option NodeId)} {slot : Slot}
    (h : code.place? fuel target keys = .ok (slot, path)) : code.Mentions slot := by
  induction fuel generalizing target keys with
  | zero => cases h
  | succ fuel ih =>
    simp only [place?] at h
    split at h
    · cases h
    · rename_i name found span hget
      cases h
      exact ⟨target, _, span, hget, List.mem_singleton_self slot⟩
    · exact ih h
    · cases h

theorem Node.acts_on_mentioned {code : Code} {node : Node} {id : NodeId} {span : Span}
    (hget : code.get? id = some ⟨node, span⟩) :
    (node.plan code).Acts fun action => ∀ slot ∈ action.slots, code.Mentions slot := by
  refine (node.acts_of code).imp fun action hof slot hslot => ?_
  cases action with
  | yield | stop | call => exact absurd hslot List.not_mem_nil
  | read name found =>
    cases hof
    exact ⟨id, _, span, hget, hslot⟩
  | step other delta fixity =>
    cases hof
    exact ⟨id, _, span, hget, hslot⟩
  | store other v =>
    obtain ⟨value, rfl⟩ := hof
    exact ⟨id, _, span, hget, hslot⟩
  | unset slots =>
    obtain ⟨segment, rfl, rfl⟩ := hof
    exact ⟨id, _, span, hget, hslot⟩
  | storeAt other keys v =>
    obtain ⟨target, position, value, path, rfl, hplace⟩ := hof
    rw [List.mem_singleton.1 hslot]
    exact Code.mentions_of_place? hplace

/-- Evaluations of the same code on two machines have the same outcome when the variables that stand
in the code read alike, whatever else the frames hold and however long they are. Afterwards these
variables read alike again, also when the evaluation fails. -/
theorem only_mentioned_slots_matter (i : Interpreter) (c : Compiled) {m n : Machine}
    (h : m.ReadsAlike c.code.Mentions n) :
    SameOutcome c.code.Mentions (i.evaluate c m) (i.evaluate c n) := by
  have hdepends : DependsOn c.code.Mentions (i.evaluate c) := by
    refine DependsOn.compositional.evaluate i i fun node hnode => ?_
    obtain ⟨id, span, hget⟩ := hnode
    exact (Node.acts_on_mentioned hget).imp fun action => action.dependsOn_run i
  exact hdepends m n h

/-- `+($a[] = [])`, which fails after its write, on a frame without cells and on one of three cells
where `$a` holds `null` and a variable that is not mentioned was cleared. -/
theorem only_mentioned_slots_matter_vacant :
    let a : Expr := .mk .dummy (.var ⟨1⟩)
    let append : Expr := .mk .dummy
      (.assign .equal (.mk .dummy (.access .indexed a none)) (.mk .dummy (.array [])))
    let i : Interpreter := ⟨.new, .none, .strict⟩
    let m : Machine := ⟨.empty, #[]⟩
    let n : Machine := ⟨((Frame.ofCount 3).set ⟨0⟩ .null).unset ⟨2⟩, #[]⟩
    ∃ c scope m' n' why,
      compile .new .root (some (.mk .dummy (.unary .plus append))) = ⟨.ok c, scope⟩
      ∧ i.evaluate c m = .error why m' ∧ i.evaluate c n = .error why n'
      ∧ m'.frame.size = 1 ∧ n'.frame.size = 3 ∧ m.frame.get? ⟨2⟩ ≠ n.frame.get? ⟨2⟩
      ∧ m.ReadsAlike c.code.Mentions n
      ∧ SameOutcome c.code.Mentions (i.evaluate c m) (i.evaluate c n) := by
  refine ⟨_, _, _, _, _, rfl, rfl, rfl, rfl, rfl, nofun, ?_⟩
  refine (and_iff_left_of_imp (only_mentioned_slots_matter _ _)).2 ⟨?_, rfl⟩
  -- the only variable in the code is that of the second node
  rintro slot ⟨⟨_ | _ | _ | _ | n⟩, node, span, hget, hslot⟩ <;> cases hget
  · exact absurd hslot List.not_mem_nil
  · rw [List.mem_singleton.1 hslot]
    rfl
  · exact absurd hslot List.not_mem_nil
  · exact absurd hslot List.not_mem_nil

end ExprCore
