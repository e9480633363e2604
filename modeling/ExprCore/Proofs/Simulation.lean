import ExprCore.Proofs.NameBased

/-!
# Simulation of steps by name

An evaluation on slots and a run by name are in step when they have the same outcome: the same
value, or the same error, the same requests to the registry, and the same contents of all variables.

## Main definitions

- `Frame.byName`, `Machine.byName`: the contents of the variables by name, through a scope
- `Simulates`: one step on slots does what one step by name does

## Main statements

- `Simulates.bind` and the other rules: steps put together from simulated steps are simulated
-/

namespace ExprCore

/-- The contents of the variables by name. A name that is not bound is vacant. -/
def Frame.byName (f : Frame) (scope : Scope) (name : Name) : Cell :=
  match scope.find? name with
  | some slot => f.cell slot
  | none => .vacant

def Machine.byName (m : Machine) (scope : Scope) : Env := ⟨m.frame.byName scope, m.calls⟩

theorem Frame.byName_of_find? {f : Frame} {scope : Scope} {name : Name} {slot : Slot}
    (h : scope.find? name = some slot) : f.byName scope name = f.cell slot := by
  simp [byName, h]

/-- A write to the slot of a name changes the content of that name and of no other one. -/
theorem Machine.byName_write {f : Frame} {calls : CallLog} {scope : Scope} {name : Name}
    {slot : Slot} (h : scope.find? name = some slot) (c : Cell) :
    Machine.byName ⟨f.write slot c, calls⟩ scope
      = (Machine.byName ⟨f, calls⟩ scope).put name c := by
  simp only [byName, Env.put, Env.mk.injEq, and_true]
  funext other
  -- other names have other slots, since a scope never gives one slot to two names
  by_cases hname : other = name
  · subst hname
    rw [Frame.byName_of_find? h, if_pos rfl, Frame.cell_write_self]
  · rw [if_neg hname]
    cases hother : scope.find? other with
    | none => simp [Frame.byName, hother]
    | some slot' =>
      have hslot : slot' ≠ slot := by
        intro heq
        exact hname (Scope.find?_injective (heq ▸ hother) h)
      rw [Frame.byName_of_find? hother, Frame.byName_of_find? hother,
        Frame.cell_write_of_ne c hslot]

theorem Env.put_put (env : Env) (name : Name) (c d : Cell) :
    (env.put name c).put name d = env.put name d := by
  simp only [put, mk.injEq, and_true]
  funext other
  by_cases h : other = name
  · rw [if_pos h, if_pos h]
  · rw [if_neg h, if_neg h, if_neg h]

/-- By name, a variable reads as its cell would in a frame. -/
theorem Run.read?_eq (name : Name) (env : Env) :
    Run.read? name env = .ok (env.vars name).get? env := by
  unfold Run.read?
  cases env.vars name <;> rfl

theorem Run.content_eq (name : Name) (env : Env) :
    Run.content name env = .ok (env.vars name).content env := by
  unfold Run.content
  cases env.vars name <;> rfl

/-- The same outcome on slots and by name. -/
def Agree {α : Type} (scope : Scope) :
    EStateM.Result Stop Machine α → EStateM.Result EvalError Env α → Prop
  | .ok a m, .ok b env => a = b ∧ m.byName scope = env
  | .error (.error e) m, .error e' env => e = e' ∧ m.byName scope = env
  | _, _ => False

/-- On every machine, `x` has the outcome that `y` has on what the machine holds by name. -/
def Simulates {α : Type} (scope : Scope) (x : Eval α) (y : Run α) : Prop :=
  ∀ m, Agree scope (x m) (y (m.byName scope))

namespace Simulates

variable {α β : Type} {scope : Scope}

theorem pure (a : α) : Simulates scope (Pure.pure a) (Pure.pure a) := fun _ => ⟨rfl, rfl⟩

theorem fail (e : EvalError) : Simulates scope (Eval.fail e : Eval α) (throw e) :=
  fun _ => ⟨rfl, rfl⟩

theorem ofExcept (r : Except EvalError α) :
    Simulates scope (Eval.ofExcept r) (MonadExcept.ofExcept r) := by
  cases r with
  | ok a => exact pure a
  | error e => exact fail e

theorem bind {x : Eval α} {y : Run α} {f : α → Eval β} {g : α → Run β}
    (hx : Simulates scope x y) (hf : ∀ a, Simulates scope (f a) (g a)) :
    Simulates scope (x >>= f) (y >>= g) := by
  intro m
  have h := hx m
  show Agree scope (EStateM.bind x f m) (EStateM.bind y g (m.byName scope))
  unfold EStateM.bind
  cases hxm : x m with
  | ok a m' =>
    rw [hxm] at h
    cases hym : y (m.byName scope) with
    | ok b env =>
      rw [hym] at h
      obtain ⟨rfl, rfl⟩ := h
      exact hf a m'
    | error e env =>
      rw [hym] at h
      exact h.elim
  | error stop m' =>
    rw [hxm] at h
    cases hym : y (m.byName scope) with
    | ok b env =>
      rw [hym] at h
      cases stop <;> exact h.elim
    | error e env =>
      rw [hym] at h
      cases stop with
      | error e' => exact h
      | badCode => exact h.elim

theorem located {x : Eval α} {y : Run α} (span : Span) (hx : Simulates scope x y) :
    Simulates scope (Eval.located span x) (Run.located span y) := by
  intro m
  have h := hx m
  unfold Eval.located Run.located
  cases hxm : x m with
  | ok a m' =>
    rw [hxm] at h
    cases hym : y (m.byName scope) with
    | ok b env =>
      rw [hym] at h
      exact h
    | error e env =>
      rw [hym] at h
      exact h.elim
  | error stop m' =>
    rw [hxm] at h
    cases hym : y (m.byName scope) with
    | ok b env =>
      rw [hym] at h
      cases stop <;> exact h.elim
    | error e env =>
      rw [hym] at h
      cases stop with
      | error e' =>
        obtain ⟨rfl, rfl⟩ := h
        exact ⟨rfl, rfl⟩
      | badCode => exact h.elim

section Variables

variable {name : Name} {slot : Slot} (h : scope.find? name = some slot)

include h

theorem read? : Simulates scope (Eval.read? slot) (Run.read? name) := by
  intro m
  rw [Run.read?_eq]
  refine ⟨?_, rfl⟩
  show m.frame.get? slot = (m.frame.byName scope name).get?
  rw [Frame.byName_of_find? h]
  rfl

theorem content : Simulates scope (Eval.content slot) (Run.content name) := by
  intro m
  rw [Run.content_eq]
  refine ⟨?_, rfl⟩
  show m.frame.content slot = (m.frame.byName scope name).content
  rw [Frame.byName_of_find? h]
  rfl

theorem store (v : Value) : Simulates scope (Eval.store slot v) (Run.store name v) :=
  fun _ => ⟨rfl, Machine.byName_write h _⟩

theorem storeAt (keys : List Key) (v : Value) :
    Simulates scope (Eval.storeAt slot keys v) (Run.storeAt name keys v) := by
  rintro ⟨frame, calls⟩
  have hcontent : (frame.byName scope name).content = frame.content slot := by
    rw [Frame.byName_of_find? h]
    rfl
  have hrun : Run.storeAt name keys v (Machine.byName ⟨frame, calls⟩ scope)
      = (MonadExcept.ofExcept ((frame.content slot).storeAt keys v) >>= Run.store name : Run Unit)
          (Machine.byName ⟨frame, calls⟩ scope) := by
    rw [← hcontent]
    simp only [Run.storeAt, Bind.bind, EStateM.bind, Run.content_eq]
    rfl
  rw [hrun, Eval.storeAt_eq]
  cases (frame.content slot).storeAt keys v with
  | error e => exact ⟨rfl, rfl⟩
  | ok array =>
    refine ⟨rfl, ?_⟩
    -- the slot holds `null` while its array is rewritten, which no name sees in the end
    have htwice : Machine.byName ⟨(frame.set slot .null).set slot array, calls⟩ scope
        = ((Machine.byName ⟨frame, calls⟩ scope).put name (.set .null)).put name (.set array) := by
      rw [Frame.set, Machine.byName_write h, Frame.set, Machine.byName_write h]
    rw [htwice]
    exact Env.put_put _ _ _ _

end Variables

/-- Clearing the slots of the names that are in sight clears those names. -/
theorem unset {s : Scope} (hs : s.Extends scope) (names : List Name) :
    Simulates scope (Eval.unset (names.filterMap s.find?)) (Run.unset (names.filter s.sight)) := by
  rintro ⟨frame, calls⟩
  refine ⟨rfl, ?_⟩
  -- the slots that are cleared are those of the names in sight, in the same order
  show Machine.byName ⟨(names.filterMap s.find?).foldl Frame.unset frame, calls⟩ scope
    = (names.filter s.sight).foldl (fun env name => env.put name .unset)
        (Machine.byName ⟨frame, calls⟩ scope)
  induction names generalizing frame with
  | nil => rfl
  | cons name names ih =>
    cases hname : s.find? name with
    | none =>
      have hsight : s.sight name = false := by simp [Scope.sight, hname]
      rw [List.filterMap_cons_none hname, List.filter_cons_of_neg (by simp [hsight])]
      exact ih frame
    | some slot =>
      have hsight : s.sight name = true := by simp [Scope.sight, hname]
      rw [List.filterMap_cons_some hname, List.filter_cons_of_pos hsight, List.foldl_cons,
        List.foldl_cons, ih, Frame.unset, Machine.byName_write (hs hname)]

theorem lookup (registry : Registry) (name : String) (id : ScopeId) :
    Simulates scope (Eval.lookup registry name id) (Run.lookup registry name id) :=
  fun _ => ⟨rfl, rfl⟩

theorem invoke (registry : Registry) (target : CallTarget) (arguments : List Value) :
    Simulates scope (Eval.invoke registry target arguments)
      (Run.invoke registry target arguments) := by
  rintro ⟨frame, calls⟩
  cases hresult : registry.invoke calls target arguments with
  | ok v =>
    simp only [Eval.invoke, Run.invoke, Machine.byName, hresult]
    exact ⟨rfl, rfl⟩
  | error e =>
    simp only [Eval.invoke, Run.invoke, Machine.byName, hresult]
    exact ⟨rfl, rfl⟩

end Simulates

end ExprCore
