import ExprCore.Proofs.OwnActions
import ExprCore.Proofs.Safety

/-!
# Places of errors

An evaluation that fails does so because one node fails after its operands have succeeded. Between
that node and the root lie the nodes that were waiting for an operand. On the way up the error is
passed through as it was raised, but that it gets a place: its own if it has one, and otherwise the
innermost span on the way that is not the dummy span.

## Main definitions

- `EvalError.unplaced`, `Eval.unplaced`: an error without its place, a step with such errors
- `Code.withSpans`: the same nodes with other spans
- `Plan.ComesTo`, `Plan.Starts`: how far a plan is carried out
- `Interpreter.RaisedAt`: which node raises the error of an evaluation, and the way up from there
- `EvalError.Original`: an error as it is raised

## Main statements

- `Interpreter.unplaced_eval_withSpans`: spans only matter for the places of errors
- `Compiled.WellFormed.raisedAt_of_error`, `Interpreter.RaisedAt.evaluateAt_eq`: an evaluation fails
  exactly when a node raises an error
- `Interpreter.RaisedAt.unique`: there is only one such node
- `error_comes_from_one_node`: what an evaluation of compiled code fails with
-/

namespace ExprCore

open Eval

/-- The error without its place. -/
def EvalError.unplaced (e : EvalError) : EvalError := { e with span := none }

@[simp] theorem EvalError.unplaced_attachSpan (e : EvalError) (span : Span) :
    (e.attachSpan span).unplaced = e.unplaced := by
  unfold attachSpan
  split <;> rfl

def Stop.unplaced : Stop → Stop
  | error e => error e.unplaced
  | badCode => badCode

@[simp] theorem Stop.unplaced_attachSpan (why : Stop) (span : Span) :
    (why.attachSpan span).unplaced = why.unplaced := by
  cases why with
  | error e => exact congrArg Stop.error (e.unplaced_attachSpan span)
  | badCode => rfl

namespace Eval

variable {α β : Type}

/-- The same step, but that its errors have no place. -/
def unplaced (x : Eval α) : Eval α := fun m =>
  match x m with
  | .ok a m => .ok a m
  | .error why m => .error why.unplaced m

theorem unplaced_bind (x : Eval α) (f : α → Eval β) :
    (x >>= f).unplaced = x.unplaced >>= fun a => (f a).unplaced := by
  funext m
  simp only [unplaced, Bind.bind, EStateM.bind]
  cases x m <;> rfl

@[simp] theorem unplaced_located (span : Span) (x : Eval α) :
    (located span x).unplaced = x.unplaced := by
  funext m
  simp only [unplaced, located]
  cases x m with
  | ok a m => rfl
  | error why m => exact congrArg (EStateM.Result.error · m) (why.unplaced_attachSpan span)

theorem unplaced_bind_congr {x y : Eval α} {f g : α → Eval β} (hx : x.unplaced = y.unplaced)
    (hf : ∀ a, (f a).unplaced = (g a).unplaced) : (x >>= f).unplaced = (y >>= g).unplaced := by
  rw [unplaced_bind, unplaced_bind, hx]
  exact congrArg _ (funext hf)

theorem compositional_unplaced : Compositional fun x y => x.unplaced = y.unplaced where
  badCode := rfl
  bind := unplaced_bind_congr
  located span x y h := by rw [unplaced_located, unplaced_located, h]

end Eval

namespace Code

variable {code : Code} {spans : NodeId → Span}

/-- The same nodes with other spans. -/
def withSpans (code : Code) (spans : NodeId → Span) : Code :=
  { code with nodes := code.nodes.mapIdx fun n node => ⟨node.item, spans ⟨n⟩⟩ }

theorem size_withSpans : (code.withSpans spans).size = code.size := Array.size_mapIdx

theorem get?_withSpans (id : NodeId) :
    (code.withSpans spans).get? id = (code.get? id).map fun node => ⟨node.item, spans id⟩ := by
  simp only [get?, withSpans, Array.getElem?_mapIdx]

theorem place?_withSpans (fuel : Nat) (target : NodeId) (keys : List (Option NodeId)) :
    (code.withSpans spans).place? fuel target keys = code.place? fuel target keys := by
  induction fuel generalizing target keys with
  | zero => rfl
  | succ fuel ih =>
    rw [place?, place?, get?_withSpans]
    cases code.get? target with
    | none => rfl
    | some found =>
      obtain ⟨node, span⟩ := found
      cases node with
      | var name slot => cases slot <;> rfl
      | index target position => exact ih target (position :: keys)
      | _ => rfl

theorem plan_withSpans (node : Node) : node.plan (code.withSpans spans) = node.plan code := by
  cases node with
  | storeElement target position value =>
    simp only [Node.plan, size_withSpans, place?_withSpans]
  | _ => rfl

end Code

/-- Spans only matter for the places of errors. -/
theorem Interpreter.unplaced_eval_withSpans (i : Interpreter) (code : Code) (spans : NodeId → Span)
    (fuel : Nat) (id : NodeId) :
    (i.eval (code.withSpans spans) fuel id).unplaced = (i.eval code fuel id).unplaced := by
  induction fuel generalizing id with
  | zero => rfl
  | succ fuel ih =>
    simp only [eval, Code.get?_withSpans]
    cases code.get? id with
    | none => rfl
    | some found =>
      simp only [Option.map_some, unplaced_located, step_eq_run_plan, Code.plan_withSpans]
      exact Plan.related_run compositional_unplaced ih (Plan.acts_of_forall (fun _ => rfl) _)

namespace Plan

/-- Carried out on the first machine, the plan comes to the action on the second one: all operands
succeed. -/
inductive ComesTo (eval : NodeId → Eval Value) : Plan → Machine → Action → Machine → Prop where
  | act {action : Action} {m : Machine} : ComesTo eval (.act action) m action m
  | operand {id : NodeId} {rest : Value → Plan} {v : Value} {m m₁ m₂ : Machine} {action : Action}
      (hv : eval id m = .ok v m₁)
      (h : ComesTo eval (rest v) m₁ action m₂) : ComesTo eval (.operand id rest) m action m₂

/-- Carried out on the first machine, the plan starts the operand on the second one: the operands
before it succeed. -/
inductive Starts (eval : NodeId → Eval Value) : Plan → Machine → NodeId → Machine → Prop where
  | now {id : NodeId} {rest : Value → Plan} {m : Machine} : Starts eval (.operand id rest) m id m
  | later {id x : NodeId} {rest : Value → Plan} {v : Value} {m m₁ m₂ : Machine}
      (hv : eval id m = .ok v m₁) (h : Starts eval (rest v) m₁ x m₂) :
      Starts eval (.operand id rest) m x m₂

variable {i : Interpreter} {eval : NodeId → Eval Value} {plan : Plan} {m m₁ m₂ m' : Machine}
  {action action' : Action} {id x y : NodeId} {why : Stop}

theorem run_operand_of_ok {rest : Value → Plan} {v : Value} (hv : eval id m = .ok v m₁) :
    (operand id rest).run i eval m = (rest v).run i eval m₁ :=
  bind_of_ok hv rfl

theorem run_operand_of_error {rest : Value → Plan} (hv : eval id m = .error why m₁) :
    (operand id rest).run i eval m = .error why m₁ :=
  bind_of_error hv

/-- A plan that fails does so at its action or at an operand that it starts. -/
theorem comesTo_or_starts_of_error (h : plan.run i eval m = .error why m') :
    (∃ action m₁, plan.ComesTo eval m action m₁ ∧ action.run i m₁ = .error why m')
      ∨ ∃ x m₁, plan.Starts eval m x m₁ ∧ eval x m₁ = .error why m' := by
  induction plan generalizing m with
  | act action => exact .inl ⟨action, m, .act, h⟩
  | operand id rest ih =>
    cases hv : eval id m with
    | error why₁ m₁ =>
      rw [run_operand_of_error hv] at h
      exact .inr ⟨id, m, .now, hv.trans h⟩
    | ok v m₁ =>
      rw [run_operand_of_ok hv] at h
      rcases ih v h with ⟨action, m₂, hcomes, h⟩ | ⟨x, m₂, hstarts, h⟩
      · exact .inl ⟨action, m₂, .operand hv hcomes, h⟩
      · exact .inr ⟨x, m₂, .later hv hstarts, h⟩

namespace ComesTo

theorem run_eq (h : plan.ComesTo eval m action m₁) : plan.run i eval m = action.run i m₁ := by
  induction h with
  | act => rfl
  | operand hv _ ih => rw [run_operand_of_ok hv, ih]

theorem unique (h : plan.ComesTo eval m action m₁) (h' : plan.ComesTo eval m action' m₂) :
    action = action' ∧ m₁ = m₂ := by
  induction h with
  | act =>
    cases h'
    exact ⟨rfl, rfl⟩
  | operand hv _ ih =>
    cases h' with
    | operand hv' h' =>
      cases hv.symm.trans hv'
      exact ih h'

/-- Where a plan comes to its action, every operand that it has started succeeds. -/
theorem ne_error_of_starts (h : plan.ComesTo eval m action m₁) (hstarts : plan.Starts eval m x m₂) :
    eval x m₂ ≠ .error why m' := by
  induction h with
  | act => cases hstarts
  | operand hv _ ih =>
    cases hstarts with
    | now => exact fun h => by cases hv.symm.trans h
    | later hv' hstarts =>
      cases hv.symm.trans hv'
      exact ih hstarts

theorem acts {P : Action → Prop} (h : plan.ComesTo eval m action m₁) (hacts : plan.Acts P) :
    P action := by
  induction h with
  | act => exact hacts
  | operand _ _ ih => exact ih (hacts _)

end ComesTo

namespace Starts

theorem run_eq_error (h : plan.Starts eval m x m₁) (hx : eval x m₁ = .error why m') :
    plan.run i eval m = .error why m' := by
  induction h with
  | now => exact run_operand_of_error hx
  | later hv _ ih =>
    rw [run_operand_of_ok hv]
    exact ih hx

/-- A plan starts no operand after one that fails. -/
theorem unique {why' : Stop} {m₃ : Machine} (h : plan.Starts eval m x m₁)
    (h' : plan.Starts eval m y m₂) (hx : eval x m₁ = .error why m')
    (hy : eval y m₂ = .error why' m₃) :
    x = y ∧ m₁ = m₂ := by
  induction h with
  | now =>
    cases h' with
    | now => exact ⟨rfl, rfl⟩
    | later hv _ => cases hx.symm.trans hv
  | later hv _ ih =>
    cases h' with
    | now => cases hv.symm.trans hy
    | later hv' h' =>
      cases hv.symm.trans hv'
      exact ih h' hx

theorem index_lt {n : Nat} (h : plan.Starts eval m x m₁) (hsafe : plan.Safe n) : x.index < n := by
  induction h with
  | now => exact hsafe.1
  | later _ _ ih => exact ih (hsafe.2 _)

end Starts

end Plan

/-- Evaluate the code from a node of it on. -/
def Interpreter.evaluateAt (i : Interpreter) (code : Code) (id : NodeId) : Eval Value :=
  i.evaluate ⟨code, id⟩

/-- Evaluated on the first machine, the node fails, because a node under it raises the error, which
ends the evaluation on the second machine. The chain holds the nodes from the one that raises the
error up to the node itself; each of them has started the one before it as an operand. -/
inductive Interpreter.RaisedAt (i : Interpreter) (code : Code) :
    NodeId → Machine → List NodeId → EvalError → Machine → Prop where
  /-- The operands have succeeded, and what the node does itself fails. -/
  | here {id node span m action m₁ raised m'} (hget : code.get? id = some ⟨node, span⟩)
      (hcomes : (node.plan code).ComesTo (i.evaluateAt code) m action m₁)
      (hrun : action.run i m₁ = .error (.error raised) m') : RaisedAt i code id m [id] raised m'
  /-- An operand that the node has started fails. -/
  | inside {id node span m x m₁ chain raised m'} (hget : code.get? id = some ⟨node, span⟩)
      (hstarts : (node.plan code).Starts (i.evaluateAt code) m x m₁)
      (h : RaisedAt i code x m₁ chain raised m') : RaisedAt i code id m (chain ++ [id]) raised m'

/-- The span of a node. -/
def Code.spanOf (code : Code) (id : NodeId) : Span := Compiled.span ⟨code, id⟩

theorem Code.spanOf_of_get? {code : Code} {id : NodeId} {node : Node} {span : Span}
    (h : code.get? id = some ⟨node, span⟩) : code.spanOf id = span := by
  simp only [spanOf, Compiled.span, Compiled.rootNode?, h, Option.map_some, Option.getD_some]

/-- The error with a place from a list: its own one, or else the first that is not the dummy
span. -/
def EvalError.placedAt (spans : List Span) (e : EvalError) : EvalError :=
  { e with span := e.span.or (spans.find? fun span => !span.isDummy) }

theorem EvalError.attachSpan_eq_or (span : Span) (e : EvalError) :
    e.attachSpan span
      = { e with span := e.span.or (if !span.isDummy then some span else none) } := by
  obtain ⟨kind, message, own, notes⟩ := e
  unfold attachSpan
  cases own with
  | some own => rfl
  | none => cases span.isDummy <;> rfl

/-- Attaching one more span is looking for a place in a list that goes on with it. -/
theorem EvalError.attachSpan_placedAt (spans : List Span) (span : Span) (e : EvalError) :
    (e.placedAt spans).attachSpan span = e.placedAt (spans ++ [span]) := by
  rw [attachSpan_eq_or, placedAt, placedAt, List.find?_append, List.find?_singleton,
    Option.or_assoc]

theorem EvalError.attachSpan_eq_placedAt (span : Span) (e : EvalError) :
    e.attachSpan span = e.placedAt [span] := by
  have hnone : e.placedAt [] = e := by simp [placedAt]
  have h := e.attachSpan_placedAt [] span
  rwa [hnone] at h

section Chains

variable {i : Interpreter} {c : Compiled} {scope : Scope} {id : NodeId} {m m' : Machine}
  {chain : List NodeId} {raised : EvalError}

/-- A node is evaluated by its plan, with operands that are evaluated the same way. -/
theorem Compiled.WellFormed.evaluateAt_eq (h : c.WellFormed scope) (i : Interpreter) {node : Node}
    {span : Span} (hget : c.code.get? id = some ⟨node, span⟩) :
    i.evaluateAt c.code id = located span ((node.plan c.code).run i (i.evaluateAt c.code)) := by
  have hid := Code.index_lt_size hget
  obtain ⟨depth, hdepth⟩ : ∃ depth, c.code.size + Interpreter.circleDepth = depth + 1 :=
    Nat.exists_eq_succ_of_ne_zero (by omega)
  have hroot : i.evaluateAt c.code id = i.eval c.code (depth + 1) id := by rw [← hdepth]; rfl
  rw [hroot, Interpreter.eval_of_get? hget, step_eq_run_plan]
  congr 1
  refine Plan.run_congr (h.safe_plan hget) fun x hx => ?_
  have hx' : x.index < c.code.size := Nat.lt_trans hx hid
  exact h.eval_eq i (by omega) (Nat.lt_of_lt_of_le hx' (Nat.le_add_right _ _))

theorem Interpreter.RaisedAt.evaluateAt_eq (h : c.WellFormed scope)
    (hraised : i.RaisedAt c.code id m chain raised m') :
    i.evaluateAt c.code id m
      = .error (.error (raised.placedAt (chain.map c.code.spanOf))) m' := by
  induction hraised with
  | here hget hcomes hrun =>
    rw [h.evaluateAt_eq i hget, located, hcomes.run_eq, hrun, List.map_singleton,
      Code.spanOf_of_get? hget, ← EvalError.attachSpan_eq_placedAt]
    rfl
  | inside hget hstarts _ ih =>
    rw [h.evaluateAt_eq i hget, located, hstarts.run_eq_error ih, List.map_append,
      List.map_singleton, Code.spanOf_of_get? hget, ← EvalError.attachSpan_placedAt]
    rfl

/-- Where an evaluation fails, a node raises the error. -/
theorem Compiled.WellFormed.raisedAt_of_error (h : c.WellFormed scope)
    (hid : id.index < c.code.size) {why : Stop} (hstop : i.evaluateAt c.code id m = .error why m') :
    ∃ chain raised, i.RaisedAt c.code id m chain raised m'
      ∧ why = .error (raised.placedAt (chain.map c.code.spanOf)) := by
  induction hn : id.index using Nat.strongRecOn generalizing id m why with
  | _ n ih =>
    subst hn
    obtain ⟨⟨node, span⟩, hget⟩ : ∃ found, c.code.get? id = some found :=
      ⟨_, Array.getElem?_eq_getElem hid⟩
    have hreason : why.Explained i.registry m'.calls :=
      h.explained_eval i (Nat.lt_of_lt_of_le hid (Nat.le_add_right _ _)) hid m why m' hstop
    rw [h.evaluateAt_eq i hget] at hstop
    obtain ⟨own, hrun, rfl⟩ := located_eq_error_iff.1 hstop
    rcases Plan.comesTo_or_starts_of_error hrun with
      ⟨action, m₁, hcomes, haction⟩ | ⟨x, m₁, hstarts, hx⟩
    · cases own with
      | badCode => exact hreason.elim
      | error raised =>
        refine ⟨[id], raised, .here hget hcomes haction, ?_⟩
        rw [List.map_singleton, Code.spanOf_of_get? hget, ← EvalError.attachSpan_eq_placedAt]
        rfl
    · have hlt := hstarts.index_lt (h.safe_plan hget)
      obtain ⟨chain, raised, hraised, rfl⟩ := ih x.index hlt (by omega) hx rfl
      refine ⟨chain ++ [id], raised, .inside hget hstarts hraised, ?_⟩
      rw [List.map_append, List.map_singleton, Code.spanOf_of_get? hget,
        ← EvalError.attachSpan_placedAt]
      rfl

/-- One node only raises the error of an evaluation, and in one way. -/
theorem Interpreter.RaisedAt.unique (h : c.WellFormed scope)
    (hraised : i.RaisedAt c.code id m chain raised m') {chain' : List NodeId} {raised' : EvalError}
    {m'' : Machine} (hraised' : i.RaisedAt c.code id m chain' raised' m'') :
    chain' = chain ∧ raised' = raised ∧ m'' = m' := by
  induction hraised generalizing chain' raised' m'' with
  | here hget hcomes hrun =>
    cases hraised' with
    | here hget' hcomes' hrun' =>
      cases hget.symm.trans hget'
      obtain ⟨rfl, rfl⟩ := hcomes.unique hcomes'
      cases hrun.symm.trans hrun'
      exact ⟨rfl, rfl, rfl⟩
    | inside hget' hstarts' h' =>
      cases hget.symm.trans hget'
      exact absurd (h'.evaluateAt_eq h) (hcomes.ne_error_of_starts hstarts')
  | inside hget hstarts hinner ih =>
    cases hraised' with
    | here hget' hcomes' hrun' =>
      cases hget.symm.trans hget'
      exact absurd (hinner.evaluateAt_eq h) (hcomes'.ne_error_of_starts hstarts)
    | inside hget' hstarts' h' =>
      cases hget.symm.trans hget'
      obtain ⟨rfl, rfl⟩ := hstarts.unique hstarts' (hinner.evaluateAt_eq h) (h'.evaluateAt_eq h)
      obtain ⟨rfl, hrest⟩ := ih h'
      exact ⟨rfl, hrest⟩

end Chains

/-- The error is as it was raised: made from its cause alone, or what the function that was run last
has returned, with the place and the notes that it has there. -/
def EvalError.Original (registry : Registry) (calls : CallLog) (e : EvalError) : Prop :=
  e.Plain ∨ ∃ before target arguments, calls = before.push (.invoke target arguments)
    ∧ registry.invoke before target arguments = .error e

def Stop.Original (registry : Registry) (calls : CallLog) : Stop → Prop
  | .error e => e.Original registry calls
  | .badCode => True

theorem Stop.original_covers (registry : Registry) :
    Stop.Covers registry (Stop.Original registry) where
  operational h := .inl h.plain
  undefinedFunction _ := .inl rfl
  raised h := .inr ⟨_, _, _, rfl, h⟩

theorem Stop.IsOwn.original {registry : Registry} {why : Stop} (h : why.IsOwn) (calls : CallLog) :
    why.Original registry calls := by
  cases why with
  | badCode => trivial
  | error e =>
    obtain hoperational | ⟨node, rfl⟩ := h
    · exact .inl hoperational.plain
    · exact .inl rfl

theorem Interpreter.stopsOnly_original_undefined (i : Interpreter) (name : Name) :
    StopsOnly (Stop.Original i.registry) (i.undefined name) := by
  unfold undefined
  cases i.policy with
  | strict => exact .throw fun calls => .inl rfl
  | lenient => exact .pure _

theorem Interpreter.RaisedAt.original {i : Interpreter} {code : Code} {id : NodeId} {m m' : Machine}
    {chain : List NodeId} {raised : EvalError} (h : i.RaisedAt code id m chain raised m') :
    raised.Original i.registry m'.calls := by
  induction h with
  | @here id node span m action m₁ raised m' hget hcomes hrun =>
    have hof := hcomes.acts (node.acts_of code)
    have hstops : StopsOnly (Stop.Original i.registry) (action.run i) := by
      refine Action.stopsOnly_run (Stop.original_covers _) i.stopsOnly_original_undefined ?_
      rintro why rfl
      exact Stop.IsOwn.original hof
    exact hstops m₁ _ m' hrun
  | inside _ _ _ ih => exact ih

/-- When the evaluation of compiled code fails, one node and no other raises the error, after its
own operands have succeeded. What it raises is made from the cause alone or is what a function has
returned, and this is the error of the evaluation, but for its place: where it has none, that is the
first span on the way from the node up to the root which is not the dummy span. With other spans
nothing else changes than the places of errors. -/
theorem error_comes_from_one_node {names : NameTable} {scope scope' : Scope} {c : Compiled}
    (h : (∃ root, compile names scope root = ⟨.ok c, scope'⟩)
      ∨ ∃ members, compileSequence names scope members = ⟨.ok c, scope'⟩) (i : Interpreter) :
    (∀ m why m', i.evaluate c m = .error why m' →
        ∃ chain raised, i.RaisedAt c.code c.root m chain raised m'
          ∧ raised.Original i.registry m'.calls
          ∧ why = .error (raised.placedAt (chain.map c.code.spanOf))
          ∧ ∀ chain' raised' m'', i.RaisedAt c.code c.root m chain' raised' m'' →
              chain' = chain ∧ raised' = raised ∧ m'' = m')
      ∧ ∀ spans, (i.evaluate ⟨c.code.withSpans spans, c.root⟩).unplaced
          = (i.evaluate c).unplaced := by
  have hwell : c.WellFormed scope' := wellFormed_of_compiled h
  refine ⟨fun m why m' hstop => ?_, fun spans => ?_⟩
  · obtain ⟨chain, raised, hraised, hwhy⟩ := hwell.raisedAt_of_error hwell.root_lt hstop
    refine ⟨chain, raised, hraised, hraised.original, hwhy, fun chain' raised' m'' h' => ?_⟩
    exact hraised.unique hwell h'
  · unfold Interpreter.evaluate
    rw [Code.size_withSpans]
    exact i.unplaced_eval_withSpans c.code spans _ c.root

/-- `-(+$a)` on an array, where the inner node has the dummy span: the inner node raises the error,
and the place is that of the outer one. -/
theorem error_comes_from_one_node_dummy :
    let scope := (Scope.root.define ⟨1⟩).2
    let plus : Expr := .mk .dummy (.unary .plus (.mk ⟨3, 5⟩ (.var ⟨1⟩)))
    let i : Interpreter := ⟨.new, .none, .strict⟩
    let m : Machine := ⟨Frame.empty.set ⟨0⟩ (.array #[]), #[]⟩
    let raised : EvalError := .invalidUnaryOp .plus "array"
    ∃ c scope', compile .new scope (some (.mk ⟨0, 6⟩ (.unary .minus plus))) = ⟨.ok c, scope'⟩
      ∧ i.evaluate c m = .error (.error (raised.withSpan ⟨0, 6⟩)) m
      ∧ i.RaisedAt c.code c.root m [⟨1⟩, ⟨2⟩] raised m
      ∧ (∀ chain other m', i.RaisedAt c.code c.root m chain other m' →
          chain = [⟨1⟩, ⟨2⟩] ∧ other = raised)
      ∧ (i.evaluate ⟨c.code.withSpans fun _ => .dummy, c.root⟩).unplaced
        = (i.evaluate c).unplaced := by
  intro scope plus i m raised
  have hcompile : compile .new scope (some (.mk ⟨0, 6⟩ (.unary .minus plus))) = ⟨.ok _, _⟩ := rfl
  obtain ⟨hplace, hspans⟩ := error_comes_from_one_node (.inl ⟨_, hcompile⟩) i
  obtain ⟨chain, raised', _, _, _, hunique⟩ := hplace m _ m rfl
  refine ⟨_, _, hcompile, rfl, ?_⟩
  refine (and_iff_left_of_imp ?_).2 ?_
  · intro hraised
    refine ⟨fun chain' other m' h => ?_, hspans _⟩
    obtain ⟨rfl, rfl, -⟩ := hunique _ _ _ hraised
    obtain ⟨hchain, hother, -⟩ := hunique _ _ _ h
    exact ⟨hchain, hother⟩
  · -- the list is the inner node with the outer one behind it
    show i.RaisedAt _ _ m ([⟨1⟩] ++ [⟨2⟩]) raised m
    refine .inside rfl .now (.here rfl (.operand rfl .act) ?_)
    rfl

end ExprCore
