import ExprCore.Proofs.PrematureReads
import ExprCore.Proofs.ReadsAfterWrites

/-!
# Reads before writes

Without logical operators, in a fresh scope and on a fresh frame, a plain read that is evaluated
before any write to its variable fails, unless it is premature. A premature read finds the vacant
cell of its variable and yields `null`.

## Main definitions

- `Piece.Supplied`: the traces of a part of the source are supplied

## Main statements

- `Lowered.supplied`: compilation of an expression without logical operators makes such traces
- `read_before_write`: what a read before the first write yields
- `read_before_write_premature`: a read of the base in a key yields `null`
-/

namespace ExprCore

open Interpreter

/-- All traces of the plan are supplied, and the names are written when it succeeds. -/
def Plan.Supplied (i : Interpreter) (eval : NodeId → Eval Value)
    (trace : NodeId → Machine → Trace) (scope : Scope) (done : Sight)
    (written premature : List Name) (plan : Plan) : Prop :=
  ∀ m, Trace.Supplied scope done written premature (plan.trace eval trace m) (plan.run i eval m)

namespace Plan

variable {i : Interpreter} {eval : NodeId → Eval Value} {trace : NodeId → Machine → Trace}
  {scope : Scope} {done : Sight} {written more premature others : List Name}

theorem supplied_operand {id : NodeId} {rest : Value → Plan}
    (hid : ∀ m, Trace.Supplied scope done written premature (trace id m) (eval id m))
    (hrest : ∀ v, (rest v).Supplied i eval trace scope (done.adding written) more others) :
    (operand id rest).Supplied i eval trace scope done (written ++ more) (premature ++ others) := by
  intro m
  have hfirst := hid m
  have hrun : (operand id rest).run i eval m
    = EStateM.bind (eval id) (fun v => (rest v).run i eval) m := rfl
  rw [Plan.trace, hrun, EStateM.bind]
  cases heval : eval id m with
  | ok v m' =>
    rw [heval] at hfirst
    exact hfirst.append (hrest v m')
  | error why m' =>
    rw [List.append_nil]
    exact (hfirst.mono (List.Subset.refl _) (List.subset_append_left _ _)).of_error

/-- An operand behind which nothing is read or written. -/
theorem supplied_operand_last {id : NodeId} {rest : Value → Plan}
    (hid : ∀ m, Trace.Supplied scope done written premature (trace id m) (eval id m))
    (hrest : ∀ v, (rest v).Supplied i eval trace scope (done.adding written) [] []) :
    (operand id rest).Supplied i eval trace scope done written premature := by
  have hall := supplied_operand hid hrest
  rwa [List.append_nil, List.append_nil] at hall

theorem supplied_read {name : Name} {slot : Option Slot}
    (h : slot ≠ none → done name = true ∨ name ∈ premature) :
    (act (.read name slot)).Supplied i eval trace scope done [] premature := by
  intro m
  refine ⟨fun before after other slot' found ht => ?_, nofun⟩
  cases before with
  | nil =>
    cases ht
    exact (h nofun).imp_right .inr
  | cons first rest =>
    cases rest <;> cases ht

/-- An action that is no read, together with what it writes when it succeeds. -/
theorem supplied_act {action : Action} (hread : ∀ name slot, action ≠ .read name slot)
    (hcomplete : ∀ m v m', action.run i m = .ok v m' →
      ∀ name ∈ written, (action.trace m).WritesTo scope name) :
    (act action).Supplied i eval trace scope done written premature := by
  refine fun m => .of_no_reads (fun name slot found hmem => ?_) (hcomplete m)
  cases action with
  | read name slot => exact hread name slot rfl
  | yield | stop | call => exact absurd hmem List.not_mem_nil
  | store slot v => simp [Plan.trace, Action.trace] at hmem
  | step slot delta fixity =>
    simp only [Plan.trace, Action.trace] at hmem
    split at hmem <;> simp at hmem
  | storeAt slot keys v =>
    simp only [Plan.trace, Action.trace] at hmem
    split at hmem <;> simp at hmem
  | unset slots => simp [Plan.trace, Action.trace] at hmem

theorem supplied_silent {action : Action} (hread : ∀ name slot, action ≠ .read name slot) :
    (act action).Supplied i eval trace scope done [] [] :=
  supplied_act hread fun _ _ _ _ => List.forall_mem_nil _

theorem supplied_ofExcept (r : Except EvalError Value) :
    (act (.ofExcept r)).Supplied i eval trace scope done [] [] := by
  cases r <;> exact supplied_silent nofun

theorem supplied_store {name : Name} {slot : Slot} (hslot : scope.find? name = some slot)
    (v : Value) : (act (.store slot v)).Supplied i eval trace scope done [name] [] := by
  refine supplied_act nofun fun m v' m' _ other hother => ?_
  rw [List.mem_singleton.1 hother]
  exact ⟨slot, v, hslot, List.mem_singleton_self _⟩

theorem supplied_step {name : Name} {slot : Slot} (hslot : scope.find? name = some slot)
    (delta : Int64) (fixity : Fixity) :
    (act (.step slot delta fixity)).Supplied i eval trace scope done [name] [] := by
  refine supplied_act nofun fun m v m' hrun other hother => ?_
  rw [List.mem_singleton.1 hother]
  simp only [Action.trace]
  cases hstep : increment (m.frame.content slot) delta with
  | ok updated => exact ⟨slot, updated, hslot, List.mem_singleton_self _⟩
  | error e =>
    simp only [Action.run, Eval.content, Bind.bind, EStateM.bind, hstep] at hrun
    cases hrun

theorem supplied_storeAt {name : Name} {slot : Slot} (hslot : scope.find? name = some slot)
    (keys : List Key) (v : Value) :
    (act (.storeAt slot keys v)).Supplied i eval trace scope done [name] [] := by
  refine supplied_act nofun fun m v' m' hrun other hother => ?_
  rw [List.mem_singleton.1 hother]
  obtain ⟨frame, calls⟩ := m
  simp only [Action.trace]
  cases hstore : (frame.content slot).storeAt keys v with
  | ok array => exact ⟨slot, array, hslot, List.mem_singleton_self _⟩
  | error e =>
    simp only [Action.run, Bind.bind, EStateM.bind, Eval.storeAt_eq, hstore] at hrun
    cases hrun

/-- The keys on a path are supplied, and so is what follows them when it is. -/
def KeysSupplied (i : Interpreter) (eval : NodeId → Eval Value) (trace : NodeId → Machine → Trace)
    (scope : Scope) (done : Sight) (written premature : List Name)
    (path : List (Option NodeId)) : Prop :=
  ∀ rest more others,
    (∀ ks, (rest ks).Supplied i eval trace scope (done.adding written) more others) →
      (keys path rest).Supplied i eval trace scope done (written ++ more) (premature ++ others)

namespace KeysSupplied

variable {path path' : List (Option NodeId)}

theorem nil : KeysSupplied i eval trace scope done [] [] [] := by
  intro rest more others hrest
  rw [Sight.adding_nil] at hrest
  exact hrest []

theorem none : KeysSupplied i eval trace scope done [] [] [none] := by
  intro rest more others hrest
  rw [Sight.adding_nil] at hrest
  exact hrest [Option.none]

theorem some {id : NodeId}
    (hid : ∀ m, Trace.Supplied scope done written premature (trace id m) (eval id m)) :
    KeysSupplied i eval trace scope done written premature [some id] := by
  intro rest more others hrest
  refine supplied_operand hid fun v => ?_
  cases v.position? with
  | none => exact fun m => .of_no_reads nofun nofun
  | some position => exact hrest [Option.some position]

theorem append (h : KeysSupplied i eval trace scope done written premature path)
    (h' : KeysSupplied i eval trace scope (done.adding written) more others path') :
    KeysSupplied i eval trace scope done (written ++ more) (premature ++ others)
      (path ++ path') := by
  intro rest further extra hrest
  rw [keys_append, List.append_assoc, List.append_assoc]
  refine h _ _ _ fun ks => h' _ _ _ fun ks' => ?_
  rw [← Sight.adding_append]
  exact hrest (ks ++ ks')

/-- The keys of an element write, then its value, then the write. It writes what its keys write,
what its value writes, and its variable. -/
theorem storeElement {base : Name} {slot : Slot} {id : NodeId} {keys place : List Name}
    (h : KeysSupplied i eval trace scope done keys premature path)
    (hid : ∀ m, Trace.Supplied scope (done.adding keys) written others (trace id m) (eval id m))
    (hbase : scope.find? base = Option.some slot) (hplace : place ⊆ base :: keys) :
    (Plan.keys path fun ks => operand id fun v => act (.storeAt slot ks v)).Supplied i eval trace
      scope done (written ++ place) (premature ++ others) := by
  have hstore (ks : List Key) : (operand id fun v => act (.storeAt slot ks v)).Supplied i eval
      trace scope (done.adding keys) (written ++ [base]) others := by
    have hall := supplied_operand hid fun v => supplied_storeAt (i := i) hbase ks v
    rwa [List.append_nil] at hall
  refine fun m => (h _ _ _ hstore m).mono (fun name hname => ?_) (List.Subset.refl _)
  rcases List.mem_append.1 hname with hname | hname
  · exact List.mem_append_right _ (List.mem_append_left _ hname)
  · rcases List.mem_cons.1 (hplace hname) with rfl | hkey
    · exact List.mem_append_right _ (List.mem_append_right _ (List.mem_singleton_self _))
    · exact List.mem_append_left _ hkey

end KeysSupplied

end Plan

/-- The node added last is supplied when its plan is, with any depth that is left. -/
theorem supplied_node {i : Interpreter} {s u : LowerState} {node : Node} {span : Span}
    {done : Sight} {written premature : List Name} (hu : (s.add node span).Extends u)
    (h : ∀ fuel, s.code.size ≤ fuel → (node.plan u.code).Supplied i (i.eval u.code fuel)
      (i.trace u.code fuel) u.scope done written premature) :
    ∀ fuel, s.next.index < fuel → ∀ m, Trace.Supplied u.scope done written premature
      (i.trace u.code fuel s.next m) (i.eval u.code fuel s.next m) := by
  intro fuel hfuel m
  cases fuel with
  | zero => exact absurd hfuel (Nat.not_lt_zero _)
  | succ fuel =>
    rw [Interpreter.trace, Interpreter.eval, LowerState.get?_of_extends hu.code]
    simp only [step_eq_run_plan]
    exact (h fuel (Nat.le_of_lt_succ hfuel) m).located span

/-- No logical operator stands in the part, and none is made by it. -/
def Piece.Straight : Piece → Prop
  | .value e _ | .place e _ => e.Straight
  | .stored effect target e _ _ =>
    (∀ op, effect = .compound op → ∀ v, op.shortcut? v = none) ∧ target.Straight ∧ e.Straight
  | .values es _ => ∀ e ∈ es, e.Straight

/-- The traces of the nodes of a part of the source are supplied, where the names in `sight` are
bound and those in `done` are written. What follows the nodes of a list or of a place is left
open. -/
def Piece.Supplied (i : Interpreter) (u : LowerState) (sight done : Sight) : Piece → Prop
  | .value e id =>
    ∀ fuel, id.index < fuel → ∀ m, Trace.Supplied u.scope done e.written
      (e.premature i.names sight done) (i.trace u.code fuel id m) (i.eval u.code fuel id m)
  | .place e id =>
    ∃ base slot path, u.scope.find? base = some slot ∧ u.code.Place id slot path
      ∧ e.writtenAsPlace ⊆ base :: e.writtenByKeys
      ∧ ∀ fuel, id.index < fuel → Plan.KeysSupplied i (i.eval u.code fuel) (i.trace u.code fuel)
          u.scope done e.writtenByKeys (e.prematureAsPlace i.names sight done) (path.map some)
  | .stored effect target e _ id =>
    ∀ fuel, id.index < fuel → ∀ m, Trace.Supplied u.scope done
      (effect.written target.written e.written)
      (effect.premature (target.premature i.names sight done)
        (e.premature i.names (sight.adding (effect.writtenFirst target.written))
          (done.adding (effect.writtenFirst target.written))))
      (i.trace u.code fuel id m) (i.eval u.code fuel id m)
  | .values es ids =>
    ∀ fuel rest more others, (∀ id ∈ ids, id.index < fuel) →
      (∀ vs, (rest vs).Supplied i (i.eval u.code fuel) (i.trace u.code fuel) u.scope
        (done.adding (writtenInAll es)) more others) →
      (Plan.all ids rest).Supplied i (i.eval u.code fuel) (i.trace u.code fuel) u.scope done
        (writtenInAll es ++ more) (prematureInAll i.names sight done es ++ others)

/-- Both operands are evaluated when the operator has no shortcut. -/
theorem supplied_binaryNode {i : Interpreter} {s u : LowerState} {op : BinaryOp} {l r : NodeId}
    {span : Span} {done : Sight} {written more premature others : List Name}
    (hu : (s.add (.binary op l r) span).Extends u) (hop : ∀ v, op.shortcut? v = none)
    (hl : ∀ fuel, l.index < fuel → ∀ m, Trace.Supplied u.scope done written premature
      (i.trace u.code fuel l m) (i.eval u.code fuel l m))
    (hr : ∀ fuel, r.index < fuel → ∀ m, Trace.Supplied u.scope (done.adding written) more others
      (i.trace u.code fuel r m) (i.eval u.code fuel r m))
    (hl_lt : l.index < s.code.size) (hr_lt : r.index < s.code.size) :
    ∀ fuel, s.next.index < fuel → ∀ m, Trace.Supplied u.scope done (written ++ more)
      (premature ++ others) (i.trace u.code fuel s.next m) (i.eval u.code fuel s.next m) := by
  refine supplied_node hu fun fuel hfuel => ?_
  refine Plan.supplied_operand (hl fuel (by omega)) fun v => ?_
  rw [hop v]
  exact Plan.supplied_operand_last (hr fuel (by omega)) fun w => Plan.supplied_ofExcept _

namespace Lowered

variable {i : Interpreter} {piece : Piece} {s t : LowerState}

/-- Compilation of an expression without logical operators makes nodes whose traces are
supplied. -/
theorem supplied (h : Lowered i.names piece s t) (hstraight : piece.Straight) {u : LowerState}
    (hu : t.Extends u) (done : Sight) : piece.Supplied i u s.scope.sight done := by
  induction h generalizing done with
  | @scalar span kind text literal s hliteral =>
    refine supplied_node hu fun fuel _ => ?_
    cases literal <;> exact Plan.supplied_silent (by simp)
  | @var span name s =>
    refine supplied_node hu fun fuel _ => Plan.supplied_read fun hbound => ?_
    have hsight : s.scope.sight name = true := Option.isSome_iff_ne_none.2 hbound
    cases hdone : done name with
    | true => exact .inl rfl
    | false => exact .inr (by simp [Expr.premature, hsight, hdone])
  | @binary span token left right op l r s s₁ s₂ hop hl hr ihl ihr =>
    have hu₂ := (LowerState.extends_add _ _ _).trans hu
    have hleft := ihl (hstraight.part (by simp [Form.parts])) (hr.grows.trans hu₂) done
    have hright := ihr (hstraight.part (by simp [Form.parts])) hu₂ (done.adding left.written)
    rw [hl.sight_eq] at hright
    have hl_lt := hl.index_value
    have hr_lt := hr.index_value
    have hle := hr.size_le
    simp only [Piece.Supplied, Expr.written, Expr.premature]
    exact supplied_binaryNode hu (hstraight.shortcut?_eq_none hop) hleft hright (by omega)
      (by omega)
  | @unary span token operand op x s s₁ hop hx ihx =>
    have hoperand := ihx (hstraight.part (by simp [Form.parts]))
      ((LowerState.extends_add _ _ _).trans hu) done
    have hx_lt := hx.index_value
    simp only [Piece.Supplied, Expr.written, Expr.premature]
    refine supplied_node hu fun fuel hfuel => ?_
    exact Plan.supplied_operand_last (hoperand fuel (by omega)) fun v => Plan.supplied_ofExcept _
  | @step span fixity token operand name s hname =>
    have hslot := LowerState.find?_of_extends hu.scope
    simp only [Piece.Supplied, Expr.written, Expr.premature, hname]
    exact supplied_node hu fun fuel _ => Plan.supplied_step hslot _ _
  | @assign span targetSpan token effect name value v s s₁ heffect hv ihv =>
    have hslot := LowerState.find?_of_extends hu.scope
    have hstored := ihv ⟨fun op heq => token.shortcut?_eq_none (heq ▸ heffect),
      hstraight.part (by simp [Form.parts]), hstraight.part (by simp [Form.parts])⟩
      (((LowerState.extends_define _ _).trans (LowerState.extends_add _ _ _)).trans hu) done
    have hv_lt := hv.index_stored
    simp only [Piece.Supplied, Expr.written, Expr.premature, Expr.writtenAsPlace,
      Expr.writtenByKeys, Expr.prematureAsPlace, Sight.adding_nil, List.nil_append, heffect]
    refine supplied_node hu fun fuel hfuel => ?_
    rw [LowerState.size_define] at hfuel
    have hall := Plan.supplied_operand (hstored fuel (by omega)) fun v =>
      Plan.supplied_store (i := i) hslot v
    rwa [List.append_nil] at hall
  | @append span targetSpan token effect container value v p s s₁ s₂ heffect hv hp ihv ihp =>
    have hu₂ := (LowerState.extends_add _ _ _).trans hu
    have htarget := hstraight.part (List.mem_cons_self ..)
    obtain ⟨base, slot, path, hbase, hplace, hsub, hkeys⟩ :=
      ihp (htarget.part (List.mem_cons_self ..)) hu₂ done
    have hstored := ihv ⟨fun op heq => token.shortcut?_eq_none (heq ▸ heffect), htarget,
      hstraight.part (by simp [Form.parts])⟩ (hp.grows.trans hu₂)
      (done.adding container.writtenByKeys)
    rw [hv.sight_eq] at hkeys
    have hv_lt := hv.index_stored
    have hp_lt := hp.index_place
    have hle := hp.size_le
    have hsize := hu₂.code.size_le
    refine supplied_node hu fun fuel hfuel => ?_
    simp only [Expr.written, Expr.premature, Expr.writtenAsPlace, Expr.prematureAsPlace,
      Expr.writtenByKeys, heffect, Node.plan]
    rw [hplace.place?_eq (Nat.lt_of_le_of_lt hplace.length_le (by omega))]
    have hall := (hkeys fuel (by omega)).append (.none (i := i))
    rw [List.append_nil, List.append_nil] at hall
    exact hall.storeElement (hstored fuel (by omega)) hbase hsub
  | @storeElement span targetSpan token effect container index value v p k s s₁ s₂ s₃ heffect hv hp
      hk ihv ihp ihk =>
    have hu₃ := (LowerState.extends_add _ _ _).trans hu
    have hu₂ := hk.grows.trans hu₃
    have htarget := hstraight.part (List.mem_cons_self ..)
    obtain ⟨base, slot, path, hbase, hplace, hsub, hkeys⟩ :=
      ihp (htarget.part (List.mem_cons_self ..)) hu₂ done
    have hindex := ihk (htarget.part (by simp [Form.parts])) hu₃
      (done.adding container.writtenByKeys)
    have hstored := ihv ⟨fun op heq => token.shortcut?_eq_none (heq ▸ heffect), htarget,
      hstraight.part (by simp [Form.parts])⟩ (hp.grows.trans hu₂)
      (done.adding (container.writtenByKeys ++ index.written))
    rw [hp.sight_eq, hv.sight_eq] at hindex
    rw [hv.sight_eq] at hkeys
    have hv_lt := hv.index_stored
    have hp_lt := hp.index_place
    have hk_lt := hk.index_value
    have hle₂ := hp.size_le
    have hle₃ := hk.size_le
    have hsize := hu₃.code.size_le
    refine supplied_node hu fun fuel hfuel => ?_
    simp only [Expr.written, Expr.premature, Expr.writtenAsPlace, Expr.prematureAsPlace,
      Expr.writtenByKeys, heffect, Node.plan]
    rw [hplace.place?_eq (Nat.lt_of_le_of_lt hplace.length_le (by omega))]
    have hall := (hkeys fuel (by omega)).append (.some (i := i) (hindex fuel (by omega)))
    refine hall.storeElement (hstored fuel (by omega)) hbase (List.append_subset.2 ⟨?_, ?_⟩)
    · exact List.Subset.trans hsub (List.cons_subset_cons _ (List.subset_append_left _ _))
    · exact List.Subset.trans (List.subset_append_right _ _) (List.subset_cons_self _ _)
  | @list span entries ids s s₁ hkeys hes ihes =>
    have hvalues (e : Expr) (he : e ∈ entries.map Element.value) : e.Straight := by
      obtain ⟨entry, hentry, rfl⟩ := List.mem_map.1 he
      exact hstraight.part (List.mem_flatMap.2 ⟨entry, hentry, by simp⟩)
    have hitems := ihes hvalues (((LowerState.extends_addList _ _).trans
      (LowerState.extends_add _ _ _)).trans hu) done
    have hread := LowerState.read_of_extends ((LowerState.extends_add _ _ _).trans hu).code
    have hids := hes.index_values
    simp only [Piece.Supplied, Expr.written, Expr.premature, writtenInEntries_eq,
      prematureInEntries_eq]
    refine supplied_node hu fun fuel hfuel => ?_
    rw [LowerState.size_addList] at hfuel
    simp only [Node.plan, hread]
    have hall := hitems fuel (fun vs => .act (.yield (.array vs.toArray))) [] []
      (fun id hid => by have := hids id hid; omega) fun vs => Plan.supplied_silent (by simp)
    rwa [List.append_nil, List.append_nil] at hall
  | @index span target index t k s s₁ s₂ ht hk iht ihk =>
    have hu₂ := (LowerState.extends_add _ _ _).trans hu
    have htarget := iht (hstraight.part (by simp [Form.parts])) (hk.grows.trans hu₂) done
    have hindex := ihk (hstraight.part (by simp [Form.parts])) hu₂ (done.adding target.written)
    rw [ht.sight_eq] at hindex
    have ht_lt := ht.index_value
    have hk_lt := hk.index_value
    have hle := hk.size_le
    simp only [Piece.Supplied, Expr.written, Expr.premature]
    refine supplied_node hu fun fuel hfuel => ?_
    refine Plan.supplied_operand (htarget fuel (by omega)) fun v => ?_
    exact Plan.supplied_operand_last (hindex fuel (by omega)) fun w => Plan.supplied_ofExcept _
  | @unset span name arguments slots s hname harguments hslots =>
    simp only [Piece.Supplied, Expr.written, writtenInAll_of_varName? harguments, Expr.premature,
      hname, if_true]
    refine supplied_node hu fun fuel _ => ?_
    exact Plan.supplied_silent (by simp)
  | @call span name arguments ids s s₁ hname hes ihes =>
    have hitems := ihes (fun e he => hstraight.part he) (((LowerState.extends_addList _ _).trans
      (LowerState.extends_add _ _ _)).trans hu) done
    have hread := LowerState.read_of_extends ((LowerState.extends_add _ _ _).trans hu).code
    have hids := hes.index_values
    simp only [Piece.Supplied, Expr.written, Expr.premature, hname, Bool.false_eq_true, if_false]
    refine supplied_node hu fun fuel hfuel => ?_
    rw [LowerState.size_addList] at hfuel
    simp only [Node.plan, hread]
    have hall := hitems fuel (fun vs => .act (.call name s₁.scope.id vs)) [] []
      (fun id hid => by have := hids id hid; omega) fun vs => Plan.supplied_silent (by simp)
    rwa [List.append_nil, List.append_nil] at hall
  | paren _ ih =>
    simp only [Piece.Supplied, Expr.written, Expr.premature]
    exact ih (hstraight.part (by simp [Form.parts])) hu done
  | storedPlain _ ihv =>
    simp only [Piece.Supplied, AssignEffect.writtenFirst, Sight.adding_nil]
    exact ihv hstraight.2.2 hu done
  | @storedCompound op target value span l r s s₁ s₂ hl hr ihl ihr =>
    have hu₂ := (LowerState.extends_add _ _ _).trans hu
    have hleft := ihl hstraight.2.1 (hr.grows.trans hu₂) done
    have hright := ihr hstraight.2.2 hu₂ (done.adding target.written)
    rw [hl.sight_eq] at hright
    have hl_lt := hl.index_value
    have hr_lt := hr.index_value
    have hle := hr.size_le
    exact supplied_binaryNode hu (hstraight.1 op rfl) hleft hright (by omega) (by omega)
  | @placeVar span name s =>
    have hslot := LowerState.find?_of_extends hu.scope
    have hget := LowerState.get?_of_extends hu.code
    refine ⟨name, s.slot name, [], hslot, .var hget, by simp [Expr.writtenAsPlace], ?_⟩
    exact fun fuel _ => .nil
  | @placeIndex span target index t k s s₁ s₂ ht hk iht ihk =>
    have hu₂ := (LowerState.extends_add _ _ _).trans hu
    have hget := LowerState.get?_of_extends hu.code
    obtain ⟨base, slot, path, hbase, hplace, hsub, hkeys⟩ :=
      iht (hstraight.part (List.mem_cons_self ..)) (hk.grows.trans hu₂) done
    have hindex := ihk (hstraight.part (by simp [Form.parts])) hu₂
      (done.adding target.writtenByKeys)
    rw [ht.sight_eq] at hindex
    have ht_lt := ht.index_place
    have hk_lt := hk.index_value
    have hle := hk.size_le
    have hnext : s₂.next.index = s₂.code.size := rfl
    refine ⟨base, slot, path ++ [k], hbase, .index hget (by omega) hplace,
      List.append_subset.2 ⟨?_, ?_⟩, fun fuel hfuel => ?_⟩
    · exact List.Subset.trans hsub (List.cons_subset_cons _ (List.subset_append_left _ _))
    · exact List.Subset.trans (List.subset_append_right _ _) (List.subset_cons_self _ _)
    · rw [List.map_append]
      exact (hkeys fuel (by omega)).append (.some (hindex fuel (by omega)))
  | placeParen _ ih =>
    simp only [Piece.Supplied, Expr.writtenAsPlace, Expr.writtenByKeys, Expr.prematureAsPlace]
    exact ih (hstraight.part (by simp [Form.parts])) hu done
  | nil =>
    intro fuel rest more others _ hrest
    simp only [writtenInAll, Sight.adding_nil] at hrest
    exact hrest []
  | @cons e es id ids s s₁ s₂ h hs ih ihs =>
    have hparts := List.forall_mem_cons.1 hstraight
    have hhead := ih hparts.1 (hs.grows.trans hu) done
    have htail := ihs hparts.2 hu (done.adding e.written)
    rw [h.sight_eq] at htail
    intro fuel rest more others hfuel hrest
    rw [List.forall_mem_cons] at hfuel
    simp only [writtenInAll, Sight.adding_append, prematureInAll, List.append_assoc] at hrest ⊢
    refine Plan.supplied_operand (hhead fuel hfuel.1) fun v => ?_
    exact htail fuel _ more others hfuel.2 fun vs => hrest (v :: vs)

end Lowered

/-- A vacant variable that is not written stays vacant unless it is cleared. -/
theorem Trace.replay_of_not_wrote {cells : Slot → Cell} {t : Trace} {slot : Slot}
    (hcell : ∀ v, cells slot ≠ .set v) (ht : ∀ v, .wrote slot v ∉ t) :
    ∀ v, replay cells t slot ≠ .set v := by
  induction t generalizing cells with
  | nil => exact hcell
  | cons event t ih =>
    refine ih (fun v => ?_) fun v hv => ht v (List.mem_cons_of_mem _ hv)
    cases event with
    | read => exact hcell v
    | wrote other w =>
      have hne : slot ≠ other := fun heq => ht w (heq ▸ List.mem_cons_self)
      simpa [Event.apply, hne] using hcell v
    | cleared other =>
      by_cases heq : slot = other
      · simp [Event.apply, heq]
      · simpa [Event.apply, heq] using hcell v

/-- In an expression without logical operators, compiled in a fresh scope and evaluated on a fresh
frame, a plain read that is evaluated before any write to its variable either finds nothing, and the
evaluation fails there, or it is premature: then its name is bound, and it yields `null`. -/
theorem read_before_write {i : Interpreter} {id : ScopeId} {scope' : Scope} {e : Expr}
    {c : Compiled} (hpolicy : i.policy = .strict) (hstraight : e.Straight)
    (h : compile i.names (.new id) (some e) = ⟨.ok c, scope'⟩) (m : Machine)
    (hfresh : ∀ slot, m.frame.cell slot = .vacant) (before after : Trace) (name : Name)
    (bound : Option Slot) (found : Option Value)
    (htrace : i.traceAll c m = before ++ .read name bound found :: after)
    (hfirst : ∀ slot v, scope'.find? name = some slot → .wrote slot v ∉ before) :
    (found = none ∧ after = [] ∧ ∃ err m', i.evaluate c m = .error (.error err) m'
        ∧ err.kind = .undefinedVariable (i.names.text name))
      ∨ (found = some .null ∧ bound.isSome = true
        ∧ name ∈ e.premature i.names (fun _ => false) (fun _ => false)) := by
  obtain ⟨_, heq, hlowered⟩ := lowered_of_compile h
  cases heq
  have hroot : c.root.index + 1 = c.code.size := hlowered.index_value
  have hdepth : c.root.index < c.code.size + circleDepth := by omega
  have hfits := hlowered.traced (LowerState.Extends.refl _) (c.code.size + circleDepth) m hdepth
  have hsupplied := hlowered.supplied hstraight (LowerState.Extends.refl _) (fun _ => false)
    (c.code.size + circleDepth) hdepth m
  have hrecords := (trace_records i c.code (c.code.size + circleDepth) c.root m).faithful
  have hstops := trace_stops_at_undefined hpolicy c.code (c.code.size + circleDepth) c.root m
  change i.trace c.code (c.code.size + circleDepth) c.root m = _ at htrace
  rw [htrace] at hrecords
  have hreport : found = bound.bind fun slot => (Trace.replay m.frame.cell before slot).get? :=
    (Trace.faithful_append.1 hrecords).2.1
  cases found with
  | none => exact .inl ⟨rfl, hstops.at_read htrace⟩
  | some v =>
    cases bound with
    | none => cases hreport
    | some slot =>
      have hslot : scope'.find? name = some slot :=
        hfits.bound name slot (some v) (htrace ▸ by simp)
      have hcell (w : Value) : m.frame.cell slot ≠ .set w := by
        rw [hfresh]
        exact nofun
      have hunwritten := Trace.replay_of_not_wrote hcell fun w => hfirst slot w hslot
      -- the cell is vacant or cleared, and a cleared one has no value
      have hnull : v = .null := by
        rw [Option.bind_some] at hreport
        cases hcontent : Trace.replay m.frame.cell before slot with
        | vacant =>
          rw [hcontent] at hreport
          exact Option.some.inj hreport
        | unset =>
          rw [hcontent] at hreport
          cases hreport
        | set w => exact absurd hcontent (hunwritten w)
      refine .inr ⟨by rw [hnull], rfl, ?_⟩
      obtain hdone | ⟨other, w, hother, hwrote⟩ | hmem :=
        hsupplied.reads before after name slot (some v) htrace
      · cases hdone
      · exact absurd hwrote (hfirst other w hother)
      · exact hmem

/-- In `($i = []) == $j` the read of `$j` fails. -/
theorem read_before_write_operand :
    let i : Expr := .mk .dummy (.var ⟨1⟩)
    let j : Expr := .mk .dummy (.var ⟨2⟩)
    let e : Expr := .mk .dummy (.binary .isEqual
      (.mk .dummy (.assign .equal i (.mk .dummy (.array [])))) j)
    let strict : Interpreter := ⟨.new, .none, .strict⟩
    ∃ c scope' found, e.Straight ∧ compile .new (.new .root) (some e) = ⟨.ok c, scope'⟩
      ∧ strict.traceAll c ⟨.empty, #[]⟩ = [.wrote ⟨0⟩ (.array #[]), .read ⟨2⟩ none found]
      ∧ found = none
      ∧ ∃ err m, strict.evaluate c ⟨.empty, #[]⟩ = .error (.error err) m
          ∧ err.kind = .undefinedVariable "" := by
  intro i j e strict
  have hstraight : e.Straight := by
    refine .mk (by simp [InfixToken.isLogical]) ?_
    have hlist : Expr.Straight (.mk .dummy (.array [])) := .mk (by simp) (by simp [Form.parts])
    have hassign : Expr.Straight (.mk .dummy (.assign .equal i (.mk .dummy (.array [])))) :=
      .mk (by simp) (by simpa [Form.parts] using ⟨Expr.Straight.var _, hlist⟩)
    simpa [Form.parts] using ⟨hassign, Expr.Straight.var _⟩
  have hcompile : compile strict.names (.new .root) (some e) = ⟨.ok _, _⟩ := rfl
  have hunbound (slot : Slot) (v : Value) (hslot : none = some slot) :
      .wrote slot v ∉ [Event.wrote ⟨0⟩ (.array #[])] := by
    cases hslot
  refine ⟨_, _, none, hstraight, hcompile, rfl, rfl, ?_⟩
  obtain ⟨-, -, herror⟩ | ⟨hfound, -, -⟩ := read_before_write rfl hstraight hcompile
    ⟨.empty, #[]⟩ (fun slot => rfl) [.wrote ⟨0⟩ (.array #[])] [] ⟨2⟩ none none rfl hunbound
  · exact herror
  · cases hfound

/-- In `$a[+$a] = 1` the key reads `$a` before anything is written, and finds `null`. -/
theorem read_before_write_premature :
    let names : NameTable := ⟨⟨["", "a", "1"], by decide⟩⟩
    let a : Expr := .mk .dummy (.var ⟨1⟩)
    let key : Expr := .mk .dummy (.unary .plus a)
    let one : Expr := .mk .dummy (.scalar .int ⟨2⟩)
    let e : Expr := .mk .dummy (.assign .equal (.mk .dummy (.access .indexed a (some key))) one)
    ∃ c scope' m, e.Straight ∧ compile names (.new .root) (some e) = ⟨.ok c, scope'⟩
      ∧ (Interpreter.mk names .none .strict).traceAll c ⟨.empty, #[]⟩
        = [.read ⟨1⟩ (some ⟨0⟩) (some .null), .wrote ⟨0⟩ (.array #[.int 1])]
      ∧ (Interpreter.mk names .none .strict).evaluate c ⟨.empty, #[]⟩ = .ok (.int 1) m := by
  refine ⟨_, _, _, ?_, rfl, rfl, rfl⟩
  have ha : Expr.Straight (.mk .dummy (.var ⟨1⟩)) := .var _
  have hone : Expr.Straight (.mk .dummy (.scalar .int ⟨2⟩)) := .mk (by simp) (by simp [Form.parts])
  have hkey : Expr.Straight (.mk .dummy (.unary .plus (.mk .dummy (.var ⟨1⟩)))) :=
    .mk (by simp) (by simpa [Form.parts] using ha)
  have htarget : Expr.Straight (.mk .dummy (.access .indexed (.mk .dummy (.var ⟨1⟩))
      (some (.mk .dummy (.unary .plus (.mk .dummy (.var ⟨1⟩))))))) :=
    .mk (by simp) (by simpa [Form.parts] using ⟨ha, hkey⟩)
  exact .mk (by simp) (by simpa [Form.parts] using ⟨htarget, hone⟩)

end ExprCore
