import ExprCore.Compilation
import ExprCore.Proofs.Place
import ExprCore.Proofs.ReadOrder

/-!
# Reads after writes

A plain read that is evaluated after a write to its variable yields what was written, unless the
read stands in the value of an element write, is not bound there, and the keys of that element write
the variable.

## Main definitions

- `Piece.Traced`: the nodes of a part of the source read and write as the text says

## Main statements

- `Lowered.traced`: compilation makes nodes that do so
- `read_after_write`: what a read after a write yields, and when it fails instead
-/

namespace ExprCore

open Interpreter

section Plans

variable {eval : NodeId → Eval Value} {trace : NodeId → Machine → Trace} {scope : Scope}
  {sight : Sight} {written more : List Name} {reads others : Reads}

theorem Plan.trace_operand (eval : NodeId → Eval Value) (trace : NodeId → Machine → Trace)
    (id : NodeId) (rest : Value → Plan) (m : Machine) :
    ∃ t, (Plan.operand id rest).trace eval trace m = trace id m ++ t
      ∧ (t = [] ∨ ∃ v m', t = (rest v).trace eval trace m') := by
  rw [Plan.trace]
  cases eval id m with
  | ok v m' => exact ⟨(rest v).trace eval trace m', rfl, .inr ⟨v, m', rfl⟩⟩
  | error why m' => exact ⟨[], rfl, .inl rfl⟩

theorem Plan.keys_append (path more : List (Option NodeId)) (rest : List Key → Plan) :
    Plan.keys (path ++ more) rest
      = Plan.keys path fun ks => Plan.keys more fun ks' => rest (ks ++ ks') := by
  induction path generalizing rest with
  | nil => rfl
  | cons position path ih =>
    cases position with
    | none => exact ih _
    | some id =>
      show Plan.operand id _ = Plan.operand id _
      congr 1
      funext v
      cases v.position? with
      | none => rfl
      | some position => exact ih _

namespace Trace.Fits

theorem operand {behind : List Name} {id : NodeId} {rest : Value → Plan}
    (hid : ∀ m, Fits scope sight written reads (trace id m))
    (hrest : ∀ v m, Fits scope (sight.adding behind) more others ((rest v).trace eval trace m))
    (hbehind : written ⊆ behind) (m : Machine) :
    Fits scope sight (written ++ more) (reads ++ others)
      ((Plan.operand id rest).trace eval trace m) := by
  obtain ⟨t, htrace, ht⟩ := Plan.trace_operand eval trace id rest m
  rw [htrace]
  refine (hid m).append ?_ hbehind
  obtain rfl | ⟨v, m', rfl⟩ := ht
  · exact nil
  · exact hrest v m'

/-- An operand behind which nothing is read or written. -/
theorem operand_last {id : NodeId} {rest : Value → Plan}
    (hid : ∀ m, Fits scope sight written reads (trace id m))
    (hrest : ∀ v m, (rest v).trace eval trace m = []) (m : Machine) :
    Fits scope sight written reads ((Plan.operand id rest).trace eval trace m) := by
  obtain ⟨t, htrace, ht⟩ := Plan.trace_operand eval trace id rest m
  have hnil : t = [] := by
    obtain rfl | ⟨v, m', rfl⟩ := ht
    · rfl
    · exact hrest v m'
  rw [htrace, hnil, List.append_nil]
  exact hid m

end Trace.Fits

end Plans

/-- The node added last has the trace of its plan when its operands have any depth that is left. -/
theorem fits_node {i : Interpreter} {s u : LowerState} {node : Node} {span : Span} {sight : Sight}
    {written : List Name} {reads : Reads} (hu : (s.add node span).Extends u)
    (h : ∀ fuel, s.code.size ≤ fuel → ∀ m, Trace.Fits u.scope sight written reads
      ((node.plan u.code).trace (i.eval u.code fuel) (i.trace u.code fuel) m)) :
    ∀ fuel m, s.next.index < fuel →
      Trace.Fits u.scope sight written reads (i.trace u.code fuel s.next m) := by
  intro fuel m hfuel
  cases fuel with
  | zero => exact absurd hfuel (Nat.not_lt_zero _)
  | succ fuel =>
    rw [Interpreter.trace, LowerState.get?_of_extends hu.code]
    exact h fuel (Nat.le_of_lt_succ hfuel) m

theorem Plan.trace_ofExcept {eval : NodeId → Eval Value} {trace : NodeId → Machine → Trace}
    (r : Except EvalError Value) (m : Machine) :
    (Plan.act (.ofExcept r)).trace eval trace m = [] := by
  cases r <;> rfl

/-- The right operand is read in sight of what the left one writes, if it is read at all. -/
theorem fits_binaryNode {i : Interpreter} {s u : LowerState} {op : BinaryOp} {l r : NodeId}
    {span : Span} {sight : Sight} {written more : List Name} {reads others : Reads}
    (hu : (s.add (.binary op l r) span).Extends u)
    (hl : ∀ fuel m, l.index < fuel →
      Trace.Fits u.scope sight written reads (i.trace u.code fuel l m))
    (hr : ∀ fuel m, r.index < fuel →
      Trace.Fits u.scope (sight.adding written) more others (i.trace u.code fuel r m))
    (hl_lt : l.index < s.code.size) (hr_lt : r.index < s.code.size) :
    ∀ fuel m, s.next.index < fuel →
      Trace.Fits u.scope sight (written ++ more) (reads ++ others)
        (i.trace u.code fuel s.next m) := by
  refine fits_node hu fun fuel hfuel m => ?_
  refine .operand (fun m => hl fuel m (by omega)) (fun v m => ?_) (List.Subset.refl _) m
  cases op.shortcut? v with
  | some decided => exact .nil
  | none =>
    exact .operand_last (fun m => hr fuel m (by omega)) (fun _ _ => Plan.trace_ofExcept _ _) m

/-- The nodes of a part of the source read and write as the text says, once compilation has gone on
to `u`. What follows the nodes of a list or of a place is left open. -/
def Piece.Traced (i : Interpreter) (u : LowerState) (sight : Sight) : Piece → Prop
  | .value e id =>
    ∀ fuel m, id.index < fuel →
      Trace.Fits u.scope sight e.written (e.reads i.names sight) (i.trace u.code fuel id m)
  | .place e id =>
    ∃ base slot path, base ∈ e.writtenAsPlace ∧ e.writtenByKeys ⊆ e.writtenAsPlace
      ∧ u.scope.find? base = some slot ∧ u.code.Place id slot path
      ∧ ∀ fuel rest m, id.index < fuel → ∃ t t',
          (Plan.keys (path.map some) rest).trace (i.eval u.code fuel) (i.trace u.code fuel) m
            = t ++ t'
          ∧ Trace.Fits u.scope sight e.writtenByKeys (e.readsAsPlace i.names sight) t
          ∧ (t' = [] ∨ ∃ ks m', t' = (rest ks).trace (i.eval u.code fuel) (i.trace u.code fuel) m')
  | .stored effect target e _ id =>
    ∀ fuel m, id.index < fuel →
      Trace.Fits u.scope sight (effect.written target.written e.written)
        (effect.reads (target.reads i.names sight)
          (e.reads i.names (sight.adding (effect.writtenFirst target.written))))
        (i.trace u.code fuel id m)
  | .values es ids =>
    ∀ fuel rest m, (∀ id ∈ ids, id.index < fuel) →
      (∀ vs m, (rest vs).trace (i.eval u.code fuel) (i.trace u.code fuel) m = []) →
      Trace.Fits u.scope sight (writtenInAll es) (readsInAll i.names sight es)
        ((Plan.all ids rest).trace (i.eval u.code fuel) (i.trace u.code fuel) m)

/-- One more key behind those of a place. -/
theorem fits_key {eval : NodeId → Eval Value} {trace : NodeId → Machine → Trace} {scope : Scope}
    {sight : Sight} {written behind more : List Name} {reads others : Reads} {id : NodeId}
    {t t' : Trace} (rest : List Key → Plan) (ht : Trace.Fits scope sight written reads t)
    (ht' : t' = [] ∨ ∃ ks m, t' = (Plan.keys [some id] fun ks' =>
      rest (ks ++ ks')).trace eval trace m)
    (hid : ∀ m, Trace.Fits scope (sight.adding behind) more others (trace id m))
    (hbehind : written ⊆ behind) :
    ∃ u u', t ++ t' = u ++ u' ∧ Trace.Fits scope sight (written ++ more) (reads ++ others) u
      ∧ (u' = [] ∨ ∃ ks m, u' = (rest ks).trace eval trace m) := by
  obtain rfl | ⟨ks, m, rfl⟩ := ht'
  · have hnil : Trace.Fits scope (sight.adding behind) more others [] := .nil
    exact ⟨t, [], rfl, List.append_nil t ▸ ht.append hnil hbehind, .inl rfl⟩
  · obtain ⟨u, hu, hrest⟩ := Plan.trace_operand eval trace id _ m
    refine ⟨t ++ trace id m, u, ?_, ht.append (hid m) hbehind, ?_⟩
    · rw [List.append_assoc, ← hu]
      rfl
    · obtain rfl | ⟨v, m', rfl⟩ := hrest
      · exact .inl rfl
      · cases v.position? with
        | none => exact .inl rfl
        | some position => exact .inr ⟨_, m', rfl⟩

/-- A write to an element: its keys come first, then the value, which was bound before the keys. -/
theorem fits_storeElement {eval : NodeId → Eval Value} {trace : NodeId → Machine → Trace}
    {scope : Scope} {sight : Sight} {written more keys : List Name} {reads others : Reads}
    {base : Name} {slot : Slot} {id : NodeId} {t t' : Trace}
    (hbase : scope.find? base = some slot)
    (ht : Trace.Fits scope (sight.adding more) keys reads t)
    (hid : ∀ m, Trace.Fits scope sight more others (trace id m))
    (ht' : t' = [] ∨ ∃ ks m, t' = (Plan.operand id fun v =>
      .act (.storeAt slot ks v)).trace eval trace m)
    (hkeys : keys ⊆ written) (hname : base ∈ written) :
    Trace.Fits scope sight (more ++ written) (reads ++ others.behind keys) (t ++ t') := by
  have hvalue : ∃ u u', t' = u ++ u' ∧ Trace.Fits scope sight more others u
      ∧ (u' = [] ∨ ∃ v, u' = [.wrote slot v]) := by
    obtain rfl | ⟨ks, m, rfl⟩ := ht'
    · exact ⟨[], [], rfl, .nil, .inl rfl⟩
    · obtain ⟨u, hu, hstore⟩ := Plan.trace_operand eval trace id
        (fun v => .act (.storeAt slot ks v)) m
      refine ⟨trace id m, u, hu, hid m, ?_⟩
      obtain rfl | ⟨v, m', rfl⟩ := hstore
      · exact .inl rfl
      · simp only [Plan.trace, Action.trace]
        split
        · exact .inr ⟨_, rfl⟩
        · exact .inl rfl
  obtain ⟨u, u', rfl, hu, hstore⟩ := hvalue
  rw [← List.append_assoc]
  have hall : Trace.Fits scope sight (more ++ written) (reads ++ others.behind keys) (t ++ u) :=
    (ht.append_behind hu).mono (fun _ h => h)
      (List.append_subset.2 ⟨List.subset_append_left _ _,
        List.Subset.trans hkeys (List.subset_append_right _ _)⟩)
      (List.Subset.refl _) (List.Subset.refl _)
  obtain rfl | ⟨v, rfl⟩ := hstore
  · rw [List.append_nil]
    exact hall
  · refine hall.append_of_cross (.write hbase (List.mem_append_right _ hname)) ?_
    intro _ _ _ _ _ hread
    cases List.mem_singleton.1 hread

namespace Lowered

variable {i : Interpreter} {piece : Piece} {s t : LowerState}

/-- Compilation makes nodes that read and write as the text says. -/
theorem traced (h : Lowered i.names piece s t) {u : LowerState} (hu : t.Extends u) :
    piece.Traced i u s.scope.sight := by
  induction h with
  | @scalar span kind text literal s hliteral =>
    refine fits_node hu fun fuel _ m => ?_
    cases literal <;> exact .nil
  | @var span name s =>
    refine fits_node hu fun fuel _ m => ?_
    simp only [Expr.reads, Node.plan, Plan.trace, Action.trace]
    by_cases hsight : s.scope.sight name = true
    · obtain ⟨slot, hname⟩ := Option.isSome_iff_exists.1 hsight
      rw [if_pos hsight, hname]
      exact .read_bound (hu.scope hname)
    · have hname : s.scope.find? name = none := by simpa [Scope.sight] using hsight
      rw [if_neg hsight, hname]
      exact .read_unbound (Bool.eq_false_iff.2 hsight) (List.mem_singleton.2 rfl)
  | @binary span token left right op l r s s₁ s₂ hop hl hr ihl ihr =>
    have hu₂ := (LowerState.extends_add _ _ _).trans hu
    have hleft := ihl (hr.grows.trans hu₂)
    have hright := ihr hu₂
    rw [hl.sight_eq] at hright
    have hl_lt := hl.index_value
    have hr_lt := hr.index_value
    have hle := hr.size_le
    simp only [Piece.Traced, Expr.written, Expr.reads]
    exact fits_binaryNode hu hleft hright (by omega) (by omega)
  | @unary span token operand op x s s₁ hop hx ihx =>
    have hoperand := ihx ((LowerState.extends_add _ _ _).trans hu)
    refine fits_node hu fun fuel hfuel m => ?_
    have hx_lt := hx.index_value
    simp only [Expr.written, Expr.reads]
    exact .operand_last (fun m => hoperand fuel m (by omega))
      (fun _ _ => Plan.trace_ofExcept _ _) m
  | @step span fixity token operand name s hname =>
    have hslot := LowerState.find?_of_extends hu.scope
    refine fits_node hu fun fuel _ m => ?_
    simp only [Expr.written, Expr.reads, hname, Node.plan, Plan.trace, Action.trace]
    split
    · exact .write hslot (by simp)
    · exact .nil
  | @assign span targetSpan token effect name value v s s₁ heffect hv ihv =>
    have hslot := LowerState.find?_of_extends hu.scope
    have hstored := ihv (((LowerState.extends_define _ _).trans
      (LowerState.extends_add _ _ _)).trans hu)
    refine fits_node hu fun fuel hfuel m => ?_
    have hv_lt := hv.index_stored
    rw [LowerState.size_define] at hfuel
    simp only [Expr.written, Expr.reads, Expr.writtenAsPlace, heffect]
    have hwrite (sight : Sight) (v : Value) (m' : Machine) :
        Trace.Fits u.scope sight [name] .none
          ((Plan.act (.store (s₁.slot name) v)).trace (i.eval u.code fuel) (i.trace u.code fuel)
            m') :=
      .write hslot (List.mem_singleton.2 rfl)
    -- here the order of evaluation is that of the text: the value and then the variable
    have hall := Trace.Fits.operand (fun m => hstored fuel m (by omega)) (hwrite _)
      (List.Subset.refl _) m
    rw [Reads.append_none] at hall
    refine hall.mono (fun _ h => h) (List.Subset.refl _) ?_ ?_
    · exact List.subset_append_right _ _
    · exact List.Subset.trans (List.subset_append_left _ _) (List.subset_append_right _ _)
  | @append span targetSpan token effect container value v p s s₁ s₂ heffect hv hp ihv ihp =>
    have hu₂ := (LowerState.extends_add _ _ _).trans hu
    have hstored := ihv (hp.grows.trans hu₂)
    obtain ⟨base, slot, path, hname, hkeys, hbase, hplace, htrace⟩ := ihp hu₂
    rw [hv.sight_eq] at htrace
    refine fits_node hu fun fuel hfuel m => ?_
    have hv_lt := hv.index_stored
    have hp_lt := hp.index_place
    have hle := hp.size_le
    have hsize := hu₂.code.size_le
    simp only [Expr.written, Expr.reads, Expr.writtenAsPlace, Expr.readsAsPlace,
      Expr.writtenByKeys, heffect, Node.plan]
    rw [hplace.place?_eq (Nat.lt_of_le_of_lt hplace.length_le (by omega))]
    simp only [Plan.keys_append]
    obtain ⟨t, t', htt, ht, ht'⟩ := htrace fuel _ m (by omega)
    rw [htt]
    have hstore : t' = [] ∨ ∃ ks m', t' = (Plan.operand v fun x =>
        .act (.storeAt slot ks x)).trace (i.eval u.code fuel) (i.trace u.code fuel) m' := by
      obtain hnil | ⟨ks, m', hrest⟩ := ht'
      · exact .inl hnil
      · exact .inr ⟨ks ++ [none], m', hrest⟩
    exact fits_storeElement hbase ht (fun m => hstored fuel m (by omega)) hstore hkeys hname
  | @storeElement span targetSpan token effect container index value v p k s s₁ s₂ s₃ heffect hv hp
      hk ihv ihp ihk =>
    have hu₃ := (LowerState.extends_add _ _ _).trans hu
    have hu₂ := hk.grows.trans hu₃
    have hstored := ihv (hp.grows.trans hu₂)
    have hindex := ihk hu₃
    obtain ⟨base, slot, path, hname, hkeys, hbase, hplace, htrace⟩ := ihp hu₂
    -- the value was compiled before the keys but is evaluated after them: `fits_storeElement` puts
    -- the two orders together
    rw [hp.sight_eq, hv.sight_eq] at hindex
    rw [hv.sight_eq] at htrace
    refine fits_node hu fun fuel hfuel m => ?_
    have hv_lt := hv.index_stored
    have hp_lt := hp.index_place
    have hk_lt := hk.index_value
    have hle₂ := hp.size_le
    have hle₃ := hk.size_le
    have hsize := hu₃.code.size_le
    simp only [Expr.written, Expr.reads, Expr.writtenAsPlace, Expr.readsAsPlace,
      Expr.writtenByKeys, heffect, Node.plan]
    rw [hplace.place?_eq (Nat.lt_of_le_of_lt hplace.length_le (by omega))]
    simp only [Plan.keys_append]
    obtain ⟨t, t', htt, ht, ht'⟩ := htrace fuel (fun ks => Plan.keys [some k] fun ks' =>
      .operand v fun x => .act (.storeAt slot (ks ++ ks') x)) m (by omega)
    obtain ⟨t, t', htt', ht, ht'⟩ := fits_key (fun ks => .operand v fun x =>
      .act (.storeAt slot ks x)) ht ht' (fun m => hindex fuel m (by omega)) hkeys
    rw [htt, htt']
    exact fits_storeElement hbase ht (fun m => hstored fuel m (by omega)) ht'
      (List.append_subset.2 ⟨List.Subset.trans hkeys (List.subset_append_left _ _),
        List.subset_append_right _ _⟩) (List.mem_append_left _ hname)
  | @list span entries ids s s₁ hkeys hes ihes =>
    have hitems := ihes (((LowerState.extends_addList _ _).trans
      (LowerState.extends_add _ _ _)).trans hu)
    have hread := LowerState.read_of_extends ((LowerState.extends_add _ _ _).trans hu).code
    refine fits_node hu fun fuel hfuel m => ?_
    have hids := hes.index_values
    rw [LowerState.size_addList] at hfuel
    simp only [Expr.written, Expr.reads, writtenInEntries_eq, readsInEntries_eq, Node.plan, hread]
    exact hitems fuel _ m (fun id hid => by have := hids id hid; omega) fun _ _ => rfl
  | @index span target index t k s s₁ s₂ ht hk iht ihk =>
    have hu₂ := (LowerState.extends_add _ _ _).trans hu
    have htarget := iht (hk.grows.trans hu₂)
    have hindex := ihk hu₂
    rw [ht.sight_eq] at hindex
    refine fits_node hu fun fuel hfuel m => ?_
    have ht_lt := ht.index_value
    have hk_lt := hk.index_value
    have hle := hk.size_le
    simp only [Expr.written, Expr.reads]
    refine .operand (fun m => htarget fuel m (by omega)) (fun v m => ?_) (List.Subset.refl _) m
    exact .operand_last (fun m => hindex fuel m (by omega)) (fun _ _ => Plan.trace_ofExcept _ _) m
  | @unset span name arguments slots s hname harguments hslots =>
    refine fits_node hu fun fuel hfuel m => ?_
    simp only [Node.plan, Plan.trace, Action.trace]
    exact .clear _
  | @call span name arguments ids s s₁ hname hes ihes =>
    have hitems := ihes (((LowerState.extends_addList _ _).trans
      (LowerState.extends_add _ _ _)).trans hu)
    have hread := LowerState.read_of_extends ((LowerState.extends_add _ _ _).trans hu).code
    refine fits_node hu fun fuel hfuel m => ?_
    have hids := hes.index_values
    rw [LowerState.size_addList] at hfuel
    simp only [Expr.written, Expr.reads, hname, Bool.false_eq_true, if_false, Node.plan, hread]
    exact hitems fuel _ m (fun id hid => by have := hids id hid; omega) fun _ _ => rfl
  | paren _ ih =>
    simp only [Piece.Traced, Expr.written, Expr.reads]
    exact ih hu
  | storedPlain _ ihv =>
    have hvalue := ihv hu
    simp only [Piece.Traced, AssignEffect.writtenFirst, Sight.adding_nil]
    exact hvalue
  | @storedCompound op target value span l r s s₁ s₂ hl hr ihl ihr =>
    have hu₂ := (LowerState.extends_add _ _ _).trans hu
    have hleft := ihl (hr.grows.trans hu₂)
    have hright := ihr hu₂
    rw [hl.sight_eq] at hright
    have hl_lt := hl.index_value
    have hr_lt := hr.index_value
    have hle := hr.size_le
    exact fits_binaryNode hu hleft hright (by omega) (by omega)
  | @placeVar span name s =>
    have hslot := LowerState.find?_of_extends hu.scope
    have hget := LowerState.get?_of_extends hu.code
    refine ⟨name, s.slot name, [], by simp [Expr.writtenAsPlace], by simp [Expr.writtenByKeys],
      hslot, .var hget, fun fuel rest m _ => ?_⟩
    exact ⟨[], _, rfl, .nil, .inr ⟨[], m, rfl⟩⟩
  | @placeIndex span target index t k s s₁ s₂ ht hk iht ihk =>
    have hu₂ := (LowerState.extends_add _ _ _).trans hu
    have hindex := ihk hu₂
    have hget := LowerState.get?_of_extends hu.code
    obtain ⟨base, slot, path, hname, hkeys, hbase, hplace, htrace⟩ := iht (hk.grows.trans hu₂)
    rw [ht.sight_eq] at hindex
    have ht_lt := ht.index_place
    have hk_lt := hk.index_value
    have hle := hk.size_le
    have hnext : s₂.next.index = s₂.code.size := rfl
    refine ⟨base, slot, path ++ [k], List.mem_append_left _ hname,
      List.append_subset.2 ⟨List.Subset.trans hkeys (List.subset_append_left _ _),
        List.subset_append_right _ _⟩, hbase, .index hget (by omega) hplace, ?_⟩
    intro fuel rest m hfuel
    rw [List.map_append, Plan.keys_append]
    obtain ⟨t, t', htt, ht, ht'⟩ := htrace fuel _ m (by omega)
    rw [htt]
    exact fits_key rest ht ht' (fun m => hindex fuel m (by omega)) hkeys
  | placeParen _ ih =>
    simp only [Piece.Traced, Expr.writtenAsPlace, Expr.writtenByKeys, Expr.readsAsPlace]
    exact ih hu
  | nil => exact fun fuel rest m _ hrest => by rw [Plan.all, hrest]; exact .nil
  | @cons e es id ids s s₁ s₂ h hs ih ihs =>
    have hhead := ih (hs.grows.trans hu)
    have htail := ihs hu
    rw [h.sight_eq] at htail
    intro fuel rest m hfuel hrest
    rw [List.forall_mem_cons] at hfuel
    simp only [Plan.all, writtenInAll, readsInAll]
    refine .operand (fun m => hhead fuel m hfuel.1) (fun v m => ?_) (List.Subset.refl _) m
    exact htail fuel _ m hfuel.2 fun vs m => hrest _ m

end Lowered

theorem Trace.Fits.misplaced {scope : Scope} {sight : Sight} {written : List Name} {reads : Reads}
    {before mid after : Trace} {name : Name} {slot : Slot} {v : Value} {found : Option Value}
    (h : Trace.Fits scope sight written reads
      (before ++ .wrote slot v :: mid ++ .read name none found :: after))
    (hslot : scope.find? name = some slot) : name ∈ reads.misplaced := by
  have hcross := (List.pairwise_append.1 h.ordered).2.2
  exact hcross (.wrote slot v) (List.mem_append_right _ List.mem_cons_self) (.read name none found)
    List.mem_cons_self name slot v found rfl rfl hslot

/-- A read that finds nothing is the last event, and its error is the result. -/
theorem Trace.StopsAtUndefined.at_read {names : NameTable} {t before after : Trace} {name : Name}
    {slot : Option Slot} {r : EStateM.Result Stop Machine Value}
    (h : t.StopsAtUndefined names r) (ht : t = before ++ .read name slot none :: after) :
    after = [] ∧
      ∃ e m, r = .error (.error e) m ∧ e.kind = .undefinedVariable (names.text name) := by
  obtain hall | ⟨front, other, slot', rfl, hfront, herror⟩ := h
  · refine (hall (.read name slot none) ?_).elim
    rw [ht]
    simp
  · obtain rfl | ⟨after, last, rfl⟩ := List.eq_nil_or_concat after
    · have hlast := (List.append_inj' ht rfl).2
      cases hlast
      exact ⟨rfl, herror⟩
    · -- with events behind it, the read would be one of those in front of the last event
      rw [List.concat_eq_append, ← List.cons_append, ← List.append_assoc] at ht
      have hsame := (List.append_inj' ht rfl).1
      refine (hfront (.read name slot none) ?_).elim
      rw [hsame]
      simp

/-- A plain read that is evaluated after a write to its variable, with no other write and no unset
of it in between, finds what was written exactly if it is bound to the variable. If it is not bound,
it stands in the value of an element write whose own keys write the variable, and the evaluation
fails there. -/
theorem read_after_write {i : Interpreter} {scope scope' : Scope} {root : Option Expr}
    {c : Compiled} (hpolicy : i.policy = .strict)
    (h : compile i.names scope root = ⟨.ok c, scope'⟩) :
    ∃ e, root = some e ∧ ∀ (m : Machine) (before mid after : Trace) (name : Name) (slot : Slot)
      (v : Value) (bound : Option Slot) (found : Option Value),
      i.traceAll c m = before ++ .wrote slot v :: mid ++ .read name bound found :: after →
      scope'.find? name = some slot → (∀ event ∈ mid, ¬ event.Touches slot) →
        bound = some slot ∧ found = some v ∨
        bound = none ∧ found = none ∧ name ∈ e.misplaced i.names scope.sight ∧ after = [] ∧
          ∃ err m', i.evaluate c m = .error (.error err) m' ∧
            err.kind = .undefinedVariable (i.names.text name) := by
  obtain ⟨e, rfl, hlowered⟩ := lowered_of_compile h
  refine ⟨e, rfl, fun m before mid after name slot v bound found htrace hslot hmid => ?_⟩
  have hroot : c.root.index + 1 = c.code.size := hlowered.index_value
  have hfits := hlowered.traced (LowerState.Extends.refl _) (c.code.size + circleDepth) m (by omega)
  have hrecords := (trace_records i c.code (c.code.size + circleDepth) c.root m).faithful
  have hstops := trace_stops_at_undefined hpolicy c.code (c.code.size + circleDepth) c.root m
  change i.trace c.code (c.code.size + circleDepth) c.root m = _ at htrace
  rw [htrace] at hrecords
  -- a bound read finds what the last write left, and an unbound one finds nothing
  cases bound with
  | none =>
    have hfound : found = none := (Trace.faithful_append.1 hrecords).2.1
    subst hfound
    obtain ⟨hafter, herror⟩ := hstops.at_read htrace
    change Trace.Fits scope' scope.sight e.written (e.reads i.names scope.sight)
      (i.trace c.code (c.code.size + circleDepth) c.root m) at hfits
    rw [htrace] at hfits
    exact .inr ⟨rfl, rfl, hfits.misplaced hslot, hafter, herror⟩
  | some other =>
    have hbound := hfits.bound name other found (htrace ▸ by simp)
    have hsame : other = slot := Option.some.inj (hbound.symm.trans hslot)
    subst hsame
    exact .inl ⟨rfl, hrecords.found_of_last_write hmid⟩

/-- In `($i = []) == $i` the right operand finds the array. -/
theorem read_after_write_operand :
    let i : Expr := .mk .dummy (.var ⟨1⟩)
    let e : Expr := .mk .dummy (.binary .isEqual
      (.mk .dummy (.assign .equal i (.mk .dummy (.array [])))) i)
    ∃ c scope' found, compile .new .root (some e) = ⟨.ok c, scope'⟩ ∧
      (Interpreter.mk .new .none .strict).traceAll c ⟨.empty, #[]⟩
        = [.wrote ⟨0⟩ (.array #[]), .read ⟨1⟩ (some ⟨0⟩) found] ∧ found = some (.array #[]) := by
  intro i e
  have hcompile : compile (Interpreter.mk .new .none .strict).names .root (some e)
    = ⟨.ok _, _⟩ := rfl
  obtain ⟨e', he, hread⟩ := read_after_write rfl hcompile
  refine ⟨_, _, some (.array #[]), hcompile, rfl, ?_⟩
  obtain ⟨_, hfound⟩ | ⟨hbound, _⟩ := hread ⟨.empty, #[]⟩ [] [] [] ⟨1⟩ ⟨0⟩ (.array #[]) (some ⟨0⟩)
    (some (.array #[])) rfl rfl nofun
  · exact hfound
  · cases hbound

/-- In `$a[$i = 0] = $i` the key writes `$i` before the value reads it, and the read fails. -/
theorem read_after_write_misplaced :
    let names : NameTable := ⟨⟨["", "a", "i", "0"], by decide⟩⟩
    let a : Expr := .mk .dummy (.var ⟨1⟩)
    let i : Expr := .mk .dummy (.var ⟨2⟩)
    let zero : Expr := .mk .dummy (.scalar .int ⟨3⟩)
    let e : Expr := .mk .dummy (.assign .equal
      (.mk .dummy (.access .indexed a (some (.mk .dummy (.assign .equal i zero))))) i)
    ∃ c scope' m, compile names .root (some e) = ⟨.ok c, scope'⟩ ∧
      scope'.find? ⟨2⟩ = some ⟨1⟩ ∧
      (Interpreter.mk names .none .strict).traceAll c ⟨.empty, #[]⟩
        = [.wrote ⟨1⟩ (.int 0), .read ⟨2⟩ none none] ∧
      (Interpreter.mk names .none .strict).evaluate c ⟨.empty, #[]⟩
        = .error (.error (.undefinedVariable "i")) m := by
  exact ⟨_, _, _, rfl, rfl, rfl, rfl⟩

end ExprCore
