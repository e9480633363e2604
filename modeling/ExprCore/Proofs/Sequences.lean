import ExprCore.Proofs.ErrorPlaces
import ExprCore.Proofs.Relocation

/-!
# Sequences

The members of a sequence are compiled one behind the other into one code, in one scope. Compiled
alone, in the scope that the members before it leave, a member has the same nodes at other
positions, and its evaluation does the same. A sequence is therefore no more than its members one by
one.

## Main definitions

- `compileEach`: compile expressions one by one, each in the scope that the ones before it leave
- `Interpreter.evaluateEach`: evaluate compiled expressions one after the other
- `Code.StandFor`: nodes that do what compiled expressions do

## Main statements

- `Compiled.WellFormed.eval_behind`: code behind other code is evaluated as on its own
- `lowerMembers_of_compileEach`: members compiled behind each other become what they become alone
- `Code.StandFor.evaluate_sequence`: a sequence of nodes does what they do one after the other
- `sequence_is_its_members`: a sequence does what its members do one by one
-/

namespace ExprCore

open Eval Interpreter

section Moved

variable {base c d : Code}

variable (hd : (base.append c).Extends d)

include hd

theorem Code.get?_behind {id : NodeId} {node : Node} {span : Span}
    (hget : c.get? id = some ⟨node, span⟩) :
    d.get? (id.behind base) = some ⟨node.behind base, span⟩ :=
  hd.get? (by rw [get?_append, hget]; rfl)

theorem Code.list_behind {r : Segment} (hr : c.lists.Within r) :
    d.lists.read (r.behind base.lists) = (c.lists.read r).map (·.behind base) := by
  have hmap : (c.lists.map (·.behind base)).Within r := by
    rw [Pool.Within, Pool.size_map]
    exact hr
  rw [hd.list (Pool.within_append hmap)]
  exact (Pool.read_append _ _ _).trans (Pool.read_map _ _ _)

theorem Code.slotList_behind {r : Segment} (hr : c.slots.Within r) :
    d.slots.read (r.behind base.slots) = c.slots.read r := by
  rw [hd.slotList (Pool.within_append hr)]
  exact Pool.read_append _ _ _

theorem Code.Place.behind {id : NodeId} {slot : Slot} {path : List NodeId}
    (h : c.Place id slot path) : d.Place (id.behind base) slot (path.map (·.behind base)) := by
  induction h with
  | var hget => exact .var (get?_behind hd hget)
  | index hget hlt _ ih =>
    rw [List.map_append]
    exact .index (get?_behind hd hget) (Nat.add_lt_add_left hlt _) ih

/-- A node that was moved does with the operands that were moved what it did with its own ones. -/
theorem Compiled.WellFormed.step_behind {root : NodeId} {scope : Scope}
    (h : Compiled.WellFormed ⟨c, root⟩ scope) {id : NodeId} {node : Node} {span : Span}
    (hget : c.get? id = some ⟨node, span⟩) (i : Interpreter) (eval : NodeId → Eval Value) :
    i.step d eval (node.behind base) = i.step c (fun id => eval (id.behind base)) node := by
  have hformed : c.Formed scope node := h.formed _ _ _ hget
  cases node with
  | int | float | bool | var | assign | step | unary | binary => rfl
  | list items | call _ _ items =>
    simp only [Node.behind, Interpreter.step, Code.list_behind hd hformed, List.mapM_map]
    rfl
  | sequence items =>
    simp only [Node.behind, Interpreter.step, Code.list_behind hd hformed, List.foldlM_map]
  | unset slots =>
    simp only [Node.behind, Interpreter.step, Code.slotList_behind hd hformed.1]
  | index target position => cases position <;> rfl
  | storeElement target position value =>
    obtain ⟨slot, path, hplace⟩ := hformed
    have hlength : path.length < c.size := by
      have htarget := h.operands_lt _ _ _ hget target (List.mem_cons_self ..)
      exact Nat.lt_of_le_of_lt hplace.length_le (Nat.lt_trans htarget (Code.index_lt_size hget))
    have hlength' : (path.map (·.behind base)).length < d.size := by
      have hsize := hd.size_le
      rw [Code.size_append] at hsize
      rw [List.length_map]
      omega
    have hkeys : (path.map (·.behind base)).map some ++ [position.map (·.behind base)]
        = (path.map some ++ [position]).map (Option.map (·.behind base)) := by simp
    have hkey : evalKey (fun id => eval (id.behind base))
        = evalKey eval ∘ Option.map (·.behind base) := by
      funext position
      cases position <;> rfl
    simp only [Node.behind, Interpreter.step, Interpreter.storeElement, hplace.place?_eq hlength,
      (hplace.behind hd).place?_eq hlength', hkeys, List.mapM_map, hkey]

/-- Code behind other code is evaluated as on its own. -/
theorem Compiled.WellFormed.eval_behind {root : NodeId} {scope : Scope}
    (h : Compiled.WellFormed ⟨c, root⟩ scope) (i : Interpreter) (fuel : Nat) {id : NodeId}
    (hid : id.index < c.size) : i.eval d fuel (id.behind base) = i.eval c fuel id := by
  induction fuel generalizing id with
  | zero => rfl
  | succ fuel ih =>
    obtain ⟨⟨node, span⟩, hget⟩ : ∃ found, c.get? id = some found :=
      ⟨_, Array.getElem?_eq_getElem hid⟩
    rw [Interpreter.eval_of_get? hget, Interpreter.eval_of_get? (Code.get?_behind hd hget),
      h.step_behind hd hget]
    simp only [step_eq_run_plan]
    congr 1
    exact Plan.run_congr (h.safe_plan hget) fun x hx => ih (Nat.lt_trans hx hid)

theorem Compiled.WellFormed.evaluate_behind {root : NodeId} {scope : Scope}
    (h : Compiled.WellFormed ⟨c, root⟩ scope) (i : Interpreter) {fuel : Nat}
    (hfuel : c.size ≤ fuel) :
    i.eval d fuel (root.behind base) = i.evaluate ⟨c, root⟩ := by
  have hroot : root.index < c.size := h.root_lt
  rw [h.eval_behind hd i fuel hroot]
  exact h.eval_eq i (by omega) (Nat.lt_of_lt_of_le hroot (Nat.le_add_right _ _))

end Moved

section Compile

variable {names : NameTable} {scope t : Scope} {e : Expr} {c : Compiled} {why : CompileError}

/-- An expression that is compiled behind other code becomes what it becomes on its own. -/
theorem lower_of_compile (h : compile names scope (some e) = ⟨.ok c, t⟩) (base : Code) :
    lower names e ⟨scope, base⟩ = .ok (c.root.behind base) ⟨t, base.append c.code⟩ := by
  rw [(Lower.moves_lower names e base).on_base scope]
  simp only [compile, Compilation.ofLower, EStateM.run] at h
  split at h
  · rename_i hrun
    cases h
    rw [hrun]
    rfl
  · cases h

theorem lower_of_compile_eq_error (h : compile names scope (some e) = ⟨.error why, t⟩)
    (base : Code) : ∃ code, lower names e ⟨scope, base⟩ = .error why ⟨t, code⟩ := by
  rw [(Lower.moves_lower names e base).on_base scope]
  simp only [compile, Compilation.ofLower, EStateM.run] at h
  split at h
  · cases h
  · rename_i hrun
    cases h
    rw [hrun]
    exact ⟨_, rfl⟩

end Compile

/-- Compile an expression as a step that leaves the scope to the next one. -/
def compileStep (names : NameTable) (root : Option Expr) : EStateM CompileError Scope Compiled :=
  fun scope =>
    match compile names scope root with
    | ⟨.ok c, scope⟩ => .ok c scope
    | ⟨.error e, scope⟩ => .error e scope

/-- Compile expressions one by one, each on its own, in the scope that the ones before it leave. -/
def compileEach (names : NameTable) (members : List (Option Expr)) :
    EStateM CompileError Scope (List Compiled) :=
  members.mapM (compileStep names)

/-- Evaluate compiled expressions one after the other; the last one gives the value. -/
def Interpreter.evaluateEach (i : Interpreter) (cs : List Compiled) : Eval Value :=
  cs.foldlM (fun _ c => i.evaluate c) .null

section Members

variable {names : NameTable} {scope t : Scope} {e : CompileError} {c : Compiled}
  {cs : List Compiled} {members : List (Option Expr)}

theorem compileEach_cons_of_ok {member : Option Expr}
    (h : compile names scope member = ⟨.ok c, t⟩) :
    compileEach names (member :: members) scope
      = match compileEach names members t with
        | .ok cs u => .ok (c :: cs) u
        | .error e u => .error e u := by
  simp only [compileEach, List.mapM_cons, bind, EStateM.bind, compileStep, h]
  cases members.mapM (compileStep names) t <;> rfl

theorem compileEach_cons_of_error {member : Option Expr}
    (h : compile names scope member = ⟨.error e, t⟩) :
    compileEach names (member :: members) scope = .error e t := by
  simp only [compileEach, List.mapM_cons, bind, EStateM.bind, compileStep, h]

/-- In all code that goes on from `code`, the nodes do what the compiled expressions do. -/
def Code.StandFor (code : Code) (ids : List NodeId) (cs : List Compiled) : Prop :=
  ∀ (i : Interpreter) {d : Code} {fuel : Nat}, code.Extends d → code.size ≤ fuel →
    ids.map (i.eval d fuel) = cs.map i.evaluate

namespace Code.StandFor

variable {base code : Code} {ids : List NodeId}

theorem cons (hc : c.WellFormed scope) (hbase : (base.append c.code).Extends code)
    (h : code.StandFor ids cs) : code.StandFor (c.root.behind base :: ids) (c :: cs) := by
  intro i d fuel hd hfuel
  have hsize := hbase.size_le
  rw [size_append] at hsize
  have hfirst := hc.evaluate_behind (hbase.trans hd) i (show c.code.size ≤ fuel by omega)
  rw [List.map_cons, List.map_cons, hfirst, h i hd hfuel]

/-- A sequence of nodes does what the compiled expressions do one after the other. -/
theorem evaluate_sequence {s : LowerState} (h : s.code.StandFor ids cs) (i : Interpreter)
    (span : Span) :
    i.evaluate ⟨((s.addList ids).add (.sequence (s.segment ids)) span).code, (s.addList ids).next⟩
      = located span (i.evaluateEach cs) := by
  let u := (s.addList ids).add (.sequence (s.segment ids)) span
  have hget := LowerState.get?_of_extends (Extends.refl u.code)
  have hsize : u.code.size + circleDepth = s.code.size + circleDepth + 1 := by
    rw [LowerState.size_add, LowerState.size_addList]
    exact Nat.add_right_comm _ _ _
  have hu : (s.addList ids).code.Extends u.code := extends_add _ _ _
  -- one level of depth goes to the sequence itself, and the rest is enough for every member
  have hitems := h i ((extends_addList _ _).trans hu) (Nat.le_add_right _ circleDepth)
  have heval : i.evaluate ⟨u.code, (s.addList ids).next⟩ = located span
      (ids.foldlM (fun _ id => i.eval u.code (s.code.size + circleDepth) id) .null) := by
    rw [evaluate, hsize, Interpreter.eval_of_get? hget, Interpreter.step,
      LowerState.read_of_extends hu]
  rw [heval, evaluateEach]
  congr 1
  have hfold := congrArg (List.foldlM (fun _ x => x) Value.null) hitems
  rwa [List.foldlM_map, List.foldlM_map] at hfold

end Code.StandFor

/-- The members of a sequence, which are compiled behind each other, become what they become one by
one, and the first one that does not compile gives the error. -/
theorem lowerMembers_of_compileEach (names : NameTable) (members : List (Option Expr))
    (scope : Scope) (done : List NodeId) (base : Code) :
    match compileEach names members scope with
    | .ok cs t => ∃ ids code, lowerMembers names done members ⟨scope, base⟩
        = .ok (done.reverse ++ ids) ⟨t, code⟩ ∧ base.Extends code ∧ code.StandFor ids cs
    | .error e t => ∃ code, lowerMembers names done members ⟨scope, base⟩ = .error e ⟨t, code⟩ := by
  induction members generalizing scope done base with
  | nil =>
    refine ⟨[], base, ?_, .refl _, fun _ _ _ _ _ => rfl⟩
    rw [lowerMembers, List.append_nil]
    rfl
  | cons member members ih =>
    cases member with
    | none => exact ⟨base, rfl⟩
    | some e =>
      cases hcompile : compile names scope (some e) with
      | mk result s =>
        cases result with
        | error why =>
          rw [compileEach_cons_of_error hcompile]
          obtain ⟨code, hlower⟩ := lower_of_compile_eq_error hcompile base
          refine ⟨code, ?_⟩
          simp only [lowerMembers, bind, EStateM.bind, hlower]
        | ok c =>
          have hlower := lower_of_compile hcompile base
          have hstep : lowerMembers names done (some e :: members) ⟨scope, base⟩
              = lowerMembers names (c.root.behind base :: done) members
                  ⟨s, base.append c.code⟩ := by
            simp only [lowerMembers, bind, EStateM.bind, hlower]
          have hrest := ih s (c.root.behind base :: done) (base.append c.code)
          rw [compileEach_cons_of_ok hcompile, hstep]
          cases heach : compileEach names members s with
          | error why u =>
            rw [heach] at hrest
            exact hrest
          | ok cs u =>
            rw [heach] at hrest
            obtain ⟨ids, code, hmembers, hextends, hstand⟩ := hrest
            have hbase := (Code.extends_append base c.code).trans hextends
            refine ⟨c.root.behind base :: ids, code, ?_, hbase, ?_⟩
            · rw [hmembers, List.reverse_cons, List.append_assoc]
              rfl
            · exact hstand.cons (wellFormed_of_compile hcompile) hextends

/-- A sequence compiles when its members compile one by one, and then it does what they do one after
the other. Otherwise it fails as the first member that does not compile. -/
theorem compileSequence_of_compileEach (names : NameTable) (scope : Scope)
    (hlength : members.length ≤ maxListLength) :
    match compileEach names members scope with
    | .ok cs t => ∃ c, compileSequence names scope members = ⟨.ok c, t⟩
        ∧ ∀ i : Interpreter, i.evaluate c = located (sequenceSpan members) (i.evaluateEach cs)
    | .error e t => compileSequence names scope members = ⟨.error e, t⟩ := by
  have hmembers := lowerMembers_of_compileEach names members scope [] .empty
  have hsequence : compileSequence names scope members
      = .ofLower scope (lowerSequence names members) := if_neg (Nat.not_lt.2 hlength)
  rw [hsequence]
  cases heach : compileEach names members scope with
  | error e t =>
    rw [heach] at hmembers
    obtain ⟨code, hmembers⟩ := hmembers
    simp only [Compilation.ofLower, EStateM.run, lowerSequence, bind, EStateM.bind, hmembers]
  | ok cs t =>
    rw [heach] at hmembers
    obtain ⟨ids, code, hmembers, -, hstand⟩ := hmembers
    refine ⟨_, ?_, fun i => Code.StandFor.evaluate_sequence (s := ⟨t, code⟩) hstand i _⟩
    simp only [Compilation.ofLower, EStateM.run, lowerSequence, bind, EStateM.bind, hmembers]
    rfl

theorem compileSequence_eq_error_iff (hlength : members.length ≤ maxListLength) :
    compileSequence names scope members = ⟨.error e, t⟩
      ↔ compileEach names members scope = .error e t := by
  have hsequence := compileSequence_of_compileEach names scope hlength
  cases heach : compileEach names members scope with
  | error why u =>
    rw [heach] at hsequence
    rw [hsequence]
    exact ⟨fun h => by cases h; rfl, fun h => by cases h; rfl⟩
  | ok cs u =>
    rw [heach] at hsequence
    obtain ⟨c, hc, -⟩ := hsequence
    rw [hc]
    exact ⟨nofun, nofun⟩

theorem compileSequence_of_compileEach_eq_ok (hlength : members.length ≤ maxListLength)
    (h : compileEach names members scope = .ok cs t) :
    ∃ c, compileSequence names scope members = ⟨.ok c, t⟩
      ∧ ∀ i : Interpreter, (i.evaluate c).unplaced = (i.evaluateEach cs).unplaced := by
  have hsequence := compileSequence_of_compileEach names scope hlength
  rw [h] at hsequence
  obtain ⟨c, hc, hrun⟩ := hsequence
  refine ⟨c, hc, fun i => ?_⟩
  rw [hrun, unplaced_located]

/-- A sequence that compiles has members that compile one by one. -/
theorem compileEach_of_compileSequence (hlength : members.length ≤ maxListLength)
    (h : compileSequence names scope members = ⟨.ok c, t⟩) :
    ∃ cs, compileEach names members scope = .ok cs t
      ∧ ∀ i : Interpreter, (i.evaluate c).unplaced = (i.evaluateEach cs).unplaced := by
  cases heach : compileEach names members scope with
  | error e u =>
    rw [(compileSequence_eq_error_iff hlength).2 heach] at h
    cases h
  | ok cs u =>
    obtain ⟨c', hc, hrun⟩ := compileSequence_of_compileEach_eq_ok hlength heach
    rw [hc] at h
    cases h
    exact ⟨cs, rfl, hrun⟩

theorem compileEach_append (names : NameTable) (xs ys : List (Option Expr)) (scope : Scope) :
    compileEach names (xs ++ ys) scope
      = match compileEach names xs scope with
        | .error e t => .error e t
        | .ok cs t =>
          match compileEach names ys t with
          | .error e u => .error e u
          | .ok ds u => .ok (cs ++ ds) u := by
  simp only [compileEach, List.mapM_append, bind, EStateM.bind]
  cases xs.mapM (compileStep names) scope with
  | error e t => rfl
  | ok cs t =>
    dsimp only
    cases ys.mapM (compileStep names) t with
    | error e u => rfl
    | ok ds u => rfl

theorem length_of_compileEach (h : compileEach names members scope = .ok cs t) :
    cs.length = members.length := by
  induction members generalizing scope cs with
  | nil =>
    cases h
    rfl
  | cons member members ih =>
    cases hcompile : compile names scope member with
    | mk result s =>
      cases result with
      | error why =>
        rw [compileEach_cons_of_error hcompile] at h
        cases h
      | ok c =>
        rw [compileEach_cons_of_ok hcompile] at h
        cases heach : compileEach names members s with
        | error e u =>
          rw [heach] at h
          cases h
        | ok cs u =>
          rw [heach] at h
          cases h
          rw [List.length_cons, List.length_cons, ih heach]

/-- The value of expressions in a row is that of the last one, so what comes first counts only where
nothing follows. -/
theorem Interpreter.evaluateEach_append (i : Interpreter) (cs ds : List Compiled) :
    i.evaluateEach (cs ++ ds)
      = i.evaluateEach cs >>= fun v => if ds = [] then pure v else i.evaluateEach ds := by
  rw [evaluateEach, List.foldlM_append]
  congr 1
  funext v
  cases ds with
  | nil => rfl
  | cons d ds => rw [if_neg (List.cons_ne_nil d ds)]; rfl

end Members

/-- If the members of a sequence compile one after the other, the sequence compiles, leaves the same
scope, and does what they do one after the other, up to the first error: it yields the last value,
or `null` without members, and leaves the same frame and the same requests, and an error is the same
but for its place. If a member does not compile, the sequence fails as the first such member. One
sequence behind another one therefore does what both do, the first one first. -/
theorem sequence_is_its_members (names : NameTable) (scope : Scope) (members : List (Option Expr))
    (hlength : members.length ≤ maxListLength) :
    (∀ cs t, compileEach names members scope = .ok cs t →
        ∃ c, compileSequence names scope members = ⟨.ok c, t⟩
          ∧ ∀ i : Interpreter, (i.evaluate c).unplaced = (i.evaluateEach cs).unplaced)
      ∧ (∀ e t, compileEach names members scope = .error e t →
          compileSequence names scope members = ⟨.error e, t⟩)
      ∧ ∀ xs ys, members = xs ++ ys →
          (∀ e t, compileSequence names scope xs = ⟨.error e, t⟩ →
            compileSequence names scope members = ⟨.error e, t⟩)
          ∧ ∀ cx t, compileSequence names scope xs = ⟨.ok cx, t⟩ →
            (∀ e u, compileSequence names t ys = ⟨.error e, u⟩ →
              compileSequence names scope members = ⟨.error e, u⟩)
            ∧ ∀ cy u, compileSequence names t ys = ⟨.ok cy, u⟩ →
              ∃ c, compileSequence names scope members = ⟨.ok c, u⟩
                ∧ ∀ i : Interpreter, (i.evaluate c).unplaced
                  = (i.evaluate cx >>= fun v =>
                      if ys = [] then pure v else i.evaluate cy).unplaced := by
  refine ⟨fun cs t h => compileSequence_of_compileEach_eq_ok hlength h,
    fun e t h => (compileSequence_eq_error_iff hlength).2 h, ?_⟩
  rintro xs ys rfl
  have hlengths := hlength
  rw [List.length_append] at hlengths
  have hxs : xs.length ≤ maxListLength := by omega
  have hys : ys.length ≤ maxListLength := by omega
  refine ⟨fun e t hx => ?_, fun cx t hx => ?_⟩
  · rw [compileSequence_eq_error_iff hxs] at hx
    rw [compileSequence_eq_error_iff hlength, compileEach_append, hx]
  · obtain ⟨cs, hcs, hrunx⟩ := compileEach_of_compileSequence hxs hx
    refine ⟨fun e u hy => ?_, fun cy u hy => ?_⟩
    · rw [compileSequence_eq_error_iff hys] at hy
      rw [compileSequence_eq_error_iff hlength, compileEach_append, hcs]
      simp only [hy]
    · obtain ⟨ds, hds, hruny⟩ := compileEach_of_compileSequence hys hy
      have happend : compileEach names (xs ++ ys) scope = .ok (cs ++ ds) u := by
        rw [compileEach_append, hcs]
        simp only [hds]
      obtain ⟨c, hc, hrun⟩ := compileSequence_of_compileEach_eq_ok hlength happend
      have hempty : ds = [] ↔ ys = [] := by
        rw [← List.length_eq_zero_iff, ← List.length_eq_zero_iff, length_of_compileEach hds]
      refine ⟨c, hc, fun i => ?_⟩
      rw [hrun, evaluateEach_append]
      refine unplaced_bind_congr (hrunx i).symm fun v => ?_
      by_cases hnil : ys = []
      · rw [if_pos hnil, if_pos (hempty.2 hnil)]
      · rw [if_neg hnil, if_neg (mt hempty.1 hnil)]
        exact (hruny i).symm

/-- The sequence `$a = [], +$a, $b = $a` stops at its second member, which sees the variable that
the first one binds, and the third one is not evaluated. -/
theorem sequence_is_its_members_stopped :
    let a : Expr := .mk .dummy (.var ⟨1⟩)
    let first : Expr := .mk .dummy (.assign .equal a (.mk .dummy (.array [])))
    let third : Expr := .mk .dummy (.assign .equal (.mk .dummy (.var ⟨2⟩)) a)
    let members := [some first, some (.mk .dummy (.unary .plus a)), some third]
    let i : Interpreter := ⟨.new, .none, .strict⟩
    let stop : Stop := .error (.invalidUnaryOp .plus "array")
    ∃ cs t c, compileEach .new members .root = .ok cs t
      ∧ compileSequence .new .root members = ⟨.ok c, t⟩
      ∧ (i.evaluate c).unplaced = (i.evaluateEach cs).unplaced
      ∧ i.evaluate c ⟨.empty, #[]⟩ = .error stop ⟨Frame.empty.set ⟨0⟩ (.array #[]), #[]⟩ := by
  intro a first third members i stop
  have hmembers := (sequence_is_its_members .new .root members (by decide)).1 _ _ rfl
  obtain ⟨c, hc, hrun⟩ := hmembers
  refine ⟨_, _, c, rfl, hc, hrun i, ?_⟩
  obtain rfl := Except.ok.inj (congrArg Compilation.result hc)
  subst stop i members third first a
  rfl

end ExprCore
