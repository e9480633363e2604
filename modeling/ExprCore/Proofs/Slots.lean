import ExprCore.Proofs.AddedNames
import ExprCore.Proofs.Safety
import ExprCore.Proofs.Targets
import ExprCore.Proofs.WriteTargets

/-!
# Slots of a scope

A scope changes by definitions and by compilations. Its slots stay dense and stable, code stays
within the slots of the scope that it was compiled in, and so do the writes of its evaluation: a
frame that has room for the scope keeps its length.

## Main definitions

- `ScopeCall`: what changes a scope
- `Scope.Reached`: a scope after some calls, with the code compiled on the way
- `Code.slotsOf`: the slots that stand in a node
- `Machine.afterAll`: evaluations one after the other

## Main statements

- `ScopeCall.added_of_run`, `ScopeCall.run_again`: what a call that succeeds adds
- `Scope.Reached.wellFormed`: all code is well formed in the scope as it is now
- `slots_are_dense_and_stable`: the slots of a scope and of its code
-/

namespace ExprCore

theorem Compilation.eq_of_run_ok {done : Compilation} {c? : Option Compiled} {t : Scope}
    (h : (done.result.map some, done.scope) = (.ok c?, t)) :
    ∃ c, c? = some c ∧ done = ⟨.ok c, t⟩ := by
  obtain ⟨result, scope⟩ := done
  cases result with
  | error e => cases h
  | ok c =>
    cases h
    exact ⟨c, rfl, rfl⟩

/-- What changes a scope. -/
inductive ScopeCall where
  /-- A definition from outside. -/
  | define (name : Name)
  | compile (names : NameTable) (root : Option Expr)
  | compileSequence (names : NameTable) (members : List (Option Expr))

namespace ScopeCall

/-- What a call yields, and the scope afterwards. A definition yields no code. -/
def run (s : Scope) : ScopeCall → Except CompileError (Option Compiled) × Scope
  | define name => (.ok none, (s.define name).2)
  | compile names root =>
    let done := ExprCore.compile names s root
    (done.result.map some, done.scope)
  | compileSequence names members =>
    let done := ExprCore.compileSequence names s members
    (done.result.map some, done.scope)

/-- The call defines the name, or compiles an expression with that target. -/
def Writes (name : Name) : ScopeCall → Prop
  | define other => other = name
  | compile _ root => ∃ e, root = some e ∧ e.HasTarget name
  | compileSequence _ members => ∃ e, some e ∈ members ∧ e.HasTarget name

variable {s t : Scope} {call : ScopeCall} {c? : Option Compiled}

/-- A call only adds names, whether it succeeds or not. -/
theorem continues_of_run {result : Except CompileError (Option Compiled)}
    (h : call.run s = (result, t)) : s.Continues t := by
  obtain rfl : (call.run s).2 = t := congrArg Prod.snd h
  cases call with
  | define name => exact s.continues_define name
  | compile names root => exact continues_compile names s root
  | compileSequence names members => exact continues_compileSequence names s members

/-- A call that succeeds brings the names that it writes into sight and no other name. -/
theorem sight_run (h : call.run s = (.ok c?, t)) :
    ∃ written, t.sight = s.sight.adding written ∧ ∀ name, name ∈ written ↔ call.Writes name := by
  cases call with
  | define name =>
    cases h
    exact ⟨[name], s.sight_define name, fun other => List.mem_singleton.trans eq_comm⟩
  | compile names root =>
    obtain ⟨c, -, hcompile⟩ := Compilation.eq_of_run_ok h
    obtain ⟨e, rfl, hlowered⟩ := lowered_of_compile hcompile
    refine ⟨e.written, hlowered.sight_eq, fun name => ?_⟩
    rw [Supported.mem_written_iff hlowered.supported]
    simp [Writes]
  | compileSequence names members =>
    obtain ⟨c, -, hcompile⟩ := Compilation.eq_of_run_ok h
    obtain ⟨es, ids, u, rfl, hlowered, -, hstate⟩ := lowered_of_compileSequence hcompile
    have hscope : t = u.scope := congrArg LowerState.scope hstate
    refine ⟨writtenInAll es, hscope ▸ hlowered.sight_eq, fun name => ?_⟩
    have hsupported : ∀ e ∈ es, Supported names .value e := hlowered.supported
    simp only [mem_writtenInAll, Writes, List.mem_map, Option.some.injEq, exists_eq_right]
    exact exists_congr fun e => and_congr_right fun he => (hsupported e he).mem_written_iff

/-- A call that succeeds in one scope succeeds in every scope. -/
theorem succeeds_of_run (h : call.run s = (.ok c?, t)) (other : Scope) :
    ∃ c?' t', call.run other = (.ok c?', t') := by
  cases call with
  | define name => exact ⟨_, _, rfl⟩
  | compile names root =>
    obtain ⟨c, -, hcompile⟩ := Compilation.eq_of_run_ok h
    obtain ⟨e, rfl, hlowered⟩ := lowered_of_compile hcompile
    obtain ⟨c', t', hagain⟩ := Supported.compiles hlowered.supported other
    exact ⟨some c', t', by rw [run, hagain]; rfl⟩
  | compileSequence names members =>
    obtain ⟨c, -, hcompile⟩ := Compilation.eq_of_run_ok h
    obtain ⟨es, ids, u, rfl, hlowered, -, -⟩ := lowered_of_compileSequence hcompile
    have hlength : es.length ≤ maxListLength := by
      unfold ExprCore.compileSequence at hcompile
      split at hcompile
      next => cases hcompile
      next hfits => rwa [Nat.not_lt, List.length_map] at hfits
    obtain ⟨c', t', hagain⟩ := Supported.compiles_sequence hlowered.supported hlength other
    exact ⟨some c', t', by rw [run, hagain]; rfl⟩

/-- A call that succeeded changes nothing when it is repeated. -/
theorem run_again (h : call.run s = (.ok c?, t)) : ∃ c?', call.run t = (.ok c?', t) := by
  obtain ⟨c?', t', hagain⟩ := succeeds_of_run h t
  obtain ⟨written, hwritten, hmem⟩ := sight_run h
  obtain ⟨written', hwritten', hmem'⟩ := sight_run hagain
  have hsight : t'.sight = t.sight := by
    rw [hwritten', hwritten]
    funext name
    have hsame : written'.contains name = written.contains name := by
      rw [Bool.eq_iff_iff, List.contains_iff_mem, List.contains_iff_mem, hmem, hmem']
    rw [Sight.adding, Sight.adding, hsame, Bool.or_assoc, Bool.or_self]
  exact ⟨c?', by rw [hagain, (continues_of_run hagain).eq_of_sight_eq hsight]⟩

/-- A call that succeeds adds the names that it writes and that are not bound yet, behind the names
that are there. -/
theorem added_of_run (h : call.run s = (.ok c?, t)) :
    ∃ added, t.names.items = s.names.items ++ added
      ∧ ∀ name, name ∈ added ↔ call.Writes name ∧ s.find? name = none := by
  obtain ⟨written, hwritten, hmem⟩ := sight_run h
  obtain ⟨added, hitems, hadded⟩ := (continues_of_run h).added written hwritten
  exact ⟨added, hitems, fun name => by rw [hadded, hmem]⟩

theorem wellFormed_run {c : Compiled} (h : call.run s = (.ok (some c), t)) : c.WellFormed t := by
  cases call with
  | define name => cases h
  | compile names root =>
    obtain ⟨c', heq, hcompile⟩ := Compilation.eq_of_run_ok h
    cases heq
    exact wellFormed_of_compile hcompile
  | compileSequence names members =>
    obtain ⟨c', heq, hcompile⟩ := Compilation.eq_of_run_ok h
    cases heq
    exact wellFormed_of_compileSequence hcompile

end ScopeCall

/-- The scope that comes out of a new one by some calls, and the code compiled on the way, latest
first. A call that fails leaves its bindings but no code. -/
inductive Scope.Reached : Scope → List Compiled → Prop where
  | new (id : ScopeId) : Reached (.new id) []
  | done {s t compiled c?} (call : ScopeCall) (hrun : call.run s = (.ok c?, t))
      (h : Reached s compiled) : Reached t (c?.toList ++ compiled)
  | failed {s t compiled e} (call : ScopeCall) (hrun : call.run s = (.error e, t))
      (h : Reached s compiled) : Reached t compiled

namespace Compiled.WellFormed

variable {c : Compiled} {s t : Scope}

/-- Code stays well formed while its scope grows. -/
theorem mono (h : c.WellFormed s) (hst : s.Continues t) : c.WellFormed t := by
  refine { h with formed := fun id node span hget => ?_ }
  have hformed := h.formed id node span hget
  have hle := hst.slotCount_le
  cases node with
  | var name slot => exact fun x hx => hst.extends (hformed x hx)
  | assign slot value => exact Nat.lt_of_lt_of_le hformed hle
  | step slot delta fixity => exact Nat.lt_of_lt_of_le hformed hle
  | unset slots =>
    exact ⟨hformed.1, fun slot hslot => Nat.lt_of_lt_of_le (hformed.2 slot hslot) hle⟩
  | int | float | bool | unary | binary | list | index | storeElement | call | sequence =>
    exact hformed

end Compiled.WellFormed

/-- The slots that stand in a node. A read may have none. -/
def Code.slotsOf (code : Code) : Node → List Slot
  | .var _ slot => slot.toList
  | .assign slot _ | .step slot _ _ => [slot]
  | .unset slots => code.slots.read slots
  | .int _ | .float _ | .bool _ | .unary .. | .binary .. | .list _ | .index .. | .storeElement ..
  | .call .. | .sequence _ => []

namespace Compiled.WellFormed

variable {c : Compiled} {s : Scope}

theorem index_lt_of_mem_slotsOf (h : c.WellFormed s) {id : NodeId} {node : Node} {span : Span}
    (hget : c.code.get? id = some ⟨node, span⟩) {slot : Slot}
    (hslot : slot ∈ c.code.slotsOf node) : slot.index < s.slotCount := by
  have hformed := h.formed id node span hget
  cases node with
  | var name found => exact Scope.index_lt_slotCount (hformed slot (Option.mem_toList.1 hslot))
  | assign other value =>
    rw [List.mem_singleton.1 hslot]
    exact hformed
  | step other delta fixity =>
    rw [List.mem_singleton.1 hslot]
    exact hformed
  | unset slots => exact hformed.2 slot hslot
  | int | float | bool | unary | binary | list | index | storeElement | call | sequence =>
    exact absurd hslot List.not_mem_nil

theorem index_lt_of_isTarget (h : c.WellFormed s) {slot : Slot} (hslot : c.code.IsTarget slot) :
    slot.index < s.slotCount := by
  obtain ⟨id, node, span, hget, hslot⟩ := hslot
  cases node with
  | storeElement target position value =>
    obtain ⟨base, path, hbase, -, hplace⟩ := h.place?_eq hget
    simp only [Code.targets, hplace] at hslot
    rw [List.mem_singleton.1 hslot]
    exact hbase
  | assign | step | unset => exact h.index_lt_of_mem_slotsOf hget hslot
  | int | float | bool | var | unary | binary | list | index | call | sequence =>
    exact absurd hslot List.not_mem_nil

end Compiled.WellFormed

theorem Scope.Reached.wellFormed {s : Scope} {compiled : List Compiled} (h : s.Reached compiled) :
    ∀ c ∈ compiled, c.WellFormed s := by
  induction h with
  | new id => exact nofun
  | done call hrun _ ih =>
    intro c hc
    rcases List.mem_append.1 hc with hc | hc
    · cases Option.mem_toList.1 hc
      exact ScopeCall.wellFormed_run hrun
    · exact (ih c hc).mono (ScopeCall.continues_of_run hrun)
  | failed call hrun _ ih => exact fun c hc => (ih c hc).mono (ScopeCall.continues_of_run hrun)

/-- Evaluations one after the other on one frame, each with an interpreter of its own. One that
fails leaves what it has written. -/
def Machine.afterAll (m : Machine) (runs : List (Interpreter × Compiled)) : Machine :=
  runs.foldl (fun m run => (run.1.evaluate run.2).after m) m

/-- A frame that has room for the scope keeps its length. -/
theorem Scope.Reached.size_afterAll {s : Scope} {compiled : List Compiled} (h : s.Reached compiled)
    {runs : List (Interpreter × Compiled)} (hruns : ∀ run ∈ runs, run.2 ∈ compiled) {m : Machine}
    (hroom : s.slotCount ≤ m.frame.size) : (m.afterAll runs).frame.size = m.frame.size := by
  induction runs generalizing m with
  | nil => rfl
  | cons run runs ih =>
    rw [List.forall_mem_cons] at hruns
    have hsize : ((run.1.evaluate run.2).after m).frame.size = m.frame.size := by
      refine (run.1.writes_evaluate run.2 m).size_eq fun slot hslot => ?_
      have hlt := (h.wellFormed run.2 hruns.1).index_lt_of_isTarget hslot
      exact Nat.lt_of_lt_of_le hlt hroom
    have hrest := ih hruns.2 (hsize ▸ hroom)
    exact hrest.trans hsize

/-- Names and slots of a scope belong to each other one to one, and there is a name for every slot
below the number of slots. Every call keeps the slots of the names and adds names at the end only;
one that succeeds adds the names that it writes, as far as they are new, and nothing when it is
repeated. The slots that stand in code are slots of the scope, also as it is later, and the target
of an element write leads to one. Evaluations never change the length of a frame that has room for
the scope. -/
theorem slots_are_dense_and_stable {s : Scope} {compiled : List Compiled}
    (h : s.Reached compiled) :
    ((∀ name slot, s.find? name = some slot → slot.index < s.slotCount)
        ∧ (∀ n, n < s.slotCount → ∃ name, s.find? name = some ⟨n⟩)
        ∧ ∀ name other slot, s.find? name = some slot → s.find? other = some slot → name = other)
      ∧ (∀ (call : ScopeCall) result t, call.run s = (result, t) →
          s.Extends t ∧ ∃ added, t.names.items = s.names.items ++ added)
      ∧ (∀ (call : ScopeCall) c? t, call.run s = (.ok c?, t) →
          (∃ added, t.names.items = s.names.items ++ added
            ∧ ∀ name, name ∈ added ↔ call.Writes name ∧ s.find? name = none)
          ∧ ∃ c?', call.run t = (.ok c?', t))
      ∧ (∀ c ∈ compiled, ∀ id node span, c.code.get? id = some ⟨node, span⟩ →
          (∀ slot ∈ c.code.slotsOf node, slot.index < s.slotCount)
          ∧ ∀ target position value, node = .storeElement target position value →
              ∃ slot path, slot.index < s.slotCount
                ∧ c.code.place? c.code.size target [position] = .ok (slot, path))
      ∧ ∀ (runs : List (Interpreter × Compiled)) (m : Machine),
          (∀ run ∈ runs, run.2 ∈ compiled) → s.slotCount ≤ m.frame.size →
          (m.afterAll runs).frame.size = m.frame.size := by
  refine ⟨⟨fun name slot => Scope.index_lt_slotCount, fun n hn => ?_,
    fun name other slot => Scope.find?_injective⟩, fun call result t hrun => ?_,
    fun call c? t hrun => ⟨ScopeCall.added_of_run hrun, ScopeCall.run_again hrun⟩,
    fun c hc id node span hget => ⟨fun slot hslot => ?_, ?_⟩,
    fun runs m hruns hroom => h.size_afterAll hruns hroom⟩
  · exact ⟨s.names.items[n], Scope.find?_getElem hn⟩
  · have hcontinues := ScopeCall.continues_of_run hrun
    obtain ⟨added, hadded⟩ := hcontinues.names
    exact ⟨hcontinues.extends, added, hadded.symm⟩
  · exact (h.wellFormed c hc).index_lt_of_mem_slotsOf hget hslot
  · rintro target position value rfl
    obtain ⟨slot, path, hslot, -, hplace⟩ := (h.wellFormed c hc).place?_eq hget
    exact ⟨slot, _, hslot, hplace⟩

/-- `$i = []` is compiled, then `($j = []) && $$j`, which fails once `$j` is bound, and then `$k` is
defined. The code of the first expression keeps the length of a frame of three cells. -/
theorem slots_are_dense_and_stable_failed :
    let assigned (n : Nat) : Expr :=
      .mk .dummy (.assign .equal (.mk .dummy (.var ⟨n⟩)) (.mk .dummy (.array [])))
    let dynamic : Expr := .mk .dummy (.dynamicVar (.mk .dummy (.var ⟨2⟩)))
    let failing : Expr := .mk .dummy (.binary .boolAnd (assigned 2) dynamic)
    ∃ (c : Compiled) (e : CompileError) (s t u : Scope),
      (ScopeCall.compile .new (some (assigned 1))).run (.new .root) = (.ok (some c), s)
      ∧ (ScopeCall.compile .new (some failing)).run s = (.error e, t)
      ∧ (ScopeCall.define ⟨3⟩).run t = (.ok none, u)
      ∧ u.names.items = [⟨1⟩, ⟨2⟩, ⟨3⟩] ∧ u.Reached [c]
      ∧ (Machine.afterAll ⟨.ofCount 3, #[]⟩ [(⟨.new, .none, .strict⟩, c)]).frame.size = 3 := by
  intro assigned dynamic failing
  have hcompile : (ScopeCall.compile .new (some (assigned 1))).run (.new .root)
    = (.ok (some _), _) := rfl
  have hfails : (ScopeCall.compile .new (some failing)).run
    ((ScopeCall.compile .new (some (assigned 1))).run (.new .root)).2 = (.error _, _) := rfl
  have hreached := Scope.Reached.done (.define ⟨3⟩) rfl
    (.failed _ hfails (.done _ hcompile (.new .root)))
  refine ⟨_, _, _, _, _, hcompile, hfails, rfl, rfl, hreached, ?_⟩
  refine (slots_are_dense_and_stable hreached).2.2.2.2 _ ⟨.ofCount 3, #[]⟩ (fun run hrun => ?_) ?_
  · rw [List.mem_singleton.1 hrun]
    exact List.mem_singleton_self _
  · exact Nat.le_refl 3

end ExprCore
