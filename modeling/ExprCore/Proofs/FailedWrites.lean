import ExprCore.Evaluation
import ExprCore.Proofs.Steps

/-!
# Failed writes to elements

A write along a path of keys may get stuck on the way, when arrays were made and elements appended
already. For this reason the path is checked before anything is touched. The check fails exactly
when the write would, so that a write to an element changes all of it or nothing: when it fails,
the machine is the one that the evaluation of its operands has left.

## Main definitions

- `Value.writeInPlace`: the write as it is done in place, which may get stuck halfway
- `Interpreter.FailedWrite`: how a write to an element fails

## Main statements

- `Value.writeInPlace_eq`: the write in place ends like the write that yields a new value
- `failed_element_write_changes_nothing`: the check and the write agree, and a failed write leaves
  what its operands have left
-/

namespace ExprCore

namespace Value

/-- A change of a value in place. When it fails, the value stays as it is at that point. -/
abbrev Change := EStateM EvalError Value Unit

/-- Change the element that a key denotes. On the way `null` becomes an array, and an element at the
end is appended first. -/
def Change.inElement (key : Key) (change : Change) : Change := fun place =>
  match place.openItems with
  | .error e => .error e place
  | .ok items =>
    match writePosition items.size key with
    | .error e => .error e (.array items)
    | .ok position =>
      match change (items[position]?.getD .null) with
      | .ok () element => .ok () (.array (putItem items position element))
      | .error e element => .error e (.array (putItem items position element))

/-- Write at the end of a path of keys, without a look at the path first. -/
def writeInPlace (v : Value) : List Key → Change
  | [] => set v
  | key :: keys => (writeInPlace v keys).inElement key

/-- A write in place leaves what `storeAt` yields, or it fails like that. -/
theorem writeInPlace_eq (v place : Value) (keys : List Key) :
    match writeInPlace v keys place with
    | .ok () w => place.storeAt keys v = .ok w
    | .error e _ => place.storeAt keys v = .error e := by
  induction keys generalizing place with
  | nil => rfl
  | cons key keys ih =>
    rw [storeAt_cons]
    simp only [writeInPlace, Change.inElement]
    cases place.openItems with
    | error e => rfl
    | ok items =>
      cases hposition : writePosition items.size key with
      | error e => simp only [bind, Except.bind, hposition]
      | ok position =>
        have hrest := ih (items[position]?.getD .null)
        simp only [bind, Except.bind, hposition]
        cases hwrite : writeInPlace v keys (items[position]?.getD .null) with
        | ok _ element =>
          rw [hwrite] at hrest
          simp only [hrest, pure, Except.pure]
        | error e _ =>
          rw [hwrite] at hrest
          simp only [hrest]

/-- Without the check, `null` would be turned into an array that holds another one before the key
5 is found to be out of range. -/
example : writeInPlace (.int 1) [none, some 5] .null
    = .error (.indexOutOfRange 5 0) (.array #[.array #[]]) := rfl

end Value

/-- The ways in which a write to an element fails, with the machine that is left. None of them
changes anything that the operands evaluated so far have not changed. -/
inductive Interpreter.FailedWrite (code : Code) (eval : NodeId → Eval Value) (target : NodeId)
    (position : Option NodeId) (value : NodeId) (m : Machine) : Stop → Machine → Prop where
  /-- The target is no place, and nothing is evaluated. -/
  | target {why} (hplace : code.place? code.size target [position] = .error why) :
      FailedWrite code eval target position value m why m
  /-- The evaluation of a key fails. -/
  | key {slot done id rest keys m₁ why m'}
      (hplace : code.place? code.size target [position] = .ok (slot, done ++ some id :: rest))
      (hdone : done.mapM (evalKey eval) m = .ok keys m₁) (hkey : eval id m₁ = .error why m') :
      FailedWrite code eval target position value m why m'
  /-- The value of a key denotes no position. -/
  | index {slot done id rest keys m₁ v m'}
      (hplace : code.place? code.size target [position] = .ok (slot, done ++ some id :: rest))
      (hdone : done.mapM (evalKey eval) m = .ok keys m₁) (hkey : eval id m₁ = .ok v m')
      (hv : v.position? = none) :
      FailedWrite code eval target position value m (.error (.invalidIndex v.typeName)) m'
  /-- The evaluation of the value fails. -/
  | value {slot path keys m₁ why m'}
      (hplace : code.place? code.size target [position] = .ok (slot, path))
      (hkeys : path.mapM (evalKey eval) m = .ok keys m₁) (hvalue : eval value m₁ = .error why m') :
      FailedWrite code eval target position value m why m'
  /-- The path of keys leads nowhere in what the variable holds then. -/
  | write {slot path keys m₁ v m' e}
      (hplace : code.place? code.size target [position] = .ok (slot, path))
      (hkeys : path.mapM (evalKey eval) m = .ok keys m₁) (hvalue : eval value m₁ = .ok v m')
      (hcheck : (m'.frame.content slot).checkPath keys = .error e) :
      FailedWrite code eval target position value m (.error e) m'

section

variable {code : Code} {eval : NodeId → Eval Value} {target id value : NodeId}
  {position : Option NodeId} {m m' : Machine} {why : Stop}

theorem Eval.storeAt_eq_error_iff {slot : Slot} {keys : List Key} {v : Value} :
    storeAt slot keys v m = .error why m'
      ↔ m' = m ∧ ∃ e, (m.frame.content slot).checkPath keys = .error e ∧ why = .error e := by
  rw [storeAt_eq]
  cases hstore : (m.frame.content slot).storeAt keys v with
  | error e =>
    rw [(Value.checkPath_eq_error_iff v).2 hstore]
    constructor
    · intro h
      cases h
      exact ⟨rfl, e, rfl, rfl⟩
    · rintro ⟨rfl, _, h, rfl⟩
      cases h
      rfl
  | ok w =>
    rw [(Value.checkPath_eq_ok_iff v).2 ⟨w, hstore⟩]
    constructor
    · intro h
      cases h
    · rintro ⟨-, _, h, -⟩
      cases h

namespace Interpreter

theorem evalKey_eq_error_iff {key : Option NodeId} :
    evalKey eval key m = .error why m' ↔ ∃ id, key = some id ∧ (eval id m = .error why m'
      ∨ ∃ v, eval id m = .ok v m' ∧ v.position? = none
        ∧ why = .error (.invalidIndex v.typeName)) := by
  cases key with
  | none =>
    constructor
    · intro h
      cases h
    · rintro ⟨_, h, -⟩
      cases h
  | some id =>
    rw [evalKey, bind_eq_error_iff]
    constructor
    · rintro (h | ⟨v, m₁, hv, h⟩)
      · exact ⟨id, rfl, .inl h⟩
      · cases hposition : v.position? with
        | some n =>
          rw [hposition] at h
          cases h
        | none =>
          rw [hposition] at h
          cases h
          exact ⟨id, rfl, .inr ⟨v, hv, hposition, rfl⟩⟩
    · rintro ⟨_, heq, h | ⟨v, hv, hposition, rfl⟩⟩
      · cases heq
        exact .inl h
      · cases heq
        refine .inr ⟨v, m', hv, ?_⟩
        rw [hposition]
        rfl

theorem storeElement_eq_error_iff :
    storeElement code eval target position value m = .error why m'
      ↔ FailedWrite code eval target position value m why m' := by
  unfold storeElement
  constructor
  · intro h
    cases hplace : code.place? code.size target [position] with
    | error stop =>
      rw [hplace] at h
      cases h
      exact .target hplace
    | ok place =>
      obtain ⟨slot, path⟩ := place
      simp only [hplace, bind_eq_error_iff, mapM_eq_error_iff, evalKey_eq_error_iff,
        Eval.storeAt_eq_error_iff] at h
      obtain ⟨done, _, rest, keys, m₁, rfl, hdone, id, rfl, hkey | ⟨v, hkey, hv, rfl⟩⟩
        | ⟨keys, m₁, hkeys, hvalue | ⟨v, m₂, hvalue, ⟨rfl, e, hcheck, rfl⟩ | ⟨_, _, _, h⟩⟩⟩ := h
      · exact .key hplace hdone hkey
      · exact .index hplace hdone hkey hv
      · exact .value hplace hkeys hvalue
      · exact .write hplace hkeys hvalue hcheck
      · cases h
  · intro h
    cases h with
    | target hplace =>
      rw [hplace]
      rfl
    | key hplace hdone hkey =>
      simp only [hplace]
      exact bind_of_error (mapM_eq_error_iff.2
        ⟨_, _, _, _, _, rfl, hdone, evalKey_eq_error_iff.2 ⟨_, rfl, .inl hkey⟩⟩)
    | index hplace hdone hkey hv =>
      simp only [hplace]
      exact bind_of_error (mapM_eq_error_iff.2
        ⟨_, _, _, _, _, rfl, hdone, evalKey_eq_error_iff.2 ⟨_, rfl, .inr ⟨_, hkey, hv, rfl⟩⟩⟩)
    | value hplace hkeys hvalue =>
      simp only [hplace]
      exact bind_of_ok hkeys (bind_of_error hvalue)
    | write hplace hkeys hvalue hcheck =>
      simp only [hplace]
      refine bind_of_ok hkeys (bind_of_ok hvalue (bind_of_error ?_))
      exact Eval.storeAt_eq_error_iff.2 ⟨rfl, _, hcheck, rfl⟩

end Interpreter

end

/-- The check of a path of keys fails exactly when the write along this path would, and with the
same error, whatever the value is that the path starts from. Therefore a node that writes an
element either succeeds or fails in one of the ways of `FailedWrite`, all of which leave exactly the
machine that the operands evaluated so far have left. -/
theorem failed_element_write_changes_nothing (i : Interpreter) {code : Code}
    {id target value : NodeId} {position : Option NodeId} {span : Span}
    (hnode : code.get? id = some ⟨.storeElement target position value, span⟩) :
    (∀ (place v : Value) (keys : List Key),
      match Value.writeInPlace v keys place with
      | .ok () w => place.checkPath keys = .ok () ∧ place.storeAt keys v = .ok w
      | .error e _ => place.checkPath keys = .error e ∧ place.storeAt keys v = .error e)
    ∧ ∀ (fuel : Nat) (m m' : Machine) (why : Stop),
      i.eval code (fuel + 1) id m = .error why m'
        ↔ ∃ stop, Interpreter.FailedWrite code (i.eval code fuel) target position value m stop m'
            ∧ why = stop.attachSpan span := by
  constructor
  · intro place v keys
    have hwrite := Value.writeInPlace_eq v place keys
    split at hwrite
    · exact ⟨(Value.checkPath_eq_ok_iff v).2 ⟨_, hwrite⟩, hwrite⟩
    · exact ⟨(Value.checkPath_eq_error_iff v).2 hwrite, hwrite⟩
  · intro fuel m m' why
    simp only [Interpreter.eval, hnode, Eval.located_eq_error_iff, Interpreter.step,
      Interpreter.storeElement_eq_error_iff]

/-- In `$a[$i++][3] = $j++` the variable `$a` is unset. The keys 0 and 3 lead to the end of an empty
array and then out of one, so the write fails. The two increments are done, and `$a` is still
unset. -/
theorem failed_element_write_changes_nothing_unset :
    let code : Code :=
      { nodes := #[⟨.var ⟨1⟩ (some ⟨0⟩), ⟨0, 2⟩⟩, ⟨.step ⟨1⟩ 1 .after, ⟨3, 7⟩⟩,
          ⟨.index ⟨0⟩ (some ⟨1⟩), ⟨0, 8⟩⟩, ⟨.int 3, ⟨9, 10⟩⟩, ⟨.step ⟨2⟩ 1 .after, ⟨14, 18⟩⟩,
          ⟨.storeElement ⟨2⟩ (some ⟨3⟩) ⟨4⟩, ⟨0, 18⟩⟩]
        lists := .empty
        slots := .empty }
    let i : Interpreter := ⟨.new, .none, .strict⟩
    let m : Machine := ⟨⟨#[.unset, .set (.int 0), .set (.int 7)]⟩, #[]⟩
    let m' : Machine := ⟨⟨#[.unset, .set (.int 1), .set (.int 8)]⟩, #[]⟩
    let e : EvalError := .indexOutOfRange 3 0
    i.eval code 6 ⟨5⟩ m = .error (.error (e.attachSpan ⟨0, 18⟩)) m'
      ∧ Interpreter.FailedWrite code (i.eval code 5) ⟨2⟩ (some ⟨3⟩) ⟨4⟩ m (.error e) m'
      ∧ ∃ half, Value.writeInPlace (.int 7) [some 0, some 3] .null = .error e half := by
  intro code i m m' e
  have hnode : code.get? ⟨5⟩ = some ⟨.storeElement ⟨2⟩ (some ⟨3⟩) ⟨4⟩, ⟨0, 18⟩⟩ := rfl
  have hplace : code.place? code.size ⟨2⟩ [some ⟨3⟩] = .ok (⟨0⟩, [some ⟨1⟩, some ⟨3⟩]) := rfl
  have hkeys : [some ⟨1⟩, some ⟨3⟩].mapM (Interpreter.evalKey (i.eval code 5)) m
      = .ok [some 0, some 3] ⟨⟨#[.unset, .set (.int 1), .set (.int 7)]⟩, #[]⟩ := rfl
  have hvalue : i.eval code 5 ⟨4⟩ ⟨⟨#[.unset, .set (.int 1), .set (.int 7)]⟩, #[]⟩
      = .ok (.int 7) m' := rfl
  have hfailed : Interpreter.FailedWrite code (i.eval code 5) ⟨2⟩ (some ⟨3⟩) ⟨4⟩ m (.error e) m' :=
    .write hplace hkeys hvalue rfl
  have hstop := ((failed_element_write_changes_nothing i hnode).2 5 m m' _).2 ⟨_, hfailed, rfl⟩
  exact ⟨hstop, hfailed, _, rfl⟩

end ExprCore
