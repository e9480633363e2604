import ExprCore.Evaluation
import ExprCore.Proofs.Steps
import Mathlib.Data.List.Forall2

/-!
# Writes to elements as updates

A write to an element that succeeds changes nothing but this element. Each key on its path denotes
one position of the array it leads into, the arrays on the way are the same as before at all other
positions, and at the end of the path there is the value that was written. An array grows only
where the write goes behind its last element, and then by this element.

## Main definitions

- `Key.Denotes`: the position of a key in an array of some length
- `Value.at?`: the element at the end of a path of positions
- `PutAt`: two arrays that differ at the position of a key at most
- `Value.Update`: two values that differ at the end of a path of keys at most
- `Machine.ElementWritten`: what is left behind by a write to an element

## Main statements

- `Value.exists_update_of_storeAt`: a write to a value is such an update
- `element_write_is_nested_update`: so is a write to a variable, and a node that writes an element
  evaluates its operands and then does this
-/

namespace ExprCore

/-- The key denotes the position in an array of the given length. The position behind the last
element counts, and without a key it is meant. -/
def Key.Denotes : Key → Nat → Nat → Prop
  | none, length, position => position = length
  | some key, length, position => key.toInt = position ∧ position ≤ length

theorem Key.denotes_of_writePosition {key : Key} {length position : Nat}
    (h : writePosition length key = .ok position) : key.Denotes length position := by
  cases key with
  | none =>
    cases h
    rfl
  | some key =>
    simp only [writePosition, positionBelow?] at h
    by_cases hrange : 0 ≤ key.toInt ∧ key.toInt < ((length + 1 : Nat) : Int)
    · rw [if_pos hrange] at h
      obtain rfl : key.toInt.toNat = position := by simpa using h
      exact ⟨(Int.toNat_of_nonneg hrange.1).symm, by omega⟩
    · rw [if_neg hrange] at h
      cases h

theorem Key.Denotes.le {key : Key} {length position : Nat} (h : key.Denotes length position) :
    position ≤ length := by
  cases key with
  | none => exact Nat.le_of_eq h
  | some key => exact h.2

/-- The first array becomes the second one by a write at the position of a key. -/
structure PutAt (old new : Array Value) (key : Key) (position : Nat) : Prop where
  denotes : key.Denotes old.size position
  /-- The array is one longer exactly if the position was its length. -/
  size : new.size = if position = old.size then old.size + 1 else old.size
  /-- The other elements stay. -/
  others : ∀ other, other ≠ position → new[other]? = old[other]?

theorem putAt_putItem {items : Array Value} {key : Key} {position : Nat} (v : Value)
    (h : writePosition items.size key = .ok position) :
    PutAt items (putItem items position v) key position where
  denotes := Key.denotes_of_writePosition h
  size := size_putItem v (Key.denotes_of_writePosition h).le
  others _ hne := getElem?_putItem_of_ne v (Key.denotes_of_writePosition h).le hne

namespace Value

/-- The element at the end of a path of positions. -/
def at? : Value → List Nat → Option Value
  | v, [] => some v
  | array items, position :: positions => do
    let element ← items[position]?
    element.at? positions
  | _, _ :: _ => none

theorem at?_null (positions : List Nat) : (null.at? positions).getD .null = .null := by
  cases positions <;> rfl

/-- A path through a value that is opened for a write goes on in the element at its first
position. -/
theorem at?_cons_of_openItems {place : Value} {items : Array Value}
    (h : place.openItems = .ok items) (position : Nat) (positions : List Nat) :
    (place.at? (position :: positions)).getD .null
      = ((items[position]?.getD .null).at? positions).getD .null := by
  cases place with
  | null =>
    cases h
    exact (at?_null positions).symm
  | array found =>
    cases h
    rw [at?]
    cases items[position]? with
    | none => exact (at?_null positions).symm
    | some element => rfl
  | _ => cases h

/-- The value denotes the position when it is used as an index. -/
def Indexes (index : Value) (position : Nat) : Prop :=
  ∃ k, index.position? = some k ∧ k.toInt = position

theorem readElement_of_getElem? {items : Array Value} {index v : Value} {position : Nat}
    (hindex : index.Indexes position) (h : items[position]? = some v) :
    (array items).readElement index = .ok v := by
  obtain ⟨k, hk, hposition⟩ := hindex
  have hlt := (Array.getElem?_eq_some_iff.1 h).1
  have hbelow : positionBelow? items.size k = some position := by
    rw [positionBelow?, if_pos (by omega), hposition, Int.toNat_natCast]
  simp only [readElement, items?, hk, hbelow, Option.bind_some, h]

/-- Reading one index after the other comes to the element at the end of their positions. -/
theorem foldlM_readElement_of_at? {w v : Value} {indices : List Value} {positions : List Nat}
    (hindices : List.Forall₂ Indexes indices positions) (h : w.at? positions = some v) :
    indices.foldlM readElement w = .ok v := by
  induction hindices generalizing w with
  | nil =>
    cases h
    rfl
  | @cons index position indices positions hindex _ ih =>
    cases w with
    | array items =>
      rw [at?] at h
      obtain ⟨element, helement, h⟩ := Option.bind_eq_some_iff.1 h
      rw [List.foldlM_cons, readElement_of_getElem? hindex helement]
      exact ih h
    | _ => cases h

/-- The second value is the first one after `v` was written along the keys, which denote the
positions. -/
structure Update (place : Value) (keys : List Key) (positions : List Nat) (v w : Value) :
    Prop where
  length : positions.length = keys.length
  /-- At the end of the positions is what was written. -/
  written : w.at? positions = some v
  /-- Reads with any indices that denote the positions find it. -/
  reads : ∀ indices, List.Forall₂ Indexes indices positions →
    indices.foldlM readElement w = .ok v
  /-- Each array on the way is the one that was there but for the position of its key. Where
  nothing or `null` was, the array was empty. -/
  levels : ∀ n key position, keys[n]? = some key → positions[n]? = some position →
    ∃ old new, ((place.at? (positions.take n)).getD .null).openItems = .ok old
      ∧ w.at? (positions.take n) = some (.array new) ∧ PutAt old new key position

theorem Update.nil (place v : Value) : place.Update [] [] v v where
  length := rfl
  written := rfl
  reads indices h := foldlM_readElement_of_at? h rfl
  levels n key position h := by cases h

/-- A write into an element is an update if the element is updated. -/
theorem Update.cons {place v element : Value} {items : Array Value} {key : Key} {keys : List Key}
    {position : Nat} {positions : List Nat} (hitems : place.openItems = .ok items)
    (hposition : writePosition items.size key = .ok position)
    (h : (items[position]?.getD .null).Update keys positions v element) :
    place.Update (key :: keys) (position :: positions) v
      (.array (putItem items position element)) := by
  have hput := putAt_putItem element hposition
  have hbelow : ∀ positions, (array (putItem items position element)).at? (position :: positions)
      = element.at? positions := by
    intro positions
    rw [at?, getElem?_putItem_self element hput.denotes.le]
    rfl
  have hwritten := (hbelow positions).trans h.written
  have hreads : ∀ indices, List.Forall₂ Indexes indices (position :: positions) →
      indices.foldlM readElement (array (putItem items position element)) = .ok v :=
    fun _ hindices => foldlM_readElement_of_at? hindices hwritten
  refine ⟨congrArg (· + 1) h.length, hwritten, hreads, ?_⟩
  intro n key' position' hkey hposition'
  cases n with
  | zero =>
    cases hkey
    cases hposition'
    exact ⟨items, _, hitems, rfl, hput⟩
  | succ n =>
    obtain ⟨old, new, hold, hnew, hputs⟩ := h.levels n key' position' hkey hposition'
    refine ⟨old, new, ?_, ?_, hputs⟩
    · rw [List.take_succ_cons, at?_cons_of_openItems hitems]
      exact hold
    · rw [List.take_succ_cons, hbelow]
      exact hnew

theorem exists_update_of_storeAt {place v w : Value} {keys : List Key}
    (h : place.storeAt keys v = .ok w) : ∃ positions, place.Update keys positions v w := by
  induction keys generalizing place w with
  | nil =>
    cases h
    exact ⟨[], .nil place v⟩
  | cons key keys ih =>
    obtain ⟨items, position, element, hitems, hposition, helement, rfl⟩ := storeAt_cons_eq_ok h
    obtain ⟨positions, hupdate⟩ := ih helement
    exact ⟨position :: positions, .cons hitems hposition hupdate⟩

end Value

/-- The second machine is what the first one becomes when `v` is written along the keys into the
variable. -/
structure Machine.ElementWritten (slot : Slot) (keys : List Key) (v : Value) (m m' : Machine) :
    Prop where
  /-- The variable is set to its old content with the element updated. -/
  content : ∃ positions w, m'.frame.cell slot = .set w
    ∧ (m.frame.content slot).Update keys positions v w
  others : ∀ other, other ≠ slot → m'.frame.cell other = m.frame.cell other
  size : m'.frame.size = max m.frame.size (slot.index + 1)
  calls : m'.calls = m.calls

theorem Eval.elementWritten_of_storeAt {slot : Slot} {keys : List Key} {v : Value} {m m' : Machine}
    (h : storeAt slot keys v m = .ok () m') : m.ElementWritten slot keys v m' := by
  rw [storeAt_eq] at h
  cases hstore : (m.frame.content slot).storeAt keys v with
  | error e =>
    rw [hstore] at h
    cases h
  | ok w =>
    rw [hstore] at h
    cases h
    obtain ⟨positions, hupdate⟩ := Value.exists_update_of_storeAt hstore
    refine ⟨⟨positions, w, Frame.cell_write_self _ _ _, hupdate⟩, ?_, ?_, rfl⟩
    · intro other hne
      simp only [Frame.set, Frame.cell_write_of_ne _ hne]
    · simp only [Frame.set, Frame.size_write]
      omega

theorem Interpreter.storeElement_eq_ok_iff {code : Code} {eval : NodeId → Eval Value}
    {target value : NodeId} {position : Option NodeId} {m m' : Machine} {v : Value} :
    storeElement code eval target position value m = .ok v m' ↔
      ∃ slot path keys m₁ m₂, code.place? code.size target [position] = .ok (slot, path)
        ∧ path.mapM (evalKey eval) m = .ok keys m₁ ∧ eval value m₁ = .ok v m₂
        ∧ Eval.storeAt slot keys v m₂ = .ok () m' := by
  unfold storeElement
  constructor
  · intro h
    cases hplace : code.place? code.size target [position] with
    | error stop =>
      rw [hplace] at h
      cases h
    | ok place =>
      obtain ⟨slot, path⟩ := place
      rw [hplace] at h
      obtain ⟨keys, m₁, hkeys, h⟩ := bind_eq_ok h
      obtain ⟨v', m₂, hvalue, h⟩ := bind_eq_ok h
      obtain ⟨_, m₃, hstore, h⟩ := bind_eq_ok h
      obtain ⟨rfl, rfl⟩ := pure_eq_ok h
      exact ⟨slot, path, keys, m₁, m₂, rfl, hkeys, hvalue, hstore⟩
  · rintro ⟨slot, path, keys, m₁, m₂, hplace, hkeys, hvalue, hstore⟩
    rw [hplace]
    exact bind_of_ok hkeys (bind_of_ok hvalue (bind_of_ok hstore rfl))

/-- A write to an element that succeeds updates this element of what the variable holds then, or of
`null` if it holds no value. It sets the variable and changes no other one. A node that writes an
element succeeds exactly if its keys and then its value are evaluated and this write succeeds on
what they leave. The value that was written is its result. -/
theorem element_write_is_nested_update (i : Interpreter) {code : Code} {id target value : NodeId}
    {position : Option NodeId} {span : Span}
    (hnode : code.get? id = some ⟨.storeElement target position value, span⟩) :
    (∀ (slot : Slot) (keys : List Key) (v : Value) (m m' : Machine),
      Eval.storeAt slot keys v m = .ok () m' → m.ElementWritten slot keys v m')
    ∧ ∀ (fuel : Nat) (m m' : Machine) (v : Value),
      i.eval code (fuel + 1) id m = .ok v m' ↔
        ∃ slot path keys m₁ m₂, code.place? code.size target [position] = .ok (slot, path)
          ∧ path.mapM (Interpreter.evalKey (i.eval code fuel)) m = .ok keys m₁
          ∧ i.eval code fuel value m₁ = .ok v m₂
          ∧ Eval.storeAt slot keys v m₂ = .ok () m' := by
  constructor
  · intro slot keys v m m' h
    exact Eval.elementWritten_of_storeAt h
  · intro fuel m m' v
    simp only [Interpreter.eval, hnode, Eval.located_eq_ok_iff, Interpreter.step,
      Interpreter.storeElement_eq_ok_iff]

/-- In `$a[0][] = 7` the variable `$a` is unset. Two arrays are made, and the value is appended to
the inner one. -/
theorem element_write_is_nested_update_unset :
    let code : Code :=
      { nodes := #[⟨.var ⟨1⟩ (some ⟨0⟩), ⟨0, 2⟩⟩, ⟨.int 0, ⟨3, 4⟩⟩, ⟨.index ⟨0⟩ (some ⟨1⟩), ⟨0, 5⟩⟩,
          ⟨.int 7, ⟨10, 11⟩⟩, ⟨.storeElement ⟨2⟩ none ⟨3⟩, ⟨0, 11⟩⟩]
        lists := .empty
        slots := .empty }
    let i : Interpreter := ⟨.new, .none, .strict⟩
    let m : Machine := ⟨⟨#[.unset, .set (.int 5)]⟩, #[]⟩
    let m' : Machine := ⟨⟨#[.set (.array #[.array #[.int 7]]), .set (.int 5)]⟩, #[]⟩
    i.eval code 5 ⟨4⟩ m = .ok (.int 7) m' ∧ m.ElementWritten ⟨0⟩ [some 0, none] (.int 7) m' := by
  intro code i m m'
  have hnode : code.get? ⟨4⟩ = some ⟨.storeElement ⟨2⟩ none ⟨3⟩, ⟨0, 11⟩⟩ := rfl
  have hplace : code.place? code.size ⟨2⟩ [none] = .ok (⟨0⟩, [some ⟨1⟩, none]) := rfl
  have hkeys : [some ⟨1⟩, none].mapM (Interpreter.evalKey (i.eval code 4)) m
      = .ok [some 0, none] m := rfl
  have hvalue : i.eval code 4 ⟨3⟩ m = .ok (.int 7) m := rfl
  have hstore : Eval.storeAt ⟨0⟩ [some 0, none] (.int 7) m = .ok () m' := rfl
  obtain ⟨hwritten, hresult⟩ := element_write_is_nested_update i hnode
  exact ⟨(hresult 4 m m' _).2 ⟨_, _, _, _, _, hplace, hkeys, hvalue, hstore⟩,
    hwritten _ _ _ _ _ hstore⟩

end ExprCore
