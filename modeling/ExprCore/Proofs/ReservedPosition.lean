import ExprCore.Proofs.Allocations
import ExprCore.Proofs.FirstAppearance
import ExprCore.Scope

/-!
# The reserved position

Expressions, nodes and slots are numbered by 32-bit numbers, of which the largest stands for
absence. The limits let a store take one entry more than there are other numbers, so that the last
one is stored at the reserved position and cannot be told from one that is missing. All entries
before it have valid references, and behind it nothing is stored.

## Main definitions

- `ReservedLast`: the outcomes of an allocation whose last position is the reserved one

## Main statements

- `reserved_position_comes_last`: the references to expressions, nodes and slots
- `reserved_position_is_handed_out`: stores and scopes that are filled one by one up to the last
  position
-/

namespace ExprCore

/-- What comes of an allocation by the number of entries that are there: it fails when they have
taken all positions, and its reference is valid unless they have left the reserved one only. -/
structure ReservedLast {ρ σ : Type} (valid : ρ → Bool) (count : Nat)
    (outcome : Except CapacityError (ρ × σ)) : Prop where
  ok_iff : (∃ r t, outcome = .ok (r, t)) ↔ count ≤ reservedIndex
  valid_iff : ∀ r t, outcome = .ok (r, t) → (valid r = true ↔ count < reservedIndex)

/-- The limit for positions is the reserved position itself, so that an allocation at the position
behind the entries takes the reserved one last. -/
theorem reservedLast_of_next {ρ σ : Type} {valid : ρ → Bool} {count : Nat}
    {outcome : Except CapacityError (ρ × σ)} {error : CapacityError} {r : ρ} {t : σ}
    (hfull : maxIndex < count → outcome = .error error)
    (hroom : count ≤ maxIndex → outcome = .ok (r, t))
    (hvalid : valid r = true ↔ count ≠ reservedIndex) : ReservedLast valid count outcome where
  ok_iff := by
    constructor
    · rintro ⟨r', t', hok⟩
      refine Nat.le_of_not_lt fun hlt => ?_
      cases hok.symm.trans (hfull hlt)
    · exact fun hle => ⟨r, t, hroom hle⟩
  valid_iff r' t' hok := by
    have hle : count ≤ reservedIndex := by
      refine Nat.le_of_not_lt fun hlt => ?_
      cases hok.symm.trans (hfull hlt)
    cases hok.symm.trans (hroom hle)
    exact hvalid.trans (Nat.lt_iff_le_and_ne.trans (and_iff_right hle)).symm

theorem ReservedLast.exists_of_eq {ρ σ : Type} {valid : ρ → Bool} {count : Nat}
    {outcome : Except CapacityError (ρ × σ)} (h : ReservedLast valid count outcome)
    (hcount : count = reservedIndex) : ∃ r t, outcome = .ok (r, t) ∧ valid r = false := by
  obtain ⟨r, t, hok⟩ := h.ok_iff.2 (Nat.le_of_eq hcount)
  refine ⟨r, t, hok, Bool.eq_false_iff.2 fun hvalid => ?_⟩
  exact Nat.ne_of_lt ((h.valid_iff r t hok).1 hvalid) hcount

theorem checkEntries_of_full {what : String} {count : Nat} (h : maxIndex < count) :
    checkEntries what count = .error (.tooMany what count) := if_pos h

theorem ExprStore.reservedLast_add (s : ExprStore) (form : StoredForm) (span : Span) :
    ReservedLast ExprId.isValid s.size (s.add form span) :=
  reservedLast_of_next (fun h => if_pos h) (add_of_room form span) bne_iff_ne

theorem Code.addChecked_of_full {c : Code} (node : Node) (span : Span) (h : maxIndex < c.size) :
    c.addChecked node span = .error (.tooMany "nodes" c.size) := by
  rw [addChecked, checkEntries_of_full h]
  rfl

theorem Code.reservedLast_addChecked (c : Code) (node : Node) (span : Span) :
    ReservedLast NodeId.isValid c.size (c.addChecked node span) :=
  reservedLast_of_next (addChecked_of_full node span) (addChecked_of_room node span) bne_iff_ne

namespace Scope

variable {s : Scope} {name : Name} {slot : Slot}

theorem defineChecked_of_full (hnew : s.find? name = none) (h : maxIndex < s.slotCount) :
    s.defineChecked name = .error (.tooManyVariables s.slotCount) := by
  unfold defineChecked
  rw [hnew]
  exact if_pos h

/-- A new name gets the next slot. -/
theorem define_of_new (hnew : s.find? name = none) : (s.define name).1 = ⟨s.slotCount⟩ := by
  have hnumber : s.names.number? name = none := Option.map_eq_none_iff.1 hnew
  rw [define, Numbering.insert_of_none hnumber]
  rfl

theorem reservedLast_defineChecked (hnew : s.find? name = none) :
    ReservedLast Slot.isValid s.slotCount (s.defineChecked name) := by
  have hroom (h : s.slotCount ≤ maxIndex) :
      s.defineChecked name = .ok (⟨s.slotCount⟩, (s.define name).2) := by
    rw [defineChecked_of_room name h, ← define_of_new hnew]
  exact reservedLast_of_next (defineChecked_of_full hnew) hroom bne_iff_ne

/-- Of the slots of a scope the reserved one alone is not valid. -/
theorem isValid_iff_of_find? (h : s.find? name = some slot) :
    slot.isValid = true ↔ s.names.item? reservedIndex ≠ some name := by
  obtain ⟨i, hi, rfl⟩ := Option.map_eq_some_iff.1 h
  rw [← not_iff_not, not_not, ← Numbering.number?_eq_some_iff, hi, Option.some_inj]
  exact not_iff_comm.1 bne_iff_ne.symm

end Scope

/-! ### Filling stores and scopes -/

theorem Storage.hasRoom_replicate {α β γ : Type} (a : α) (span : Span) {n : Nat}
    (h : n < 2 ^ 32) : (empty : Storage α β γ).HasRoom (List.replicate n (.item a span)) where
  items := by
    rw [List.map_replicate, List.sum_replicate_nat, Request.itemCount, Nat.mul_one]
    change 0 + n < 2 ^ 32
    rwa [Nat.zero_add]
  first := by
    rw [List.map_replicate, List.sum_replicate_nat, Request.firstCount, Nat.mul_zero]
    exact Nat.two_pow_pos 32
  second := by
    rw [List.map_replicate, List.sum_replicate_nat, Request.secondCount, Nat.mul_zero]
    exact Nat.two_pow_pos 32
  lists request hrequest := by
    rw [List.eq_of_mem_replicate hrequest]
    exact ⟨Nat.zero_le _, Nat.zero_le _⟩

/-- A store that meets requests takes any number of items below the limit, one by one. -/
theorem MeetsRequests.exists_filled {σ α β γ : Type} {contents : σ → Storage α β γ}
    {allocate : σ → Storage.Request α β γ → Except CapacityError (Storage.Place × σ)}
    (hmeets : MeetsRequests contents allocate) {start : σ} (hstart : contents start = .empty)
    (a : α) (span : Span) {n : Nat} (h : n < 2 ^ 32) :
    ∃ history s, allocateAll allocate start (List.replicate n (.item a span)) = .ok (history, s) ∧
      (contents s).items.size = n := by
  obtain ⟨s, hs, hcontents⟩ :=
    allocateAll_of_room hmeets (hstart ▸ Storage.hasRoom_replicate a span h)
  refine ⟨_, s, hs, ?_⟩
  rw [hcontents, Storage.itemsSize_addAll, hstart, List.map_replicate, List.sum_replicate_nat,
    Storage.Request.itemCount, Nat.mul_one]
  exact Nat.zero_add n

namespace Scope

variable {s : Scope} {names : List Name}

/-- Names are bound one by one as long as there are slots for those that are new. -/
theorem allocateAll_of_room (h : (s.names.insertAll names).size ≤ reservedIndex + 1) :
    ∃ history,
      allocateAll defineChecked s names = .ok (history, ⟨s.id, s.names.insertAll names⟩) := by
  induction names generalizing s with
  | nil => exact ⟨[], rfl⟩
  | cons name names ih =>
    have hfirst : s.defineChecked name = .ok (s.define name) :=
      defineChecked_of_fits ((Numbering.size_le_size_insertAll _ names).trans h)
    obtain ⟨history, hrest⟩ := ih (s := (s.define name).2) h
    refine ⟨(name, (s.define name).1) :: history, ?_⟩
    simp only [allocateAll, hfirst, hrest, bind, Except.bind, pure, Except.pure]
    rfl

/-- Different names that are bound one by one in a new scope take as many slots. -/
theorem exists_filled (id : ScopeId) (hnodup : names.Nodup)
    (hlength : names.length ≤ reservedIndex + 1) :
    ∃ history s, allocateAll defineChecked (new id) names = .ok (history, s) ∧
      s.slotCount = names.length ∧ ∀ name, name ∉ names → s.find? name = none := by
  have hsize : (Numbering.empty.insertAll names).size = names.length := by
    rw [Numbering.size_insertAll_empty, List.toFinset_card_of_nodup hnodup]
  obtain ⟨history, hrun⟩ := allocateAll_of_room (s := new id) (hsize.trans_le hlength)
  refine ⟨history, _, hrun, hsize, fun name hname => ?_⟩
  have hnew : name ∉ (Numbering.empty.insertAll names).items := by
    rw [Numbering.mem_insertAll]
    exact fun hmem => hname (hmem.resolve_left List.not_mem_nil)
  exact Option.map_eq_none_iff.2 (List.idxOf?_eq_none_iff.2 hnew)

end Scope

/-! ### The last position -/

/-- The last position of expression stores, of code and of scopes is the reserved one. Fewer entries
always get valid references, an entry behind the last one is refused, and what is stored at the last
position gets a reference that is not valid. -/
theorem reserved_position_comes_last (store : ExprStore) (form : StoredForm) (code : Code)
    (node : Node) (span : Span) (scope : Scope) (name : Name) :
    ReservedLast ExprId.isValid store.size (store.add form span) ∧
    ReservedLast NodeId.isValid code.size (code.addChecked node span) ∧
    (scope.find? name = none →
      ReservedLast Slot.isValid scope.slotCount (scope.defineChecked name)) ∧
    ∀ slot, scope.find? name = some slot →
      scope.defineChecked name = .ok (slot, scope) ∧
        (slot.isValid = true ↔ scope.names.item? reservedIndex ≠ some name) :=
  ⟨store.reservedLast_add form span, code.reservedLast_addChecked node span,
    Scope.reservedLast_defineChecked,
    fun _ h => ⟨Scope.defineChecked_of_find? h, Scope.isValid_iff_of_find? h⟩⟩

/-- The first entry of a new store, the first node of new code, and the first name of a new
scope. -/
theorem reserved_position_comes_last_first :
    (∃ id s, ExprStore.empty.add .error .dummy = .ok (id, s) ∧ id.isValid = true) ∧
    (∃ id c, Code.empty.addChecked (.int 0) .dummy = .ok (id, c) ∧ id.isValid = true) ∧
    (Scope.root.find? ⟨1⟩ = none ∧
      ∃ slot s, Scope.root.defineChecked ⟨1⟩ = .ok (slot, s) ∧ slot.isValid = true) ∧
    (Scope.root.define ⟨1⟩).2.find? ⟨1⟩ = some ⟨0⟩ ∧
      (Scope.root.define ⟨1⟩).2.defineChecked ⟨1⟩ = .ok (⟨0⟩, (Scope.root.define ⟨1⟩).2) ∧
      (Slot.mk 0).isValid = true := by
  have hfresh : Scope.root.find? ⟨1⟩ = none := by decide
  have hfirst : (Scope.root.define ⟨1⟩).2.find? ⟨1⟩ = some ⟨0⟩ := by decide
  obtain ⟨hstore, hcode, hnew, -⟩ :=
    reserved_position_comes_last .empty .error .empty (.int 0) .dummy .root ⟨1⟩
  obtain ⟨-, -, -, hbound⟩ := reserved_position_comes_last .empty .error .empty (.int 0) .dummy
    (Scope.root.define ⟨1⟩).2 ⟨1⟩
  obtain ⟨id, s, hs⟩ := hstore.ok_iff.2 (by decide)
  obtain ⟨root, c, hc⟩ := hcode.ok_iff.2 (by decide)
  obtain ⟨slot, t, ht⟩ := (hnew hfresh).ok_iff.2 (by decide)
  obtain ⟨hagain, hvalid⟩ := hbound ⟨0⟩ hfirst
  refine ⟨⟨id, s, hs, ?_⟩, ⟨root, c, hc, ?_⟩, ⟨hfresh, slot, t, ht, ?_⟩, hfirst, hagain, ?_⟩
  · exact (hstore.valid_iff id s hs).2 (by decide)
  · exact (hcode.valid_iff root c hc).2 (by decide)
  · exact ((hnew hfresh).valid_iff slot t ht).2 (by decide)
  · exact hvalid.2 (by decide)

/-- An expression store, code and a scope in which everything but the reserved position is taken one
by one. What comes next gets a reference that is not valid. -/
theorem reserved_position_is_handed_out :
    (∃ history s id t, allocateAll ExprStore.allocate .empty
        (List.replicate reservedIndex (.item .error .dummy)) = .ok (history, s) ∧
      s.add .error .dummy = .ok (id, t) ∧ id.isValid = false) ∧
    (∃ history c id d, allocateAll Code.allocate .empty
        (List.replicate reservedIndex (.item (.int 0) .dummy)) = .ok (history, c) ∧
      c.addChecked (.int 0) .dummy = .ok (id, d) ∧ id.isValid = false) ∧
    ∃ history s slot t, allocateAll Scope.defineChecked .root
        ((List.range reservedIndex).map Name.mk) = .ok (history, s) ∧
      s.defineChecked ⟨reservedIndex⟩ = .ok (slot, t) ∧ slot.isValid = false := by
  have hfits : reservedIndex < 2 ^ 32 := by decide
  refine ⟨?_, ?_, ?_⟩
  · have hempty : ExprStore.empty.contents = .empty := rfl
    obtain ⟨history, s, hs, hsize⟩ :=
      ExprStore.meetsRequests.exists_filled hempty .error .dummy hfits
    obtain ⟨id, t, hok, hinvalid⟩ := (s.reservedLast_add .error .dummy).exists_of_eq hsize
    exact ⟨history, s, id, t, hs, hok, hinvalid⟩
  · have hempty : Code.empty.contents = .empty := rfl
    obtain ⟨history, c, hc, hsize⟩ :=
      Code.meetsRequests.exists_filled hempty (.int 0) .dummy hfits
    obtain ⟨id, d, hok, hinvalid⟩ := (c.reservedLast_addChecked (.int 0) .dummy).exists_of_eq hsize
    exact ⟨history, c, id, d, hc, hok, hinvalid⟩
  · have hnodup : ((List.range reservedIndex).map Name.mk).Nodup :=
      List.nodup_range.map fun _ _ h => congrArg Name.index h
    have hlength : ((List.range reservedIndex).map Name.mk).length = reservedIndex := by
      rw [List.length_map, List.length_range]
    have hnew : (⟨reservedIndex⟩ : Name) ∉ (List.range reservedIndex).map Name.mk := by
      rw [List.mem_map]
      rintro ⟨i, hi, hname⟩
      exact Nat.ne_of_lt (List.mem_range.1 hi) (congrArg Name.index hname)
    obtain ⟨history, s, hs, hcount, hfresh⟩ :=
      Scope.exists_filled .root hnodup (hlength.trans_le (Nat.le_succ _))
    obtain ⟨slot, t, hok, hinvalid⟩ :=
      (Scope.reservedLast_defineChecked (hfresh _ hnew)).exists_of_eq (hcount.trans hlength)
    exact ⟨history, s, slot, t, hs, hok, hinvalid⟩

end ExprCore
