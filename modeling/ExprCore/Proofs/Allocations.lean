import ExprCore.Expr.Store
import ExprCore.Proofs.Growth
import Mathlib.Algebra.Ring.Nat

/-!
# Allocations one after another

Expression stores and code are of one shape: located items, and two pools of lists that belong to
them. Whatever is stored goes behind the things of its kind and leaves the others alone. So items
are numbered in the order in which they come, lists never overlap, and everything reads back as it
was stored, however much is stored later.

## Main definitions

- `Storage`: located items with two pools of lists
- `Storage.Request`, `Storage.Place`: what is stored in one go, and where it is stored
- `Storage.HasRoom`: the limits within which requests are met
- `Storage.Settles`: what is good about the places that requests get
- `allocateAll`: requests one after another, each with its place
- `ExprStore.allocate`, `Code.allocate`: the requests to expression stores and to code

## Main statements

- `Storage.extends_add`, `Storage.readsBack_add`: what one allocation keeps and what it adds
- `Storage.readsBack_addAll`, `Storage.positions_addAll`, `Storage.apart_addAll`: what holds of the
  places after any number of allocations
- `stored_things_stay`: the same of expression stores and code, as long as they have room
-/

namespace ExprCore

/-- Located items and two pools of lists. -/
structure Storage (α β γ : Type) where
  items : Array (Located α)
  first : Pool β
  second : Pool γ

namespace Storage

/-- What is stored in one go. -/
inductive Request (α β γ : Type) where
  | item (a : α) (span : Span)
  | first (list : List β)
  | second (list : List γ)

/-- Where something is stored: at a position, or in a segment of one of the pools. -/
inductive Place where
  | item (position : Nat)
  | first (r : Segment)
  | second (r : Segment)

variable {α β γ : Type}

namespace Request

/-- How many items a request stores. -/
def itemCount : Request α β γ → Nat
  | item .. => 1
  | first _ | second _ => 0

/-- How many entries of the first pool a request takes. -/
def firstCount : Request α β γ → Nat
  | first list => list.length
  | item .. | second _ => 0

/-- How many entries of the second pool a request takes. -/
def secondCount : Request α β γ → Nat
  | second list => list.length
  | item .. | first _ => 0

end Request

namespace Place

def position? : Place → Option Nat
  | item position => some position
  | first _ | second _ => none

/-- The place can be written in the 32-bit form, which has 16 bits for a length. -/
def Fits : Place → Prop
  | item position => position ≤ maxIndex
  | first r | second r => r.start ≤ maxIndex ∧ r.length ≤ maxListLength

end Place

/-- What was stored is found at its place: an item with its span, and a list in a segment that lies
within its pool. -/
def ReadsBack (get? : Nat → Option (Located α)) (first : Pool β) (second : Pool γ) :
    Request α β γ → Place → Prop
  | .item a span, .item position => get? position = some ⟨a, span⟩
  | .first list, .first r => first.Within r ∧ first.read r = list
  | .second list, .second r => second.Within r ∧ second.read r = list
  | _, _ => False

/-- Two lists in one pool that are not empty lie one behind the other. -/
def Apart : Request α β γ × Place → Request α β γ × Place → Prop
  | (.first (_ :: _), .first r), (.first (_ :: _), .first t)
  | (.second (_ :: _), .second r), (.second (_ :: _), .second t) => r.stop ≤ t.start
  | _, _ => True

/-- The storage that holds nothing. -/
def empty : Storage α β γ := ⟨#[], .empty, .empty⟩

/-- Store something behind the things of its kind. -/
def add (s : Storage α β γ) : Request α β γ → Place × Storage α β γ
  | .item a span => (.item s.items.size, { s with items := s.items.push ⟨a, span⟩ })
  | .first list => (.first (s.first.add list).1, { s with first := (s.first.add list).2 })
  | .second list => (.second (s.second.add list).1, { s with second := (s.second.add list).2 })

/-- Store things one after another. The result lists each of them with its place. -/
def addAll (s : Storage α β γ) :
    List (Request α β γ) → List (Request α β γ × Place) × Storage α β γ
  | [] => ([], s)
  | request :: requests =>
    let (place, t) := s.add request
    let (history, u) := t.addAll requests
    ((request, place) :: history, u)

/-- With what is requested there are fewer than 2³² entries of each kind, and no list is too
long. -/
structure HasRoom (s : Storage α β γ) (requests : List (Request α β γ)) : Prop where
  items : s.items.size + (requests.map Request.itemCount).sum < 2 ^ 32
  first : s.first.size + (requests.map Request.firstCount).sum < 2 ^ 32
  second : s.second.size + (requests.map Request.secondCount).sum < 2 ^ 32
  lists : ∀ request ∈ requests,
    request.firstCount ≤ maxListLength ∧ request.secondCount ≤ maxListLength

/-- The storage `t` starts with the items and the lists of `s`. -/
structure Extends (s t : Storage α β γ) : Prop where
  items : s.items.toList <+: t.items.toList
  first : s.first.Extends t.first
  second : s.second.Extends t.second

/-- What is stored takes its room behind the entries of `s`. -/
def Behind (s : Storage α β γ) : Request α β γ → Place → Prop
  | .first (_ :: _), .first r => s.first.size ≤ r.start
  | .second (_ :: _), .second r => s.second.size ≤ r.start
  | _, _ => True

variable {s t u : Storage α β γ} {request : Request α β γ} {requests further : List (Request α β γ)}
  {place : Place}

theorem Extends.refl (s : Storage α β γ) : s.Extends s :=
  ⟨List.prefix_refl _, Pool.Extends.refl _, Pool.Extends.refl _⟩

theorem Extends.trans (hst : s.Extends t) (htu : t.Extends u) : s.Extends u :=
  ⟨hst.items.trans htu.items, hst.first.trans htu.first, hst.second.trans htu.second⟩

theorem extends_add (s : Storage α β γ) (request : Request α β γ) :
    s.Extends (s.add request).2 := by
  cases request with
  | item a span =>
    refine ⟨?_, Pool.Extends.refl _, Pool.Extends.refl _⟩
    show s.items.toList <+: (s.items.push ⟨a, span⟩).toList
    rw [Array.toList_push]
    exact List.prefix_append _ _
  | first list => exact ⟨List.prefix_refl _, Pool.extends_add _ _, Pool.Extends.refl _⟩
  | second list => exact ⟨List.prefix_refl _, Pool.Extends.refl _, Pool.extends_add _ _⟩

theorem extends_addAll (s : Storage α β γ) (requests : List (Request α β γ)) :
    s.Extends (s.addAll requests).2 := by
  induction requests generalizing s with
  | nil => exact .refl s
  | cons request requests ih => exact (s.extends_add request).trans (ih _)

/-- What reads back goes on to read back in a storage that holds more. -/
theorem ReadsBack.mono (h : ReadsBack (s.items[·]?) s.first s.second request place)
    (hst : s.Extends t) : ReadsBack (t.items[·]?) t.first t.second request place := by
  match request, place, h with
  | .item a span, .item position, h => exact getElem?_of_prefix hst.items h
  | .first list, .first r, ⟨hr, hread⟩ =>
    exact ⟨hst.first.within hr, (hst.first.read hr).trans hread⟩
  | .second list, .second r, ⟨hr, hread⟩ =>
    exact ⟨hst.second.within hr, (hst.second.read hr).trans hread⟩

theorem readsBack_add (s : Storage α β γ) (request : Request α β γ) :
    ReadsBack ((s.add request).2.items[·]?) (s.add request).2.first (s.add request).2.second
      request (s.add request).1 := by
  cases request with
  | item a span => exact Array.getElem?_push_size
  | first list => exact ⟨Pool.within_add _ _, Pool.read_add _ _⟩
  | second list => exact ⟨Pool.within_add _ _, Pool.read_add _ _⟩

theorem behind_add (s : Storage α β γ) (request : Request α β γ) :
    s.Behind request (s.add request).1 := by
  match request with
  | .item .. | .first [] | .second [] => trivial
  | .first (_ :: _) | .second (_ :: _) => exact Nat.le_refl _

theorem Behind.of_extends (h : t.Behind request place) (hst : s.Extends t) :
    s.Behind request place := by
  match request, place, h with
  | .first (_ :: _), .first r, h => exact Nat.le_trans hst.first.size_le h
  | .second (_ :: _), .second r, h => exact Nat.le_trans hst.second.size_le h
  | .item .., _, _ | .first [], _, _ | .second [], _, _ => trivial
  | .first (_ :: _), .item _, _ | .first (_ :: _), .second _, _ => trivial
  | .second (_ :: _), .item _, _ | .second (_ :: _), .first _, _ => trivial

/-! ### Room -/

theorem itemsSize_add (s : Storage α β γ) (request : Request α β γ) :
    (s.add request).2.items.size = s.items.size + request.itemCount := by
  cases request with
  | item a span => exact Array.size_push _
  | first _ | second _ => rfl

theorem firstSize_add (s : Storage α β γ) (request : Request α β γ) :
    (s.add request).2.first.size = s.first.size + request.firstCount := by
  cases request with
  | first list => exact Pool.size_add _ _
  | item _ _ | second _ => rfl

theorem secondSize_add (s : Storage α β γ) (request : Request α β γ) :
    (s.add request).2.second.size = s.second.size + request.secondCount := by
  cases request with
  | second list => exact Pool.size_add _ _
  | item _ _ | first _ => rfl

/-- Room for everything is room for what comes first. -/
theorem HasRoom.left (h : s.HasRoom (requests ++ further)) : s.HasRoom requests where
  items := by have := h.items; simp only [List.map_append, List.sum_append] at this; omega
  first := by have := h.first; simp only [List.map_append, List.sum_append] at this; omega
  second := by have := h.second; simp only [List.map_append, List.sum_append] at this; omega
  lists r hr := h.lists r (List.mem_append_left _ hr)

/-- Once the first request is met there is room for the others. -/
theorem HasRoom.tail (h : s.HasRoom (request :: requests)) :
    (s.add request).2.HasRoom requests where
  items := by
    have := h.items
    simp only [List.map_cons, List.sum_cons] at this
    rw [itemsSize_add]
    omega
  first := by
    have := h.first
    simp only [List.map_cons, List.sum_cons] at this
    rw [firstSize_add]
    omega
  second := by
    have := h.second
    simp only [List.map_cons, List.sum_cons] at this
    rw [secondSize_add]
    omega
  lists r hr := h.lists r (List.mem_cons_of_mem _ hr)

theorem HasRoom.head (h : s.HasRoom (request :: requests)) : s.HasRoom [request] := by
  change s.HasRoom ([request] ++ requests) at h
  exact h.left

theorem HasRoom.right (h : s.HasRoom (requests ++ further)) :
    (s.addAll requests).2.HasRoom further := by
  induction requests generalizing s with
  | nil => exact h
  | cons request requests ih => exact ih h.tail

/-- Where there is room, there is a position for one more of each kind. -/
theorem HasRoom.sizes_le (h : s.HasRoom requests) :
    s.items.size ≤ maxIndex ∧ s.first.size ≤ maxIndex ∧ s.second.size ≤ maxIndex := by
  have hitems := h.items
  have hfirst := h.first
  have hsecond := h.second
  unfold maxIndex
  omega

theorem fits_add (h : s.HasRoom [request]) : (s.add request).1.Fits := by
  obtain ⟨hitems, hfirst, hsecond⟩ := h.sizes_le
  obtain ⟨hlist, hother⟩ := h.lists request (List.mem_singleton_self _)
  match request with
  | .item a span => exact hitems
  | .first [] | .second [] => exact ⟨Nat.zero_le _, Nat.zero_le _⟩
  | .first (_ :: _) => exact ⟨hfirst, hlist⟩
  | .second (_ :: _) => exact ⟨hsecond, hother⟩

/-! ### Any number of allocations -/

theorem itemsSize_addAll (s : Storage α β γ) (requests : List (Request α β γ)) :
    (s.addAll requests).2.items.size = s.items.size + (requests.map Request.itemCount).sum := by
  induction requests generalizing s with
  | nil => rfl
  | cons request requests ih =>
    rw [List.map_cons, List.sum_cons, ← Nat.add_assoc, ← itemsSize_add]
    exact ih _

theorem requests_addAll (s : Storage α β γ) (requests : List (Request α β γ)) :
    (s.addAll requests).1.map Prod.fst = requests := by
  induction requests generalizing s with
  | nil => rfl
  | cons request requests ih => exact congrArg (request :: ·) (ih _)

/-- Everything that was stored reads back in the end. -/
theorem readsBack_addAll (s : Storage α β γ) (requests : List (Request α β γ)) :
    ∀ x ∈ (s.addAll requests).1, ReadsBack ((s.addAll requests).2.items[·]?)
      (s.addAll requests).2.first (s.addAll requests).2.second x.1 x.2 := by
  induction requests generalizing s with
  | nil => exact fun x hx => nomatch hx
  | cons request requests ih =>
    intro x hx
    cases hx with
    | head => exact (s.readsBack_add request).mono (extends_addAll _ requests)
    | tail _ hx => exact ih _ x hx

theorem fits_addAll (h : s.HasRoom requests) : ∀ x ∈ (s.addAll requests).1, x.2.Fits := by
  induction requests generalizing s with
  | nil => exact fun x hx => nomatch hx
  | cons request requests ih =>
    intro x hx
    cases hx with
    | head => exact fits_add h.head
    | tail _ hx => exact ih h.tail x hx

/-- Items are numbered in the order in which they come. -/
theorem positions_addAll (s : Storage α β γ) (requests : List (Request α β γ)) :
    (s.addAll requests).1.filterMap (·.2.position?) =
      List.range' s.items.size (requests.map Request.itemCount).sum := by
  induction requests generalizing s with
  | nil => rfl
  | cons request requests ih =>
    have hrest := ih (s.add request).2
    rw [itemsSize_add] at hrest
    rw [List.map_cons, List.sum_cons]
    cases request with
    | item a span =>
      rw [Request.itemCount, Nat.add_comm 1, List.range'_succ]
      exact congrArg (s.items.size :: ·) hrest
    | first _ | second _ =>
      rw [Request.itemCount, Nat.zero_add]
      exact hrest

theorem behind_addAll (s : Storage α β γ) (requests : List (Request α β γ)) :
    ∀ x ∈ (s.addAll requests).1, s.Behind x.1 x.2 := by
  induction requests generalizing s with
  | nil => exact fun x hx => nomatch hx
  | cons request requests ih =>
    intro x hx
    cases hx with
    | head => exact s.behind_add request
    | tail _ hx => exact (ih _ x hx).of_extends (s.extends_add request)

/-- What is found in a storage lies apart from what comes behind it. -/
theorem ReadsBack.apart {x y : Request α β γ × Place}
    (hx : ReadsBack (s.items[·]?) s.first s.second x.1 x.2) (hy : s.Behind y.1 y.2) :
    Apart x y := by
  unfold Apart
  split
  · exact Nat.le_trans hx.1 hy
  · exact Nat.le_trans hx.1 hy
  · trivial

/-- No list overlaps a list that is stored later. -/
theorem apart_addAll (s : Storage α β γ) (requests : List (Request α β γ)) :
    (s.addAll requests).1.Pairwise Apart := by
  induction requests generalizing s with
  | nil => exact .nil
  | cons request requests ih =>
    refine .cons (fun y hy => ?_) (ih _)
    exact (s.readsBack_add request).apart (behind_addAll _ requests y hy)

/-- Every request has a place, which is numbered or set apart from the others, and what is read
there is what was stored. -/
structure Settles (get? : Nat → Option (Located α)) (first : Pool β) (second : Pool γ)
    (requests : List (Request α β γ)) (history : List (Request α β γ × Place)) : Prop where
  inOrder : history.map Prod.fst = requests
  readsBack : ∀ x ∈ history, ReadsBack get? first second x.1 x.2
  fits : ∀ x ∈ history, x.2.Fits
  positions :
    history.filterMap (·.2.position?) = List.range (requests.map Request.itemCount).sum
  apart : history.Pairwise Apart

/-- The places in a storage that was empty at first are good, whatever is stored later. -/
theorem settles_addAll (h : empty.HasRoom (requests ++ further)) :
    Settles (((empty.addAll requests).2.addAll further).2.items[·]?)
      ((empty.addAll requests).2.addAll further).2.first
      ((empty.addAll requests).2.addAll further).2.second requests (empty.addAll requests).1 where
  inOrder := requests_addAll _ _
  readsBack x hx := (readsBack_addAll _ _ x hx).mono (extends_addAll _ further)
  fits := fits_addAll h.left
  positions := (positions_addAll _ _).trans List.range_eq_range'.symm
  apart := apart_addAll _ _

end Storage

open Storage

/-- Requests to a store one after another. The result lists each of them with its place. -/
def allocateAll {σ ρ π : Type} (allocate : σ → ρ → Except CapacityError (π × σ)) (s : σ) :
    List ρ → Except CapacityError (List (ρ × π) × σ)
  | [] => .ok ([], s)
  | request :: requests => do
    let (place, t) ← allocate s request
    let (history, u) ← allocateAll allocate t requests
    return ((request, place) :: history, u)

/-- A store meets every request that its contents have room for. -/
def MeetsRequests {σ α β γ : Type} (contents : σ → Storage α β γ)
    (allocate : σ → Request α β γ → Except CapacityError (Place × σ)) : Prop :=
  ∀ s request, (contents s).HasRoom [request] →
    ∃ t, allocate s request = .ok (((contents s).add request).1, t) ∧
      contents t = ((contents s).add request).2

section MeetsRequests

variable {σ α β γ : Type} {contents : σ → Storage α β γ}
  {allocate : σ → Request α β γ → Except CapacityError (Place × σ)}

/-- A store that meets single requests meets any number of them. -/
theorem allocateAll_of_room (hmeets : MeetsRequests contents allocate) {s : σ}
    {requests : List (Request α β γ)} (h : (contents s).HasRoom requests) :
    ∃ t, allocateAll allocate s requests = .ok (((contents s).addAll requests).1, t) ∧
      contents t = ((contents s).addAll requests).2 := by
  induction requests generalizing s with
  | nil => exact ⟨s, rfl, rfl⟩
  | cons request requests ih =>
    obtain ⟨t, hadd, ht⟩ := hmeets s request h.head
    have htail := h.tail
    rw [← ht] at htail
    obtain ⟨u, haddAll, hu⟩ := ih htail
    refine ⟨u, ?_, ?_⟩
    · simp only [allocateAll, hadd, haddAll, ht, bind, Except.bind, pure, Except.pure, addAll]
    · rw [hu, ht]
      rfl

theorem settles_allocateAll (hmeets : MeetsRequests contents allocate) {start : σ}
    (hstart : contents start = empty) {requests further : List (Request α β γ)}
    (h : empty.HasRoom (requests ++ further)) :
    ∃ history s later t, allocateAll allocate start requests = .ok (history, s) ∧
      allocateAll allocate s further = .ok (later, t) ∧
      Settles ((contents t).items[·]?) (contents t).first (contents t).second requests history := by
  obtain ⟨s, hs, hscontents⟩ := allocateAll_of_room hmeets (hstart ▸ h.left)
  rw [hstart] at hs hscontents
  obtain ⟨t, ht, htcontents⟩ := allocateAll_of_room hmeets (hscontents ▸ h.right)
  refine ⟨_, s, _, t, hs, ht, ?_⟩
  rw [htcontents, hscontents]
  exact settles_addAll h

end MeetsRequests

namespace ExprStore

def contents (s : ExprStore) : Storage StoredForm ExprId (Element ExprId) :=
  ⟨s.exprs, s.lists, s.elements⟩

/-- Store an expression, a list of references or the entries of an array literal. -/
def allocate (s : ExprStore) :
    Request StoredForm ExprId (Element ExprId) → Except CapacityError (Place × ExprStore)
  | .item form span => do
    let (id, t) ← s.add form span
    return (.item id.index, t)
  | .first ids => do
    let (r, t) ← s.addList ids
    return (.first r, t)
  | .second entries => do
    let (r, t) ← s.addElements entries
    return (.second r, t)

theorem meetsRequests : MeetsRequests contents allocate := by
  intro s request h
  obtain ⟨hitems, hfirst, hsecond⟩ := h.sizes_le
  obtain ⟨hlist, hother⟩ := h.lists request (List.mem_singleton_self _)
  cases request with
  | item form span =>
    refine ⟨{ s with exprs := s.exprs.push ⟨form, span⟩ }, ?_, rfl⟩
    rw [allocate, add_of_room form span hitems]
    rfl
  | first ids =>
    refine ⟨{ s with lists := (s.lists.add ids).2 }, ?_, rfl⟩
    rw [allocate, addList_of_room hfirst hlist]
    rfl
  | second entries =>
    refine ⟨{ s with elements := (s.elements.add entries).2 }, ?_, rfl⟩
    rw [allocate, addElements_of_room hsecond hother]
    rfl

end ExprStore

namespace Code

def contents (c : Code) : Storage Node NodeId Slot := ⟨c.nodes, c.lists, c.slots⟩

/-- Store a node, a list of nodes or a list of slots. -/
def allocate (c : Code) : Request Node NodeId Slot → Except CapacityError (Place × Code)
  | .item node span => do
    let (id, d) ← c.addChecked node span
    return (.item id.index, d)
  | .first ids => do
    let (r, d) ← c.addListChecked ids
    return (.first r, d)
  | .second slots => do
    let (r, d) ← c.addSlotsChecked slots
    return (.second r, d)

theorem meetsRequests : MeetsRequests contents allocate := by
  intro c request h
  obtain ⟨hitems, hfirst, hsecond⟩ := h.sizes_le
  obtain ⟨hlist, hother⟩ := h.lists request (List.mem_singleton_self _)
  cases request with
  | item node span =>
    refine ⟨(c.add node span).2, ?_, rfl⟩
    rw [allocate, addChecked_of_room node span hitems]
    rfl
  | first ids =>
    refine ⟨(c.addList ids).2, ?_, rfl⟩
    rw [allocate, addListChecked_of_room hfirst hlist]
    rfl
  | second slots =>
    refine ⟨(c.addSlots slots).2, ?_, rfl⟩
    rw [allocate, addSlotsChecked_of_room hsecond hother]
    rfl

end Code

/-- The contents of expression stores and of code do not change. As long as no list is too long and
there are fewer than 2³² entries of each kind, everything is stored: expressions and nodes are
numbered from 0, no list overlaps another, and whatever was stored reads back at its place as it
was, however much is stored later. -/
theorem stored_things_stay :
    (∀ requests further, ExprStore.empty.contents.HasRoom (requests ++ further) →
      ∃ history s later t, allocateAll ExprStore.allocate .empty requests = .ok (history, s) ∧
        allocateAll ExprStore.allocate s further = .ok (later, t) ∧
        Settles (fun n => t.get? ⟨n⟩) t.lists t.elements requests history) ∧
    (∀ requests further, Code.empty.contents.HasRoom (requests ++ further) →
      ∃ history c later d, allocateAll Code.allocate .empty requests = .ok (history, c) ∧
        allocateAll Code.allocate c further = .ok (later, d) ∧
        Settles (fun n => d.get? ⟨n⟩) d.lists d.slots requests history) :=
  ⟨fun _ _ h => settles_allocateAll ExprStore.meetsRequests rfl h,
    fun _ _ h => settles_allocateAll Code.meetsRequests rfl h⟩

/-- Two expressions and three lists of which one is empty, and as many nodes and lists. -/
theorem stored_things_stay_two :
    let exprs : List (Request StoredForm ExprId (Element ExprId)) :=
      [.item .error ⟨0, 1⟩, .first [⟨0⟩, ⟨0⟩], .first [], .item .error ⟨2, 3⟩, .first [⟨1⟩]]
    let nodes : List (Request Node NodeId Slot) :=
      [.item (.int 7) ⟨0, 1⟩, .second [⟨0⟩], .first [], .item (.bool true) ⟨2, 3⟩, .second [⟨1⟩]]
    (ExprStore.empty.contents.HasRoom (exprs ++ exprs) ∧
      ∃ history s later t, allocateAll ExprStore.allocate .empty exprs = .ok (history, s) ∧
        allocateAll ExprStore.allocate s exprs = .ok (later, t) ∧
        history.map Prod.fst = exprs ∧ history.filterMap (·.2.position?) = [0, 1]) ∧
    (Code.empty.contents.HasRoom (nodes ++ nodes) ∧
      ∃ history c later d, allocateAll Code.allocate .empty nodes = .ok (history, c) ∧
        allocateAll Code.allocate c nodes = .ok (later, d) ∧
        history.map Prod.fst = nodes ∧ history.filterMap (·.2.position?) = [0, 1]) := by
  intro exprs nodes
  have hexprs : ExprStore.empty.contents.HasRoom (exprs ++ exprs) :=
    ⟨by decide, by decide, by decide, by decide⟩
  have hnodes : Code.empty.contents.HasRoom (nodes ++ nodes) :=
    ⟨by decide, by decide, by decide, by decide⟩
  obtain ⟨history, s, later, t, hs, ht, hsettles⟩ := stored_things_stay.1 exprs exprs hexprs
  obtain ⟨story, c, rest, d, hc, hd, hcode⟩ := stored_things_stay.2 nodes nodes hnodes
  exact ⟨⟨hexprs, history, s, later, t, hs, ht, hsettles.inOrder, hsettles.positions⟩,
    ⟨hnodes, story, c, rest, d, hc, hd, hcode.inOrder, hcode.positions⟩⟩

end ExprCore
