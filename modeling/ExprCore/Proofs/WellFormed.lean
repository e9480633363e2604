import ExprCore.Proofs.Lowered
import ExprCore.Proofs.Place

/-!
# Well-formed code

Compiled code is a tree laid out in an array: operands come before the nodes that use them, every
node but the last one is an operand exactly once, and the last one is the root.

## Main definitions

- `Code.operands`: the nodes that a node refers to
- `Code.Formed`: the lists, positions and places of one node are there
- `Compiled.WellFormed`: code that is such a tree
- `Code.Forest`: a stretch of code that holds the trees of some nodes

## Main statements

- `Lowered.forest`: compilation makes forests
- `wellFormed_of_compile`, `wellFormed_of_compileSequence`: so what it yields is a tree
-/

namespace ExprCore

/-- The nodes that a node refers to. -/
def Code.operands (code : Code) : Node → List NodeId
  | .assign _ value => [value]
  | .unary _ x => [x]
  | .binary _ left right => [left, right]
  | .list items | .sequence items => code.lists.read items
  | .index target position => target :: position.toList
  | .storeElement target position value => target :: (position.toList ++ [value])
  | .call _ _ arguments => code.lists.read arguments
  | .int _ | .float _ | .bool _ | .var .. | .step .. | .unset _ => []

def Code.operandsAt (code : Code) (n : Nat) : List NodeId :=
  match code.get? ⟨n⟩ with
  | some ⟨node, _⟩ => code.operands node
  | none => []

/-- All operands of the first `n` nodes. -/
def Code.references (code : Code) (n : Nat) : List NodeId := (List.range n).flatMap code.operandsAt

/-- Lists lie in their storage, an element that is read has a position, the target of an element
write is a place, and slots are slots of the scope. -/
def Code.Formed (code : Code) (scope : Scope) : Node → Prop
  | .list items | .sequence items => code.lists.Within items
  | .call _ _ arguments => code.lists.Within arguments
  | .unset slots =>
    code.slots.Within slots ∧ ∀ slot ∈ code.slots.read slots, slot.index < scope.slotCount
  | .var name slot => ∀ x, slot = some x → scope.find? name = some x
  | .assign slot _ | .step slot _ _ => slot.index < scope.slotCount
  | .index _ position => position.isSome = true
  | .storeElement target _ _ => ∃ slot path, code.Place target slot path
  | .int _ | .float _ | .bool _ | .unary .. | .binary .. => True

/-- The code is one tree whose operands come first and whose root comes last. Its variables are
those of the scope. -/
structure Compiled.WellFormed (c : Compiled) (scope : Scope) : Prop where
  root_last : c.root.index + 1 = c.code.size
  operands_lt : ∀ id node span, c.code.get? id = some ⟨node, span⟩ →
    ∀ x ∈ c.code.operands node, x.index < id.index
  formed : ∀ id node span, c.code.get? id = some ⟨node, span⟩ → c.code.Formed scope node
  one_parent : ∀ id : NodeId, id.index < c.root.index →
    (c.code.references c.code.size).count id = 1
  root_free : (c.code.references c.code.size).count c.root = 0

theorem Code.count_references_succ (code : Code) (n : Nat) (id : NodeId) :
    (code.references (n + 1)).count id
      = (code.references n).count id + (code.operandsAt n).count id := by
  simp [references, List.range_succ, List.flatMap_append]

/-- The nodes from `lo` up to `hi` are well formed, and each of them is an operand exactly once,
except for those in `roots`, which are not yet operands. -/
structure Code.Forest (code : Code) (scope : Scope) (lo hi : Nat) (roots : List NodeId) : Prop where
  le : lo ≤ hi
  below : ∀ id ∈ roots, id.index < hi
  nodes : ∀ n, lo ≤ n → n < hi → ∃ node span, code.get? ⟨n⟩ = some ⟨node, span⟩
    ∧ (∀ x ∈ code.operands node, x.index < n) ∧ code.Formed scope node
  once : ∀ id, (code.references hi).count id + roots.count id
    = (code.references lo).count id + if lo ≤ id.index ∧ id.index < hi then 1 else 0

namespace Code.Forest

variable {code : Code} {scope : Scope} {lo mid hi : Nat} {roots more : List NodeId}

theorem nil : code.Forest scope lo lo [] := by
  refine ⟨Nat.le_refl _, nofun, fun n h h' => absurd h (Nat.not_le.2 h'), fun id => ?_⟩
  rw [if_neg (by omega), List.count_nil]

theorem append (h : code.Forest scope lo mid roots) (h' : code.Forest scope mid hi more) :
    code.Forest scope lo hi (roots ++ more) := by
  have hle := h.le
  have hle' := h'.le
  refine ⟨Nat.le_trans hle hle', fun id hid => ?_, fun n hlo hhi => ?_, fun id => ?_⟩
  · rcases List.mem_append.1 hid with hid | hid
    · exact Nat.lt_of_lt_of_le (h.below id hid) hle'
    · exact h'.below id hid
  · by_cases hmid : n < mid
    · exact h.nodes n hlo hmid
    · exact h'.nodes n (by omega) hhi
  · have hcount := h.once id
    have hcount' := h'.once id
    rw [List.count_append]
    split at hcount <;> split at hcount' <;> split <;> omega

theorem node {node : Node} {span : Span} (h : code.Forest scope lo hi roots)
    (hget : code.get? ⟨hi⟩ = some ⟨node, span⟩) (hroots : (code.operands node).Perm roots)
    (hformed : code.Formed scope node) : code.Forest scope lo (hi + 1) [⟨hi⟩] := by
  have hle := h.le
  refine ⟨by omega, fun id hid => ?_, fun n hlo hhi => ?_, fun id => ?_⟩
  · rw [List.mem_singleton.1 hid]
    exact Nat.lt_succ_self hi
  · by_cases hn : n < hi
    · exact h.nodes n hlo hn
    · obtain rfl : n = hi := by omega
      exact ⟨node, span, hget, fun x hx => h.below x (hroots.mem_iff.1 hx), hformed⟩
  · have hcount := h.once id
    have hoperands : (code.operandsAt hi).count id = roots.count id := by
      rw [operandsAt, hget]
      exact hroots.count_eq id
    rw [count_references_succ, hoperands]
    -- the new node is a root now, and the roots below it are its operands
    by_cases hid : id = ⟨hi⟩
    · subst hid
      rw [List.count_singleton_self, if_pos ⟨hle, Nat.lt_succ_self hi⟩]
      rw [if_neg (by simp)] at hcount
      omega
    · have hne : id.index ≠ hi := fun heq => hid (by cases id; cases heq; rfl)
      rw [List.count_singleton, if_neg (by simpa using Ne.symm hid)]
      split at hcount <;> split <;> omega

theorem leaf {node : Node} {span : Span} (hget : code.get? ⟨lo⟩ = some ⟨node, span⟩)
    (hoperands : code.operands node = []) (hformed : code.Formed scope node) :
    code.Forest scope lo (lo + 1) [⟨lo⟩] :=
  nil.node hget (hoperands ▸ List.Perm.refl _) hformed

end Code.Forest

/-- The nodes of a part of the source that are not operands within it. -/
def Piece.roots : Piece → List NodeId
  | .value _ id | .place _ id | .stored _ _ _ _ id => [id]
  | .values _ ids => ids

/-- The container of an element leads to a variable with a slot. -/
def Piece.LeadsToSlot (code : Code) : Piece → Prop
  | .place _ id => ∃ slot path, code.Place id slot path
  | .value .. | .stored .. | .values .. => True

/-- Compilation of a part of the source adds its trees and nothing else. -/
theorem Lowered.forest {names : NameTable} {piece : Piece} {s t : LowerState}
    (h : Lowered names piece s t) {u : LowerState} (hu : t.Extends u) :
    u.code.Forest u.scope s.code.size t.code.size piece.roots ∧ piece.LeadsToSlot u.code := by
  -- The parts of a construct are stretches of code one behind the other, and its own node comes
  -- right after the last one: `append` and then `node`.
  induction h with
  | @scalar span kind text literal s hliteral =>
    have hget := LowerState.get?_of_extends hu.code
    rw [LowerState.size_add]
    cases literal <;> exact ⟨.leaf hget rfl trivial, trivial⟩
  | var =>
    have hget := LowerState.get?_of_extends hu.code
    rw [LowerState.size_add]
    exact ⟨.leaf hget rfl fun _ hslot => hu.scope hslot, trivial⟩
  | step =>
    have hget := LowerState.get?_of_extends hu.code
    have hslot := LowerState.find?_of_extends hu.scope
    rw [LowerState.size_add]
    exact ⟨.leaf hget rfl (Scope.index_lt_slotCount hslot), trivial⟩
  | binary _ _ hr ihl ihr | storedCompound _ hr ihl ihr =>
    have hu₂ := (LowerState.extends_add _ _ _).trans hu
    have hget := LowerState.get?_of_extends hu.code
    rw [LowerState.size_add]
    exact ⟨((ihl (hr.grows.trans hu₂)).1.append (ihr hu₂).1).node hget (.refl _) trivial, trivial⟩
  | unary _ _ ih =>
    have hu₁ := (LowerState.extends_add _ _ _).trans hu
    have hget := LowerState.get?_of_extends hu.code
    rw [LowerState.size_add]
    exact ⟨(ih hu₁).1.node hget (.refl _) trivial, trivial⟩
  | assign _ _ ihv =>
    have hu₁ := (LowerState.extends_add _ _ _).trans hu
    have hget := LowerState.get?_of_extends hu.code
    have hslot := Scope.index_lt_slotCount (LowerState.find?_of_extends hu.scope)
    rw [LowerState.size_add]
    exact ⟨(ihv ((LowerState.extends_define _ _).trans hu₁)).1.node hget (.refl _) hslot, trivial⟩
  | append _ _ hp ihv ihp =>
    have hu₂ := (LowerState.extends_add _ _ _).trans hu
    have hget := LowerState.get?_of_extends hu.code
    obtain ⟨hplaces, hslot⟩ := ihp hu₂
    have hall := (ihv (hp.grows.trans hu₂)).1.append hplaces
    rw [LowerState.size_add]
    exact ⟨hall.node hget (.swap _ _ _) hslot, trivial⟩
  | storeElement _ _ hp hk ihv ihp ihk =>
    have hu₃ := (LowerState.extends_add _ _ _).trans hu
    have hu₂ := hk.grows.trans hu₃
    have hget := LowerState.get?_of_extends hu.code
    obtain ⟨hplaces, hslot⟩ := ihp hu₂
    have hall := ((ihv (hp.grows.trans hu₂)).1.append hplaces).append (ihk hu₃).1
    rw [LowerState.size_add]
    -- the value is compiled first, but it is the last operand
    exact ⟨hall.node hget (@List.perm_append_comm _ [_, _] [_]) hslot, trivial⟩
  | list _ _ ih =>
    have hu₂ := (LowerState.extends_add _ _ _).trans hu
    have hget := LowerState.get?_of_extends hu.code
    have hall := (ih ((LowerState.extends_addList _ _).trans hu₂)).1
    rw [LowerState.size_add]
    refine ⟨hall.node hget ?_ (hu₂.code.lists.within (Pool.within_add _ _)), trivial⟩
    rw [Code.operands, LowerState.read_of_extends hu₂.code]
    exact .refl _
  | call _ _ ih =>
    have hu₂ := (LowerState.extends_add _ _ _).trans hu
    have hget := LowerState.get?_of_extends hu.code
    have hall := (ih ((LowerState.extends_addList _ _).trans hu₂)).1
    rw [LowerState.size_add]
    refine ⟨hall.node hget ?_ (hu₂.code.lists.within (Pool.within_add _ _)), trivial⟩
    rw [Code.operands, LowerState.read_of_extends hu₂.code]
    exact .refl _
  | index _ hk iht ihk =>
    have hu₂ := (LowerState.extends_add _ _ _).trans hu
    have hget := LowerState.get?_of_extends hu.code
    have hall := (iht (hk.grows.trans hu₂)).1.append (ihk hu₂).1
    rw [LowerState.size_add]
    exact ⟨hall.node hget (.refl _) rfl, trivial⟩
  | unset _ _ hslots =>
    have hu₁ := (LowerState.extends_add _ _ _).trans hu
    have hget := LowerState.get?_of_extends hu.code
    rw [LowerState.size_add]
    refine ⟨.leaf hget rfl ⟨hu₁.code.slots.within (Pool.within_add _ _), fun slot hslot => ?_⟩,
      trivial⟩
    rw [LowerState.read_slots_of_extends hu₁.code, hslots] at hslot
    obtain ⟨name, -, hfind⟩ := List.mem_filterMap.1 hslot
    exact Scope.index_lt_slotCount (hu.scope hfind)
  | paren _ ih => exact ⟨(ih hu).1, trivial⟩
  | storedPlain _ ih => exact ⟨(ih hu).1, trivial⟩
  | placeVar =>
    have hget := LowerState.get?_of_extends hu.code
    rw [LowerState.size_add]
    refine ⟨.leaf hget rfl fun slot hslot => ?_, _, _, .var hget⟩
    cases hslot
    exact LowerState.find?_of_extends hu.scope
  | placeIndex ht hk iht ihk =>
    have hu₂ := (LowerState.extends_add _ _ _).trans hu
    have hget := LowerState.get?_of_extends hu.code
    obtain ⟨htargets, slot, path, hplace⟩ := iht (hk.grows.trans hu₂)
    have hall := htargets.append (ihk hu₂).1
    rw [LowerState.size_add]
    refine ⟨hall.node hget (.refl _) rfl, slot, _, .index hget ?_ hplace⟩
    exact Nat.le_trans (Nat.le_of_eq ht.index_place) hk.size_le
  | placeParen _ ih => exact ih hu
  | nil => exact ⟨.nil, trivial⟩
  | cons _ hs ih ihs =>
    exact ⟨(ih (hs.grows.trans hu)).1.append (ihs hu).1, trivial⟩

theorem Compiled.WellFormed.root_lt {c : Compiled} {scope : Scope} (h : c.WellFormed scope) :
    c.root.index < c.code.size :=
  Nat.lt_of_succ_le (Nat.le_of_eq h.root_last)

theorem Compiled.WellFormed.of_forest {c : Compiled} {scope : Scope}
    (h : c.code.Forest scope 0 c.code.size [c.root]) (hroot : c.root.index + 1 = c.code.size) :
    c.WellFormed scope := by
  have hnode (id : NodeId) (node : Node) (span : Span)
      (hget : c.code.get? id = some ⟨node, span⟩) :
      (∀ x ∈ c.code.operands node, x.index < id.index) ∧ c.code.Formed scope node := by
    obtain ⟨node', span', hget', hok⟩ := h.nodes id.index (Nat.zero_le _) (Code.index_lt_size hget)
    rw [show (⟨id.index⟩ : NodeId) = id from rfl, hget] at hget'
    cases hget'
    exact hok
  have hnone (id : NodeId) : (c.code.references 0).count id = 0 := rfl
  refine ⟨hroot, fun id node span hget => (hnode id node span hget).1,
    fun id node span hget => (hnode id node span hget).2, fun id hid => ?_, ?_⟩
  · have hcount := h.once id
    have hne : c.root ≠ id := fun heq => by rw [heq] at hid; exact Nat.lt_irrefl _ hid
    rw [hnone, List.count_singleton, if_neg (by simpa using hne),
      if_pos ⟨Nat.zero_le _, by omega⟩] at hcount
    omega
  · have hcount := h.once c.root
    rw [hnone, List.count_singleton_self, if_pos ⟨Nat.zero_le _, by omega⟩] at hcount
    omega

theorem wellFormed_of_compile {names : NameTable} {scope scope' : Scope} {root : Option Expr}
    {c : Compiled} (h : compile names scope root = ⟨.ok c, scope'⟩) : c.WellFormed scope' := by
  obtain ⟨e, -, hlowered⟩ := lowered_of_compile h
  exact .of_forest (hlowered.forest (LowerState.Extends.refl _)).1 hlowered.index_value

theorem wellFormed_of_compileSequence {names : NameTable} {scope scope' : Scope}
    {members : List (Option Expr)} {c : Compiled}
    (h : compileSequence names scope members = ⟨.ok c, scope'⟩) : c.WellFormed scope' := by
  obtain ⟨es, ids, s, -, hlowered, hroot, hstate⟩ := lowered_of_compileSequence h
  have hu : ((s.addList ids).add (.sequence (s.segment ids)) (sequenceSpan members)).Extends
      ⟨scope', c.code⟩ := hstate ▸ LowerState.Extends.refl _
  have hu₁ := (LowerState.extends_add _ _ _).trans hu
  have hget := LowerState.get?_of_extends hu.code
  have hsize : c.code.size = s.code.size + 1 := by
    rw [show c.code = (LowerState.mk scope' c.code).code from rfl, hstate, LowerState.size_add]
    rfl
  have hitems := (hlowered.forest ((LowerState.extends_addList _ _).trans hu₁)).1
  have htree := hitems.node hget (by
    rw [Code.operands, LowerState.read_of_extends hu₁.code]
    exact .refl _) (hu₁.code.lists.within (Pool.within_add _ _))
  refine .of_forest ?_ ?_
  · rw [hsize, hroot]
    exact htree
  · rw [hsize, hroot]
    rfl

theorem wellFormed_of_compiled {names : NameTable} {scope scope' : Scope} {c : Compiled}
    (h : (∃ root, compile names scope root = ⟨.ok c, scope'⟩)
      ∨ ∃ members, compileSequence names scope members = ⟨.ok c, scope'⟩) :
    c.WellFormed scope' := by
  rcases h with ⟨root, h⟩ | ⟨members, h⟩
  · exact wellFormed_of_compile h
  · exact wellFormed_of_compileSequence h

end ExprCore
