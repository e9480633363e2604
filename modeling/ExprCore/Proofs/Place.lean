import ExprCore.Evaluation

/-!
# Places

The container of an element that is written is a variable, or an element of such a container. In
code it is a chain of index nodes that ends in a variable with a slot, and the evaluator walks down
the chain to find the variable and the keys.

## Main definitions

- `Code.Place`: a node is such a chain

## Main statements

- `Code.Place.place?_eq`: the walk down a chain finds its variable and its indices
-/

namespace ExprCore

/-- The node `id` is a chain of index nodes that ends in the variable of `slot`. The path holds the
indices, that of the variable first. -/
inductive Code.Place (code : Code) : NodeId → Slot → List NodeId → Prop where
  | var {id name slot span} (hget : code.get? id = some ⟨.var name (some slot), span⟩) :
      Place code id slot []
  | index {id target position slot path span}
      (hget : code.get? id = some ⟨.index target (some position), span⟩)
      (hlt : target.index < id.index) (htarget : Place code target slot path) :
      Place code id slot (path ++ [position])

namespace Code.Place

variable {code : Code} {id : NodeId} {slot : Slot} {path : List NodeId}

theorem length_le (h : code.Place id slot path) : path.length ≤ id.index := by
  induction h with
  | var => exact Nat.zero_le _
  | index _ hlt _ ih =>
    rw [List.length_append, List.length_singleton]
    omega

theorem place?_eq (h : code.Place id slot path) {fuel : Nat} (hfuel : path.length < fuel)
    (rest : List (Option NodeId)) :
    code.place? fuel id rest = .ok (slot, path.map some ++ rest) := by
  induction h generalizing fuel rest with
  | var hget =>
    cases fuel with
    | zero => exact absurd hfuel (Nat.not_lt_zero _)
    | succ fuel =>
      rw [place?, hget]
      rfl
  | @index id target position slot path span hget hlt htarget ih =>
    cases fuel with
    | zero => exact absurd hfuel (Nat.not_lt_zero _)
    | succ fuel =>
      rw [List.length_append, List.length_singleton] at hfuel
      rw [place?, hget]
      show code.place? fuel target (some position :: rest) = _
      rw [ih (by omega), List.map_append, List.append_assoc]
      rfl

end Code.Place

end ExprCore
