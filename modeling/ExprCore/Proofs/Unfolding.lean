import ExprCore.Expr.Store
import Mathlib.Data.Finset.Card
import Mathlib.Order.Monotone.Basic

/-!
# Stores and the trees in them

A reference into a store stands for a tree if every way down from it ends. Which tree that is
depends only on what can be reached from the reference: parts may be shared, they may be stored
before or behind the expression that they belong to, and there may be other expressions.

## Main definitions

- `ExprStore.partsOf`: the references that a stored construct is made of
- `ExprStore.Denotes`: the tree that a reference stands for
- `ExprStore.endsWithin`: every way down from a reference ends within so many levels
- `ExprStore.Knows`: trees that are known are those that their positions stand for

## Main statements

- `ExprStore.Denotes.unique`: a reference stands for one tree
- `ExprStore.endsWithin_size`: no way down that ends is longer than the store
- `ExprStore.Denotes.tree_eq`: the tree that is put together from a store is the one that the
  reference stands for
- `ExprStore.denotes_iff`: which references stand for a tree
-/

namespace ExprCore

namespace ExprStore

variable {s : ExprStore} {id : ExprId}

/-- The references that a stored construct is made of. -/
def partsOf (s : ExprStore) : StoredForm → List ExprId
  | .scalar .. | .var _ | .closure | .error => []
  | .binary _ left right => [left, right]
  | .assign _ target value => [target, value]
  | .dynamicVar e | .unary _ e | .step _ _ e | .paren e | .cast _ e | .instanceOf e _ => [e]
  | .array entries =>
    (s.elements.read entries).flatMap fun entry => entry.key.toList ++ [entry.value]
  | .access _ target index => target :: index.toList
  | .call _ arguments | .new _ arguments | .quote arguments => s.lists.read arguments
  | .dynamicCall callee arguments => callee :: s.lists.read arguments
  | .conditional condition whenTrue whenFalse => [condition, whenTrue, whenFalse]

/-- The reference stands for the tree: what is stored there is on top, and its parts stand for the
trees below. -/
inductive Denotes (s : ExprStore) : ExprId → Expr → Prop where
  | layer {id e} (part : ExprId → Expr) (hget : s.get? id = some e)
      (hparts : ∀ p ∈ s.partsOf e.item, Denotes s p (part p)) : Denotes s id (s.layer part e)

/-- Every way down from the reference ends within so many levels. -/
def endsWithin (s : ExprStore) : Nat → ExprId → Bool
  | 0, _ => false
  | depth + 1, id =>
    match s.get? id with
    | none => false
    | some e => (s.partsOf e.item).all (s.endsWithin depth)

/-- Only the trees of its own parts matter for the tree of a construct. -/
theorem layer_congr {f g : ExprId → Expr} {e : Located StoredForm}
    (h : ∀ p ∈ s.partsOf e.item, f p = g p) : s.layer f e = s.layer g e := by
  obtain ⟨form, span⟩ := e
  cases form with
  | array entries =>
    simp only [partsOf, List.mem_flatMap] at h
    simp only [layer, Form.map]
    congr 2
    refine List.map_congr_left fun entry hentry => ?_
    have hvalue : f entry.value = g entry.value :=
      h _ ⟨entry, hentry, List.mem_append_right _ (List.mem_singleton_self _)⟩
    have hkey : entry.key.map f = entry.key.map g :=
      Option.map_congr fun key hmem =>
        h _ ⟨entry, hentry, List.mem_append_left _ (Option.mem_toList.2 hmem)⟩
    simp only [Element.map, hvalue, hkey]
  | access kind target index =>
    simp only [partsOf, List.forall_mem_cons] at h
    have hindex : index.map f = index.map g :=
      Option.map_congr fun p hmem => h.2 p (Option.mem_toList.2 hmem)
    simp only [layer, Form.map, h.1, hindex]
  | call name arguments | new name arguments | quote arguments =>
    simp only [partsOf] at h
    simp only [layer, Form.map, List.map_congr_left h]
  | dynamicCall callee arguments =>
    simp only [partsOf, List.forall_mem_cons] at h
    simp only [layer, Form.map, h.1, List.map_congr_left h.2]
  | scalar | var | closure | error => rfl
  | dynamicVar | binary | unary | step | assign | paren | conditional | cast | instanceOf =>
    simp_all [layer, Form.map, partsOf]

theorem endsWithin_succ_iff {depth : Nat} :
    s.endsWithin (depth + 1) id = true
      ↔ ∃ e, s.get? id = some e ∧ ∀ p ∈ s.partsOf e.item, s.endsWithin depth p = true := by
  rw [endsWithin]
  cases s.get? id <;> simp

theorem endsWithin_succ {depth : Nat} (h : s.endsWithin depth id = true) :
    s.endsWithin (depth + 1) id = true := by
  induction depth generalizing id with
  | zero => cases h
  | succ depth ih =>
    obtain ⟨e, hget, hparts⟩ := endsWithin_succ_iff.1 h
    exact endsWithin_succ_iff.2 ⟨e, hget, fun p hp => ih (hparts p hp)⟩

theorem endsWithin_mono {depth depth' : Nat} (hle : depth ≤ depth')
    (h : s.endsWithin depth id = true) : s.endsWithin depth' id = true := by
  induction hle with
  | refl => exact h
  | step _ ih => exact endsWithin_succ ih

/-- The stored expressions from which every way down ends within so many levels. -/
def shallow (s : ExprStore) (depth : Nat) : Finset Nat :=
  (Finset.range s.size).filter fun n => s.endsWithin depth ⟨n⟩ = true

theorem mem_shallow {depth n : Nat} :
    n ∈ s.shallow depth ↔ s.endsWithin depth ⟨n⟩ = true := by
  simp only [shallow, Finset.mem_filter, Finset.mem_range, and_iff_right_iff_imp]
  intro h
  cases depth with
  | zero => cases h
  | succ depth =>
    obtain ⟨e, hget, -⟩ := endsWithin_succ_iff.1 h
    exact (Array.getElem?_eq_some_iff.1 hget).1

theorem shallow_mono : Monotone s.shallow := by
  intro depth depth' hle n hn
  exact mem_shallow.2 (endsWithin_mono hle (mem_shallow.1 hn))

/-- Where one more level brings nothing new, two more bring nothing new either. -/
theorem shallow_stable {depth : Nat} (h : s.shallow depth = s.shallow (depth + 1)) :
    s.shallow (depth + 1) = s.shallow (depth + 2) := by
  refine le_antisymm (shallow_mono (Nat.le_succ _)) fun n hn => ?_
  obtain ⟨e, hget, hparts⟩ := endsWithin_succ_iff.1 (mem_shallow.1 hn)
  refine mem_shallow.2 (endsWithin_succ_iff.2 ⟨e, hget, fun p hp => ?_⟩)
  have hp : p.index ∈ s.shallow (depth + 1) := mem_shallow.2 (hparts p hp)
  rw [← h] at hp
  exact mem_shallow.1 hp

/-- No way down that ends is longer than the store: each level adds an expression to those that end
within it, until there are no more. -/
theorem endsWithin_size {depth : Nat} (h : s.endsWithin depth id = true) :
    s.endsWithin s.size id = true := by
  rcases Nat.le_total depth s.size with hle | hle
  · exact endsWithin_mono hle h
  have hcard : (s.shallow depth).card = (s.shallow s.size).card := by
    refine Nat.stabilises_of_monotone (f := fun depth => (s.shallow depth).card)
      (fun _ _ hle => Finset.card_le_card (shallow_mono hle)) (fun depth => ?_)
      (fun depth hstable => ?_) hle
    · exact (Finset.card_filter_le _ _).trans_eq (Finset.card_range _)
    · have heq := Finset.eq_of_subset_of_card_le (shallow_mono (Nat.le_succ depth)) hstable.ge
      exact congrArg Finset.card (shallow_stable heq)
  have heq := Finset.eq_of_subset_of_card_le (shallow_mono hle) hcard.le
  exact mem_shallow.1 (heq ▸ mem_shallow.2 h)

/-- To the depth within which every way down ends, unfolding yields the tree. -/
theorem denotes_unfold {depth : Nat} (h : s.endsWithin depth id = true) :
    s.Denotes id (s.unfold depth id) := by
  induction depth generalizing id with
  | zero => cases h
  | succ depth ih =>
    obtain ⟨e, hget, hparts⟩ := endsWithin_succ_iff.1 h
    rw [unfold, hget]
    exact .layer _ hget fun p hp => ih (hparts p hp)

namespace Denotes

variable {e e' : Expr}

/-- A reference stands for one tree. -/
theorem unique (h : s.Denotes id e) (h' : s.Denotes id e') : e = e' := by
  induction h generalizing e' with
  | layer part hget _ ih =>
    cases h' with
    | layer part' hget' hparts' =>
      obtain rfl := Option.some.inj (hget.symm.trans hget')
      exact layer_congr fun p hp => ih p hp (hparts' p hp)

theorem exists_endsWithin (h : s.Denotes id e) : ∃ depth, s.endsWithin depth id = true := by
  induction h with
  | @layer id e part hget _ ih =>
    -- some depth is enough for all parts, which are finitely many
    have hparts : ∀ ids : List ExprId, (∀ p ∈ ids, ∃ depth, s.endsWithin depth p = true) →
        ∃ depth, ∀ p ∈ ids, s.endsWithin depth p = true := by
      intro ids
      induction ids with
      | nil => exact fun _ => ⟨0, nofun⟩
      | cons p ids ihs =>
        intro h
        rw [List.forall_mem_cons] at h
        obtain ⟨depth, hp⟩ := h.1
        obtain ⟨depth', hids⟩ := ihs h.2
        refine ⟨max depth depth', List.forall_mem_cons.2 ⟨?_, fun q hq => ?_⟩⟩
        · exact endsWithin_mono (Nat.le_max_left _ _) hp
        · exact endsWithin_mono (Nat.le_max_right _ _) (hids q hq)
    obtain ⟨depth, hdepth⟩ := hparts _ ih
    exact ⟨depth + 1, endsWithin_succ_iff.2 ⟨e, hget, hdepth⟩⟩

theorem unfold_size (h : s.Denotes id e) : s.unfold s.size id = e := by
  obtain ⟨depth, hdepth⟩ := h.exists_endsWithin
  exact (denotes_unfold (endsWithin_size hdepth)).unique h

end Denotes

/-- The known trees are those that their positions stand for. -/
def Knows (s : ExprStore) (known : Array Expr) : Prop :=
  ∀ n t, known[n]? = some t → ∀ e, s.Denotes ⟨n⟩ e → t = e

namespace Knows

variable {known : Array Expr}

theorem treeFrom_eq (h : s.Knows known) {e : Expr} (he : s.Denotes id e) :
    s.treeFrom known id = e := by
  unfold treeFrom
  cases hid : known[id.index]? with
  | none => exact he.unfold_size
  | some t => exact h _ t hid e he

/-- The tree of the next position is put together from the trees of its parts. -/
theorem push (h : s.Knows known) {e : Located StoredForm} (hget : s.exprs[known.size]? = some e) :
    s.Knows (known.push (s.layer (s.treeFrom known) e)) := by
  intro n t hn e' he'
  rw [Array.getElem?_push] at hn
  split at hn
  · rename_i hlast
    subst hlast
    cases hn
    cases he' with
    | layer part hget' hparts =>
      obtain rfl := Option.some.inj (hget'.symm.trans hget)
      exact layer_congr fun p hp => h.treeFrom_eq (hparts p hp)
  · exact h n t hn e' he'

end Knows

theorem knows_trees (s : ExprStore) : s.Knows s.trees := by
  have hall : s.trees.size = s.exprs.size ∧ s.Knows s.trees := by
    refine Array.foldl_induction (fun n known => known.size = n ∧ s.Knows known) ?_ ?_
    · exact ⟨rfl, fun n t hn => by simp at hn⟩
    · rintro n known ⟨hsize, hknows⟩
      exact ⟨by simp [hsize], hknows.push (by simp [hsize])⟩
  exact hall.2

/-- The tree that is put together from a store is the one that the reference stands for. -/
theorem Denotes.tree_eq {e : Expr} (h : s.Denotes id e) : s.tree id = e :=
  s.knows_trees.treeFrom_eq h

/-- A reference stands for a tree exactly if every way down from it ends, which is seen within as
many levels as the store has expressions. -/
theorem denotes_iff {e : Expr} :
    s.Denotes id e ↔ s.endsWithin s.size id = true ∧ s.tree id = e := by
  constructor
  · intro h
    obtain ⟨depth, hdepth⟩ := h.exists_endsWithin
    exact ⟨endsWithin_size hdepth, h.tree_eq⟩
  · rintro ⟨hends, rfl⟩
    have h := denotes_unfold hends
    rwa [h.tree_eq]

end ExprStore

end ExprCore
