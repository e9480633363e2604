/-!
# Steps on a state

Compilation and evaluation are made of steps on a state that may fail, and a failed step leaves the
state that it has reached. Two steps one behind the other fail with the first of them or on what it
leaves, and a list of them fails with the first one that does.

## Main statements

- `bind_eq_ok`, `bind_eq_error_iff`: how two steps one behind the other end
- `mapM_eq_error_iff`: how a list of steps fails
-/

namespace ExprCore

variable {ε σ α β : Type} {s t : σ} {e : ε}

/-- Two steps succeed one after the other when the first one succeeds and the second one succeeds
on what it leaves. -/
theorem bind_eq_ok {x : EStateM ε σ α} {f : α → EStateM ε σ β} {b : β}
    (h : (x >>= f) s = .ok b t) : ∃ a u, x s = .ok a u ∧ f a u = .ok b t := by
  simp only [bind, EStateM.bind] at h
  split at h
  · exact ⟨_, _, by assumption, h⟩
  · cases h

theorem bind_of_ok {x : EStateM ε σ α} {f : α → EStateM ε σ β} {a : α} {r : EStateM.Result ε σ β}
    {u : σ} (hx : x s = .ok a u) (hf : f a u = r) : (x >>= f) s = r := by
  simp only [bind, EStateM.bind, hx, hf]

theorem bind_of_error {x : EStateM ε σ α} {f : α → EStateM ε σ β} (hx : x s = .error e t) :
    (x >>= f) s = .error e t := by
  simp only [bind, EStateM.bind, hx]

theorem pure_eq_ok {a b : α} (h : (pure a : EStateM ε σ α) s = .ok b t) : a = b ∧ s = t := by
  cases h
  exact ⟨rfl, rfl⟩

theorem bind_eq_error_iff {x : EStateM ε σ α} {f : α → EStateM ε σ β} :
    (x >>= f) s = .error e t
      ↔ x s = .error e t ∨ ∃ a u, x s = .ok a u ∧ f a u = .error e t := by
  cases hx : x s with
  | ok a u =>
    rw [bind_of_ok hx rfl]
    refine ⟨fun h => .inr ⟨a, u, rfl, h⟩, ?_⟩
    rintro (h | ⟨_, _, h, hf⟩)
    · cases h
    · cases h
      exact hf
  | error e' u =>
    rw [bind_of_error hx]
    constructor
    · intro h
      cases h
      exact .inl rfl
    · rintro (h | ⟨_, _, h, -⟩)
      · cases h
        rfl
      · cases h

/-- The steps before the one that fails succeed. -/
theorem mapM_eq_error_iff {f : α → EStateM ε σ β} {as : List α} :
    as.mapM f s = .error e t ↔ ∃ done a rest bs u, as = done ++ a :: rest
      ∧ done.mapM f s = .ok bs u ∧ f a u = .error e t := by
  constructor
  · intro h
    induction as generalizing s with
    | nil => cases h
    | cons a as ih =>
      rw [List.mapM_cons, bind_eq_error_iff] at h
      obtain h | ⟨b, u, hb, h⟩ := h
      · exact ⟨[], a, as, [], s, rfl, rfl, h⟩
      · obtain h | ⟨_, _, _, h⟩ := bind_eq_error_iff.1 h
        · obtain ⟨done, a', rest, bs, u', rfl, hdone, h⟩ := ih h
          refine ⟨a :: done, a', rest, b :: bs, u', rfl, ?_, h⟩
          rw [List.mapM_cons]
          exact bind_of_ok hb (bind_of_ok hdone rfl)
        · cases h
  · rintro ⟨done, a, rest, bs, u, rfl, hdone, h⟩
    rw [List.mapM_append]
    refine bind_eq_error_iff.2 (.inr ⟨bs, u, hdone, ?_⟩)
    rw [List.mapM_cons]
    exact bind_of_error (bind_of_error h)

end ExprCore
