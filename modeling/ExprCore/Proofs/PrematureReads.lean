import ExprCore.Proofs.ReadOrder
import ExprCore.Proofs.WriteTargets

/-!
# Reads in front of the first write

In an expression without logical operators everything is evaluated once, in an order that the text
tells. A read is premature when its name is bound although no write to the variable is completed at
that point. This comes from element writes: their base and what their value writes are bound before
the keys are compiled, but the keys are evaluated first.

## Main definitions

- `Expr.Straight`: an expression without logical operators
- `Expr.premature`, `Expr.prematureAsPlace`: the names of premature reads of an expression, and of
  those in the keys of a place
- `Trace.Supplied`: every bound read of a trace has a write in front of it or is premature, and
  when the evaluation succeeds then all names are written

## Main statements

- `Trace.Supplied.append`: what is evaluated behind a part that succeeds
-/

namespace ExprCore

/-- The tokens of the operators that may leave their right operand out. -/
def InfixToken.isLogical : InfixToken → Bool
  | boolAnd | boolOr | wordAnd | wordOr => true
  | _ => false

/-- No logical operator stands anywhere in the expression. -/
inductive Expr.Straight : Expr → Prop where
  | mk {span form} (hop : ∀ op left right, form = .binary op left right → op.isLogical = false)
      (hparts : ∀ part ∈ form.parts, Straight part) : Straight (.mk span form)

namespace Expr.Straight

variable {span : Span} {form : Form Expr (List Expr) (List (Element Expr))}

theorem part (h : Straight (.mk span form)) {part : Expr} (hpart : part ∈ form.parts) :
    part.Straight := by
  cases h with
  | mk hop hparts => exact hparts part hpart

theorem var (name : Name) : Straight (.mk span (.var name)) :=
  .mk (by simp) (by simp [Form.parts])

/-- The right operand of a binary operator is evaluated whatever the left one yields. -/
theorem shortcut?_eq_none {token : InfixToken} {left right : Expr} {op : BinaryOp}
    (h : Straight (.mk span (.binary token left right))) (hop : token.meaning? = some op)
    (v : Value) : op.shortcut? v = none := by
  cases h with
  | mk hlogical hparts =>
    have htoken := hlogical token left right rfl
    cases token <;> cases hop <;> first | rfl | cases htoken

end Expr.Straight

/-- So it is in a compound assignment. -/
theorem AssignToken.shortcut?_eq_none {token : AssignToken} {op : BinaryOp}
    (h : token.effect? = some (.compound op)) (v : Value) : op.shortcut? v = none := by
  cases token <;> cases h <;> rfl

/-- The premature reads in what an assignment stores, from those in its target and its value. -/
def AssignEffect.premature (target value : List Name) : AssignEffect → List Name
  | .plain => value
  | .compound _ => target ++ value

mutual

/-- The names of premature reads of an expression, where the names in `sight` are bound and those in
`done` are written. -/
def Expr.premature (names : NameTable) (sight done : Sight) : Expr → List Name
  | .mk _ (.var name) => if sight name && !done name then [name] else []
  | .mk _ (.binary _ left right) =>
    left.premature names sight done
      ++ right.premature names (sight.adding left.written) (done.adding left.written)
  | .mk _ (.unary _ operand) => operand.premature names sight done
  | .mk _ (.assign token target value) =>
    match token.effect? with
    | none => []
    | some effect =>
      -- the keys are bound behind what is stored, and evaluated in front of it
      let first := effect.writtenFirst target.written
      let behind := done.adding target.writtenByKeys
      let stored := effect.written target.written value.written
      target.prematureAsPlace names (sight.adding stored) done
        ++ effect.premature (target.premature names sight behind)
          (value.premature names (sight.adding first) (behind.adding first))
  | .mk _ (.array entries) => prematureInEntries names sight done entries
  | .mk _ (.access _ target (some index)) =>
    target.premature names sight done
      ++ index.premature names (sight.adding target.written) (done.adding target.written)
  | .mk _ (.call name arguments) =>
    if equalIgnoringCase (names.text name) "unset" then []
    else prematureInAll names sight done arguments
  | .mk _ (.paren inner) => inner.premature names sight done
  | _ => []

/-- The names of premature reads in the keys of a place. The place binds its variable first and
writes it last. -/
def Expr.prematureAsPlace (names : NameTable) (sight done : Sight) : Expr → List Name
  | .mk _ (.access _ target none) => target.prematureAsPlace names sight done
  | .mk _ (.access _ target (some index)) =>
    target.prematureAsPlace names sight done
      ++ index.premature names (sight.adding target.writtenAsPlace)
        (done.adding target.writtenByKeys)
  | .mk _ (.paren inner) => inner.prematureAsPlace names sight done
  | _ => []

def prematureInAll (names : NameTable) (sight done : Sight) : List Expr → List Name
  | [] => []
  | e :: es =>
    e.premature names sight done
      ++ prematureInAll names (sight.adding e.written) (done.adding e.written) es

def prematureInEntries (names : NameTable) (sight done : Sight) : List (Element Expr) → List Name
  | [] => []
  | ⟨_, value⟩ :: entries =>
    value.premature names sight done
      ++ prematureInEntries names (sight.adding value.written) (done.adding value.written) entries

end

theorem prematureInEntries_eq (names : NameTable) (sight done : Sight)
    (entries : List (Element Expr)) :
    prematureInEntries names sight done entries
      = prematureInAll names sight done (entries.map Element.value) := by
  induction entries generalizing sight done with
  | nil => rfl
  | cons entry entries ih => rw [prematureInEntries, List.map_cons, prematureInAll, ih]

/-- The trace contains a write to the variable of the name. -/
def Trace.WritesTo (scope : Scope) (t : Trace) (name : Name) : Prop :=
  ∃ slot v, scope.find? name = some slot ∧ .wrote slot v ∈ t

theorem Trace.WritesTo.mono {scope : Scope} {t u : Trace} {name : Name}
    (h : t.WritesTo scope name) (hsub : t ⊆ u) : u.WritesTo scope name := by
  obtain ⟨slot, v, hslot, hmem⟩ := h
  exact ⟨slot, v, hslot, hsub hmem⟩

/-- An event of two traces one after the other is one of the first trace or one of the second. -/
theorem Trace.split_of_append {t u before after : Trace} {event : Event}
    (h : t ++ u = before ++ event :: after) :
    (∃ rest, t = before ++ event :: rest)
      ∨ ∃ front, before = t ++ front ∧ u = front ++ event :: after := by
  obtain ⟨front, rfl, hfront⟩ | ⟨back, rfl, hback⟩ := List.append_eq_append_iff.1 h
  · exact .inr ⟨front, rfl, hfront⟩
  · cases back with
    | nil => exact .inr ⟨[], by simp, hback.symm⟩
    | cons first rest =>
      cases hback
      exact .inl ⟨rest, rfl⟩

/-- Every bound read of the trace has a write in front of it, in the trace or before, or it is
premature. When the evaluation succeeds then all the given names are written. -/
structure Trace.Supplied {α : Type} (scope : Scope) (done : Sight) (written premature : List Name)
    (t : Trace) (r : EStateM.Result Stop Machine α) : Prop where
  reads : ∀ (before after : Trace) name slot found,
    t = before ++ .read name (some slot) found :: after →
      done name = true ∨ before.WritesTo scope name ∨ name ∈ premature
  complete : ∀ v m, r = .ok v m → ∀ name ∈ written, t.WritesTo scope name

namespace Trace.Supplied

variable {α β : Type} {scope : Scope} {done : Sight} {written more premature others : List Name}
  {t u : Trace} {r : EStateM.Result Stop Machine α} {q : EStateM.Result Stop Machine β}

theorem mono (h : Supplied scope done written premature t r) (hwritten : more ⊆ written)
    (hpremature : premature ⊆ others) : Supplied scope done more others t r := by
  refine ⟨fun before after name slot found ht => ?_, fun v m hr name hname => ?_⟩
  · obtain hdone | hwrites | hmem := h.reads before after name slot found ht
    · exact .inl hdone
    · exact .inr (.inl hwrites)
    · exact .inr (.inr (hpremature hmem))
  · exact h.complete v m hr name (hwritten hname)

/-- Nothing is promised of what a step that fails leaves unwritten. -/
theorem of_error {why : Stop} {m : Machine} (h : Supplied scope done written premature t r) :
    Supplied scope done more premature t (.error why m : EStateM.Result Stop Machine β) :=
  ⟨h.reads, nofun⟩

/-- A trace without bound reads. -/
theorem of_no_reads (hreads : ∀ name slot found, .read name (some slot) found ∉ t)
    (hcomplete : ∀ v m, r = .ok v m → ∀ name ∈ written, t.WritesTo scope name) :
    Supplied scope done written premature t r := by
  refine ⟨fun before after name slot found ht => ?_, hcomplete⟩
  exact absurd (ht ▸ List.mem_append_right _ List.mem_cons_self) (hreads name slot found)

/-- What comes behind a part that succeeds finds written what that part writes. -/
theorem append {v : α} {m : Machine}
    (ht : Supplied scope done written premature t (.ok v m : EStateM.Result Stop Machine α))
    (hu : Supplied scope (done.adding written) more others u q) :
    Supplied scope done (written ++ more) (premature ++ others) (t ++ u) q := by
  refine ⟨fun before after name slot found heq => ?_, fun v' m' hq name hname => ?_⟩
  · obtain ⟨rest, hrest⟩ | ⟨front, rfl, hfront⟩ := Trace.split_of_append heq
    · obtain hdone | hwrites | hmem := ht.reads before rest name slot found hrest
      · exact .inl hdone
      · exact .inr (.inl hwrites)
      · exact .inr (.inr (List.mem_append_left _ hmem))
    · obtain hdone | hwrites | hmem := hu.reads front after name slot found hfront
      · rw [Sight.adding, Bool.or_eq_true, List.contains_iff_mem] at hdone
        obtain hdone | hmem := hdone
        · exact .inl hdone
        · exact .inr (.inl ((ht.complete v m rfl name hmem).mono (List.subset_append_left _ _)))
      · exact .inr (.inl (hwrites.mono (List.subset_append_right _ _)))
      · exact .inr (.inr (List.mem_append_right _ hmem))
  · obtain hname | hname := List.mem_append.1 hname
    · exact (ht.complete v m rfl name hname).mono (List.subset_append_left _ _)
    · exact (hu.complete v' m' hq name hname).mono (List.subset_append_right _ _)

end Trace.Supplied

theorem Trace.Supplied.located {scope : Scope} {done : Sight} {written premature : List Name}
    {t : Trace} {x : Eval Value} {m : Machine} (h : Supplied scope done written premature t (x m))
    (span : Span) : Supplied scope done written premature t (Eval.located span x m) := by
  unfold Eval.located
  cases hx : x m with
  | ok v m' =>
    rw [hx] at h
    exact h
  | error why m' => exact h.of_error

end ExprCore
