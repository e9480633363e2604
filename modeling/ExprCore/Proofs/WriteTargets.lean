import ExprCore.Proofs.Supported
import ExprCore.Proofs.WrittenNames

/-!
# Write targets

The variables that an expression may write are those that stand as a target somewhere in it: as the
variable of an assignment, as a variable that is stepped, or as the base of an element write. In a
supported expression these are the names that compilation brings into sight.

## Main definitions

- `Form.parts`: the expressions that a construct is made of
- `Expr.base?`: the variable that a target leads to
- `Expr.HasTarget`: a variable stands as a target somewhere in an expression

## Main statements

- `Supported.mem_written_iff`: the names that a supported expression writes are its targets
-/

namespace ExprCore

/-- The expressions that a construct is made of. -/
def Form.parts : Form Expr (List Expr) (List (Element Expr)) → List Expr
  | scalar .. | var _ | closure | error => []
  | binary _ left right => [left, right]
  | assign _ target value => [target, value]
  | dynamicVar e | unary _ e | step _ _ e | paren e | cast _ e | instanceOf e _ => [e]
  | array entries => entries.flatMap fun entry => entry.key.toList ++ [entry.value]
  | access _ target index => target :: index.toList
  | call _ arguments | new _ arguments | quote arguments => arguments
  | dynamicCall callee arguments => callee :: arguments
  | conditional condition whenTrue whenFalse => [condition, whenTrue, whenFalse]

/-- Entries without keys are made of their values. -/
theorem Form.parts_array {entries : List (Element Expr)} (h : ∀ entry ∈ entries, entry.key = none) :
    (array entries).parts = entries.map Element.value := by
  rw [parts, List.map_eq_flatMap, List.flatMap_def, List.flatMap_def]
  congr 1
  exact List.map_congr_left fun entry hentry => by simp [h entry hentry]

/-- The variable that a target leads to. -/
def Expr.base? : Expr → Option Name
  | .mk _ (.var name) => some name
  | .mk _ (.access _ target _) => target.base?
  | .mk _ (.paren inner) => inner.base?
  | _ => none

/-- The variable that a construct writes itself. -/
def Form.target? : Form Expr (List Expr) (List (Element Expr)) → Option Name
  | assign _ target _ => target.base?
  | step _ _ operand => operand.varName?
  | _ => none

/-- The variable is assigned or stepped somewhere in the expression, or one of its elements is
written there. -/
inductive Expr.HasTarget (name : Name) : Expr → Prop where
  | here {span form} (h : form.target? = some name) : HasTarget name (.mk span form)
  | inside {span form part} (hpart : part ∈ form.parts) (h : HasTarget name part) :
      HasTarget name (.mk span form)

variable {name : Name}

theorem Expr.hasTarget_iff {span : Span} {form : Form Expr (List Expr) (List (Element Expr))} :
    HasTarget name (.mk span form)
      ↔ form.target? = some name ∨ ∃ part ∈ form.parts, part.HasTarget name := by
  constructor
  · intro h
    cases h with
    | here h => exact .inl h
    | inside hpart h => exact .inr ⟨_, hpart, h⟩
  · rintro (h | ⟨part, hpart, h⟩)
    · exact .here h
    · exact .inside hpart h

theorem mem_writtenInAll {es : List Expr} :
    name ∈ writtenInAll es ↔ ∃ e ∈ es, name ∈ e.written := by
  induction es with
  | nil => simp [writtenInAll]
  | cons e es ih => simp [writtenInAll, ih]

/-- What an expression writes in a role are its targets. A container writes its variable, too. -/
def Role.WritesTargets (name : Name) (e : Expr) : Role → Prop
  | .value => name ∈ e.written ↔ e.HasTarget name
  | .place =>
    (name ∈ e.writtenAsPlace ↔ e.base? = some name ∨ e.HasTarget name)
      ∧ (name ∈ e.written ↔ e.HasTarget name)

theorem Expr.not_hasTarget_of_varName? {e : Expr} (h : e.varName?.isSome = true) :
    ¬ e.HasTarget name := by
  obtain ⟨span, form⟩ := e
  cases form with
  | var => simp [hasTarget_iff, Form.target?, Form.parts]
  | _ => cases h

theorem Supported.writesTargets {names : NameTable} {role : Role} {e : Expr}
    (h : Supported names role e) : role.WritesTargets name e := by
  induction h with
  | scalar | var | placeVar =>
    simp [Role.WritesTargets, Expr.written, Expr.writtenAsPlace, Expr.base?, Expr.hasTarget_iff,
      Form.target?, Form.parts, eq_comm]
  | binary _ _ _ ihl ihr | index _ _ ihl ihr =>
    simp only [Role.WritesTargets] at ihl ihr
    simp [Role.WritesTargets, Expr.written, Expr.hasTarget_iff, Form.target?, Form.parts, ihl, ihr]
  | unary _ _ ih | paren _ ih =>
    simp only [Role.WritesTargets] at ih
    simp [Role.WritesTargets, Expr.written, Expr.hasTarget_iff, Form.target?, Form.parts, ih]
  | step =>
    simp [Role.WritesTargets, Expr.written, Expr.hasTarget_iff, Form.target?, Form.parts,
      Expr.varName?, Expr.form, eq_comm]
  | @assign span targetSpan token effect other value heffect _ ihv =>
    simp only [Role.WritesTargets] at ihv
    cases effect <;> simp [Role.WritesTargets, Expr.written, Expr.writtenAsPlace,
      AssignEffect.written, Expr.base?, Expr.hasTarget_iff, Form.target?, Form.parts, heffect, ihv,
      eq_comm, or_comm]
  | append heffect _ _ ihv ihp =>
    simp only [Role.WritesTargets] at ihv ihp
    simp [Role.WritesTargets, Expr.written, Expr.writtenAsPlace, AssignEffect.written, Expr.base?,
      Expr.hasTarget_iff, Form.target?, Form.parts, heffect, ihv, ihp.1]
    grind
  | @storeElement _ _ _ effect _ _ _ heffect _ _ _ ihv ihp ihk =>
    simp only [Role.WritesTargets] at ihv ihp ihk
    -- a compound assignment reads its target first, which writes nothing that the keys do not
    cases effect <;>
    · simp [Role.WritesTargets, Expr.written, Expr.writtenAsPlace, AssignEffect.written,
        Expr.base?, Expr.hasTarget_iff, Form.target?, Form.parts, heffect, ihv, ihp.1, ihp.2, ihk]
      grind
  | @list span entries hkeys _ ihes =>
    rw [Role.WritesTargets, Expr.written, writtenInEntries_eq, mem_writtenInAll,
      Expr.hasTarget_iff, Form.parts_array hkeys]
    simp only [Form.target?, reduceCtorEq, false_or]
    exact exists_congr fun e => and_congr_right fun he => ihes e he
  | unset _ harguments =>
    rw [Role.WritesTargets, Expr.written, writtenInAll_of_varName? harguments]
    refine iff_of_false List.not_mem_nil fun h => ?_
    obtain h | ⟨part, hpart, h⟩ := Expr.hasTarget_iff.1 h
    · cases h
    · exact Expr.not_hasTarget_of_varName? (harguments part hpart) h
  | call _ _ ihes =>
    rw [Role.WritesTargets, Expr.written, mem_writtenInAll, Expr.hasTarget_iff]
    simp only [Form.target?, reduceCtorEq, false_or]
    exact exists_congr fun e => and_congr_right fun he => ihes e he
  | placeIndex _ _ iht ihk =>
    simp only [Role.WritesTargets] at iht ihk
    simp [Role.WritesTargets, Expr.written, Expr.writtenAsPlace, Expr.base?, Expr.hasTarget_iff,
      Form.target?, Form.parts, iht.1, iht.2, ihk, or_assoc]
  | placeParen _ ih =>
    simp only [Role.WritesTargets] at ih
    simp [Role.WritesTargets, Expr.written, Expr.writtenAsPlace, Expr.base?, Expr.hasTarget_iff,
      Form.target?, Form.parts, ih.1, ih.2]

/-- The names that a supported expression writes are its targets. -/
theorem Supported.mem_written_iff {names : NameTable} {e : Expr} (h : Supported names .value e) :
    name ∈ e.written ↔ e.HasTarget name :=
  h.writesTargets

end ExprCore
