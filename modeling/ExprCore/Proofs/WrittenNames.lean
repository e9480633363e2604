import ExprCore.Proofs.Lowered

/-!
# Names in sight

A name is in sight where the scope binds it, and from there on where an expression writes it. The
text is gone through in the order of compilation: operands from left to right, and the value of an
assignment before its target.

## Main definitions

- `Sight`: the names that are bound at a place of the text
- `Expr.written`, `Expr.writtenAsPlace`: the names that an expression, or the container of an
  element that is written, brings into sight

## Main statements

- `Lowered.sight_eq`: compilation binds the names that are written and no other name
-/

namespace ExprCore

/-- The names that are bound at a place of the text. -/
abbrev Sight := Name → Bool

/-- The names in sight behind a text that writes the given names. -/
def Sight.adding (sight : Sight) (names : List Name) : Sight :=
  fun name => sight name || names.contains name

@[simp] theorem Sight.adding_nil (sight : Sight) : sight.adding [] = sight := by
  funext name
  simp [adding]

@[simp] theorem Sight.adding_append (sight : Sight) (names more : List Name) :
    sight.adding (names ++ more) = (sight.adding names).adding more := by
  funext name
  simp [adding, Bool.or_assoc]

def Scope.sight (s : Scope) : Sight := fun name => (s.find? name).isSome

theorem Scope.sight_define (s : Scope) (name : Name) :
    (s.define name).2.sight = s.sight.adding [name] := by
  funext other
  by_cases h : other = name
  · subst h
    simp [sight, Sight.adding]
  · simp [sight, Sight.adding, find?_define_of_ne h, h]

/-- The names written before the value of an assignment is evaluated: a compound assignment reads
its target first. -/
def AssignEffect.writtenFirst (target : List Name) : AssignEffect → List Name
  | .plain => []
  | .compound _ => target

/-- The names written by what an assignment stores, from those of its target and its value. -/
def AssignEffect.written (target value : List Name) : AssignEffect → List Name
  | .plain => value
  | .compound _ => target ++ value

mutual

/-- The names that an expression writes: assigned variables, stepped variables, and variables one
of whose elements is written. -/
def Expr.written : Expr → List Name
  | .mk _ (.binary _ left right) => left.written ++ right.written
  | .mk _ (.unary _ operand) => operand.written
  | .mk _ (.step _ _ operand) => operand.varName?.toList
  | .mk _ (.assign token target value) =>
    (match token.effect? with
      | some effect => effect.written target.written value.written
      | none => []) ++ target.writtenAsPlace
  | .mk _ (.array entries) => writtenInEntries entries
  | .mk _ (.access _ target (some index)) => target.written ++ index.written
  | .mk _ (.call _ arguments) => writtenInAll arguments
  | .mk _ (.paren inner) => inner.written
  | _ => []

/-- The names that a write to an element binds on the way to its last index: the variable, and what
the indices write. -/
def Expr.writtenAsPlace : Expr → List Name
  | .mk _ (.var name) => [name]
  | .mk _ (.access _ target none) => target.writtenAsPlace
  | .mk _ (.access _ target (some index)) => target.writtenAsPlace ++ index.written
  | .mk _ (.paren inner) => inner.writtenAsPlace
  | _ => []

def writtenInAll : List Expr → List Name
  | [] => []
  | e :: es => e.written ++ writtenInAll es

def writtenInEntries : List (Element Expr) → List Name
  | [] => []
  | ⟨_, value⟩ :: entries => value.written ++ writtenInEntries entries

end

theorem writtenInEntries_eq (entries : List (Element Expr)) :
    writtenInEntries entries = writtenInAll (entries.map Element.value) := by
  induction entries with
  | nil => rfl
  | cons entry entries ih => simp [writtenInEntries, writtenInAll, ih]

theorem Expr.written_of_varName? {e : Expr} (h : e.varName?.isSome = true) : e.written = [] := by
  obtain ⟨span, form⟩ := e
  cases form with
  | var => rfl
  | _ => cases h

theorem writtenInAll_of_varName? {es : List Expr}
    (h : ∀ e ∈ es, e.varName?.isSome = true) : writtenInAll es = [] := by
  induction es with
  | nil => rfl
  | cons e es ih =>
    rw [List.forall_mem_cons] at h
    rw [writtenInAll, Expr.written_of_varName? h.1, ih h.2, List.append_nil]

def Piece.written : Piece → List Name
  | .value e _ => e.written
  | .place e _ => e.writtenAsPlace
  | .stored effect target e _ _ => effect.written target.written e.written
  | .values es _ => writtenInAll es

/-- Compilation binds the names that are written and no other name. -/
theorem Lowered.sight_eq {names : NameTable} {piece : Piece} {s t : LowerState}
    (h : Lowered names piece s t) : t.scope.sight = s.scope.sight.adding piece.written := by
  induction h with
  | scalar | var | nil =>
    simp [Piece.written, Expr.written, writtenInAll]
  | binary _ _ _ ihl ihr | index _ _ ihl ihr | storedCompound _ _ ihl ihr
  | placeIndex _ _ ihl ihr | cons _ _ ihl ihr =>
    simp only [Piece.written] at ihl ihr
    simp [Piece.written, Expr.written, Expr.writtenAsPlace, writtenInAll, AssignEffect.written,
      ihl, ihr]
  | unary _ _ ih | paren _ ih | storedPlain _ ih | placeParen _ ih =>
    simpa [Piece.written, Expr.written, Expr.writtenAsPlace, AssignEffect.written] using ih
  | step hname =>
    simp [Piece.written, Expr.written, hname, LowerState.define, Scope.sight_define]
  | assign heffect _ ihv =>
    simp only [Piece.written] at ihv
    simp [Piece.written, Expr.written, Expr.writtenAsPlace, heffect, LowerState.define,
      Scope.sight_define, ihv]
  | append heffect _ _ ihv ihp =>
    simp only [Piece.written] at ihv ihp
    simp [Piece.written, Expr.written, Expr.writtenAsPlace, heffect, ihv, ihp]
  | storeElement heffect _ _ _ ihv ihp ihk =>
    simp only [Piece.written] at ihv ihp ihk
    simp [Piece.written, Expr.written, Expr.writtenAsPlace, heffect, ihv, ihp, ihk]
  | list _ _ ih =>
    simp only [Piece.written] at ih
    simp [Piece.written, Expr.written, writtenInEntries_eq, ih]
  | unset _ harguments _ =>
    simp [Piece.written, Expr.written, writtenInAll_of_varName? harguments]
  | call _ _ ih =>
    simp only [Piece.written] at ih
    simp [Piece.written, Expr.written, ih]
  | placeVar =>
    simp [Piece.written, Expr.writtenAsPlace, LowerState.define, Scope.sight_define]

end ExprCore
