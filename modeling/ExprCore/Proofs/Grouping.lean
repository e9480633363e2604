import ExprCore.Compilation
import ExprCore.Proofs.Unfolding

/-!
# Grouping and sharing

Parentheses leave no trace in code. They only matter where something is asked of the very expression
that stands there: whether it is a target that can be assigned, stepped or cleared, and where the
key of an array element stands. Apart from these places, expressions that differ in parentheses are
compiled to the same code, however they are stored.

## Main definitions

- `Expr.ungroup`: an expression without its parentheses

## Main statements

- `lower_ungroup`, `lowerPlace_ungroup`: compilation does not see parentheses
- `compile_depends_on_denoted_tree`: references that stand for trees that differ in parentheses are
  compiled alike
-/

namespace ExprCore

mutual

/-- The expression without its parentheses. They are kept around a target of an assignment, a
variable that is stepped or cleared, and the key of an array element. Where an expression stands in
such a place (`direct`), the outermost parentheses stay. -/
def Expr.ungroup (names : NameTable) (direct : Bool) : Expr → Expr
  | .mk span (.paren inner) =>
    if direct then .mk span (.paren (inner.ungroup names false)) else inner.ungroup names false
  | .mk span (.scalar kind text) => .mk span (.scalar kind text)
  | .mk span (.var name) => .mk span (.var name)
  | .mk span (.dynamicVar name) => .mk span (.dynamicVar (name.ungroup names false))
  | .mk span (.binary token left right) =>
    .mk span (.binary token (left.ungroup names false) (right.ungroup names false))
  | .mk span (.unary token operand) => .mk span (.unary token (operand.ungroup names false))
  | .mk span (.step fixity token operand) =>
    .mk span (.step fixity token (operand.ungroup names true))
  | .mk span (.assign token target value) =>
    .mk span (.assign token (target.ungroup names true) (value.ungroup names false))
  | .mk span (.array entries) => .mk span (.array (ungroupEntries names entries))
  | .mk span (.access kind target none) =>
    .mk span (.access kind (target.ungroup names false) none)
  | .mk span (.access kind target (some index)) =>
    .mk span (.access kind (target.ungroup names false) (some (index.ungroup names false)))
  | .mk span (.call name arguments) =>
    .mk span (.call name
      (ungroupAll names (equalIgnoringCase (names.text name) "unset") arguments))
  | .mk span (.dynamicCall callee arguments) =>
    .mk span (.dynamicCall (callee.ungroup names false) (ungroupAll names false arguments))
  | .mk span (.conditional condition whenTrue whenFalse) =>
    .mk span (.conditional (condition.ungroup names false) (whenTrue.ungroup names false)
      (whenFalse.ungroup names false))
  | .mk span (.cast type operand) => .mk span (.cast type (operand.ungroup names false))
  | .mk span (.instanceOf operand className) =>
    .mk span (.instanceOf (operand.ungroup names false) className)
  | .mk span .closure => .mk span .closure
  | .mk span (.new className arguments) =>
    .mk span (.new className (ungroupAll names false arguments))
  | .mk span (.quote parts) => .mk span (.quote (ungroupAll names false parts))
  | .mk span .error => .mk span .error

def ungroupAll (names : NameTable) (direct : Bool) : List Expr → List Expr
  | [] => []
  | e :: es => e.ungroup names direct :: ungroupAll names direct es

def ungroupEntries (names : NameTable) : List (Element Expr) → List (Element Expr)
  | [] => []
  | ⟨none, value⟩ :: entries => ⟨none, value.ungroup names false⟩ :: ungroupEntries names entries
  | ⟨some key, value⟩ :: entries =>
    ⟨some (key.ungroup names true), value.ungroup names false⟩ :: ungroupEntries names entries

end

theorem ungroupAll_eq_map (names : NameTable) (direct : Bool) (es : List Expr) :
    ungroupAll names direct es = es.map (Expr.ungroup names direct) := by
  induction es with
  | nil => rfl
  | cons e es ih => rw [ungroupAll, ih, List.map_cons]

namespace Expr

variable (names : NameTable) (e : Expr)

/-- What stands in a place of its own keeps its span. -/
@[simp] theorem span_ungroup : (e.ungroup names true).span = e.span := by
  obtain ⟨span, form⟩ := e
  cases form with
  | access kind target index => cases index <;> rfl
  | _ => rfl

@[simp] theorem construct_ungroup : (e.ungroup names true).construct = e.construct := by
  obtain ⟨span, form⟩ := e
  cases form with
  | access kind target index => cases index <;> rfl
  | step fixity => cases fixity <;> rfl
  | _ => rfl

@[simp] theorem varName?_ungroup : (e.ungroup names true).varName? = e.varName? := by
  obtain ⟨span, form⟩ := e
  cases form with
  | access kind target index => cases index <;> rfl
  | _ => rfl

end Expr

theorem lowerStep_ungroup (names : NameTable) (fixity : Fixity) (token : StepToken) (operand : Expr)
    (span : Span) :
    lowerStep fixity token (operand.ungroup names true) span
      = lowerStep fixity token operand span := by
  simp only [lowerStep, Expr.varName?_ungroup, Expr.construct_ungroup, Expr.span_ungroup]

theorem lowerUnset_ungroup (names : NameTable) (arguments : List Expr) (span : Span) :
    lowerUnset (ungroupAll names true arguments) span = lowerUnset arguments span := by
  have hfind : (ungroupAll names true arguments).find? (·.varName?.isNone)
      = (arguments.find? (·.varName?.isNone)).map (Expr.ungroup names true) := by
    rw [ungroupAll_eq_map, List.find?_map]
    simp only [Function.comp_def, Expr.varName?_ungroup]
  have hnames : (ungroupAll names true arguments).filterMap Expr.varName?
      = arguments.filterMap Expr.varName? := by
    rw [ungroupAll_eq_map, List.filterMap_map]
    simp only [Function.comp_def, Expr.varName?_ungroup]
  simp only [lowerUnset, hfind, hnames]
  cases arguments.find? (·.varName?.isNone) with
  | none => rfl
  | some argument =>
    simp only [Option.map_some, Expr.construct_ungroup, Expr.span_ungroup]

mutual

/-- Compilation of an expression does not see parentheses. -/
theorem lower_ungroup (names : NameTable) (direct : Bool) :
    ∀ e : Expr, lower names (e.ungroup names direct) = lower names e
  | .mk span (.paren inner) => by
    have hinner := lower_ungroup names false inner
    cases direct with
    | true => simp only [Expr.ungroup, if_true, lower, hinner]
    | false => simp only [Expr.ungroup, Bool.false_eq_true, if_false, lower, hinner]
  | .mk span (.binary token left right) => by
    simp only [Expr.ungroup, lower, lower_ungroup names false left, lower_ungroup names false right]
  | .mk span (.unary token operand) => by
    simp only [Expr.ungroup, lower, lower_ungroup names false operand]
  | .mk span (.step fixity token operand) => by
    simp only [Expr.ungroup, lower, lowerStep_ungroup]
  | .mk span (.assign token target value) => by
    simp only [Expr.ungroup, lower, lower_ungroup names true target,
      lower_ungroup names false value, lowerWrite_ungroup names]
  | .mk span (.array entries) => by
    simp only [Expr.ungroup, lower, lowerEntries_ungroup names]
  | .mk span (.access .indexed target (some index)) => by
    simp only [Expr.ungroup, lower, lower_ungroup names false target,
      lower_ungroup names false index]
  | .mk span (.call name arguments) => by
    cases hname : equalIgnoringCase (names.text name) "unset" with
    | true => simp only [Expr.ungroup, lower, hname, if_true, lowerUnset_ungroup]
    | false =>
      simp only [Expr.ungroup, lower, hname, Bool.false_eq_true, if_false,
        lowerAll_ungroup names [] arguments]
  | .mk _ (.access .indexed _ none)
  | .mk _ (.access .hashtable _ none)
  | .mk _ (.access .hashtable _ (some _))
  | .mk _ (.scalar _ _)
  | .mk _ (.var _)
  | .mk _ (.dynamicVar _)
  | .mk _ (.dynamicCall _ _)
  | .mk _ (.conditional _ _ _)
  | .mk _ (.cast _ _)
  | .mk _ (.instanceOf _ _)
  | .mk _ .closure
  | .mk _ (.new _ _)
  | .mk _ (.quote _)
  | .mk _ .error => rfl

/-- Neither does compilation of a target, but that what stands there is looked at. -/
theorem lowerWrite_ungroup (names : NameTable) (stored : Lower NodeId) (span : Span) :
    ∀ target : Expr,
      lowerWrite names stored span (target.ungroup names true) = lowerWrite names stored span target
  | .mk _ (.access .indexed container none) => by
    simp only [Expr.ungroup, lowerWrite, lowerPlace_ungroup names container]
  | .mk _ (.access .indexed container (some index)) => by
    simp only [Expr.ungroup, lowerWrite, lowerPlace_ungroup names container,
      lower_ungroup names false index]
  | .mk _ (.access .hashtable _ none)
  | .mk _ (.access .hashtable _ (some _))
  | .mk _ (.var _)
  | .mk _ (.dynamicVar _)
  | .mk _ (.scalar _ _)
  | .mk _ (.binary _ _ _)
  | .mk _ (.unary _ _)
  | .mk _ (.step .before _ _)
  | .mk _ (.step .after _ _)
  | .mk _ (.assign _ _ _)
  | .mk _ (.array _)
  | .mk _ (.call _ _)
  | .mk _ (.dynamicCall _ _)
  | .mk _ (.paren _)
  | .mk _ (.conditional _ _ _)
  | .mk _ (.cast _ _)
  | .mk _ (.instanceOf _ _)
  | .mk _ .closure
  | .mk _ (.new _ _)
  | .mk _ (.quote _)
  | .mk _ .error => rfl

theorem lowerPlace_ungroup (names : NameTable) :
    ∀ e : Expr, lowerPlace names (e.ungroup names false) = lowerPlace names e
  | .mk span (.access .indexed target (some index)) => by
    simp only [Expr.ungroup, lowerPlace, lowerPlace_ungroup names target,
      lower_ungroup names false index]
  | .mk _ (.paren inner) => by
    simp only [Expr.ungroup, lowerPlace, lowerPlace_ungroup names inner, Bool.false_eq_true,
      if_false]
  | .mk _ (.access .indexed _ none)
  | .mk _ (.access .hashtable _ none)
  | .mk _ (.access .hashtable _ (some _))
  | .mk _ (.var _)
  | .mk _ (.dynamicVar _)
  | .mk _ (.scalar _ _)
  | .mk _ (.binary _ _ _)
  | .mk _ (.unary _ _)
  | .mk _ (.step .before _ _)
  | .mk _ (.step .after _ _)
  | .mk _ (.assign _ _ _)
  | .mk _ (.array _)
  | .mk _ (.call _ _)
  | .mk _ (.dynamicCall _ _)
  | .mk _ (.conditional _ _ _)
  | .mk _ (.cast _ _)
  | .mk _ (.instanceOf _ _)
  | .mk _ .closure
  | .mk _ (.new _ _)
  | .mk _ (.quote _)
  | .mk _ .error => rfl

theorem lowerAll_ungroup (names : NameTable) : ∀ (done : List NodeId) (es : List Expr),
    lowerAll names done (ungroupAll names false es) = lowerAll names done es
  | _, [] => rfl
  | done, e :: es => by
    simp only [ungroupAll, lowerAll, lower_ungroup names false e]
    exact congrArg _ (funext fun id => lowerAll_ungroup names (id :: done) es)

theorem lowerEntries_ungroup (names : NameTable) :
    ∀ (done : List NodeId) (entries : List (Element Expr)),
      lowerEntries names done (ungroupEntries names entries) = lowerEntries names done entries
  | _, [] => rfl
  | _, ⟨some key, _⟩ :: _ => by
    simp only [ungroupEntries, lowerEntries, Expr.span_ungroup]
  | done, ⟨none, value⟩ :: entries => by
    simp only [ungroupEntries, lowerEntries, lower_ungroup names false value]
    exact congrArg _ (funext fun id => lowerEntries_ungroup names (id :: done) entries)

end

/-- References that stand for trees which are equal but for parentheses are compiled alike: to the
same nodes with the same spans, the same lists and the same root, or to the same error, and they
leave the same scope. How the trees are stored makes no difference: which parts are shared, in which
order they are stored, and what else there is in the stores. -/
theorem compile_depends_on_denoted_tree {names : NameTable} {s s' : ExprStore} {id id' : ExprId}
    {e e' : Expr} (he : s.Denotes id e) (he' : s'.Denotes id' e')
    (hsame : e.ungroup names false = e'.ungroup names false) (scope : Scope) :
    compile names scope (some (s.tree id)) = compile names scope (some (s'.tree id')) := by
  have hlower : lower names e = lower names e' := by
    rw [← lower_ungroup names false e, hsame, lower_ungroup]
  rw [he.tree_eq, he'.tree_eq, compile, compile, hlower]

/-- `($x)[$y] = [$y, $y]`, stored bottom up with one `$y`, and `$x[$y] = ([$y, ($y)])`, stored top
down with three of them and something that is not used. -/
theorem compile_depends_on_denoted_tree_shared :
    let bottomUp : ExprStore :=
      { exprs := #[⟨.var ⟨1⟩, ⟨1, 3⟩⟩, ⟨.paren ⟨0⟩, ⟨0, 4⟩⟩, ⟨.var ⟨2⟩, .dummy⟩,
          ⟨.access .indexed ⟨1⟩ (some ⟨2⟩), ⟨0, 8⟩⟩, ⟨.array ⟨0, 2⟩, ⟨11, 19⟩⟩,
          ⟨.assign .equal ⟨3⟩ ⟨4⟩, ⟨0, 19⟩⟩]
        lists := .empty
        elements := ⟨#[⟨none, ⟨2⟩⟩, ⟨none, ⟨2⟩⟩]⟩ }
    let topDown : ExprStore :=
      { exprs := #[⟨.assign .equal ⟨2⟩ ⟨5⟩, ⟨0, 19⟩⟩, ⟨.dynamicVar ⟨9⟩, ⟨40, 50⟩⟩,
          ⟨.access .indexed ⟨3⟩ (some ⟨4⟩), ⟨0, 8⟩⟩, ⟨.var ⟨1⟩, ⟨1, 3⟩⟩, ⟨.var ⟨2⟩, .dummy⟩,
          ⟨.paren ⟨6⟩, ⟨10, 20⟩⟩, ⟨.array ⟨1, 2⟩, ⟨11, 19⟩⟩, ⟨.var ⟨2⟩, .dummy⟩,
          ⟨.paren ⟨9⟩, ⟨15, 19⟩⟩, ⟨.var ⟨2⟩, .dummy⟩]
        lists := .empty
        elements := ⟨#[⟨some ⟨3⟩, ⟨1⟩⟩, ⟨none, ⟨7⟩⟩, ⟨none, ⟨8⟩⟩]⟩ }
    ∃ c scope, compile .new .root (some (bottomUp.tree ⟨5⟩)) = ⟨.ok c, scope⟩
      ∧ compile .new .root (some (topDown.tree ⟨0⟩)) = ⟨.ok c, scope⟩ := by
  intro bottomUp topDown
  have he := ExprStore.denotes_unfold (show bottomUp.endsWithin 4 ⟨5⟩ = true by decide)
  have he' := ExprStore.denotes_unfold (show topDown.endsWithin 5 ⟨0⟩ = true by decide)
  have hsame : (bottomUp.unfold 4 ⟨5⟩).ungroup .new false
      = (topDown.unfold 5 ⟨0⟩).ungroup .new false := rfl
  have halike := compile_depends_on_denoted_tree he he' hsame .root
  obtain ⟨c, scope, hc⟩ : ∃ c scope, compile .new .root (some (bottomUp.tree ⟨5⟩))
      = ⟨.ok c, scope⟩ := by
    rw [he.tree_eq]
    exact ⟨_, _, rfl⟩
  exact ⟨c, scope, hc, halike.symm.trans hc⟩

end ExprCore
