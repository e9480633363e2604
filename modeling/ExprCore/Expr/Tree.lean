import ExprCore.Expr.Form
import ExprCore.Span

/-!
# Expression trees

Expressions as trees: a construct, its span, and the expressions that it is made of.

## Main definitions

- `Expr`: the trees
- `Expr.placeholder`: the tree that stands where there is no expression
-/

namespace ExprCore

/-- An expression with its span. -/
inductive Expr where
  | mk (span : Span) (form : Form Expr (List Expr) (List (Element Expr)))

namespace Expr

/-- Where the expression stands in the source. -/
def span : Expr → Span
  | mk span _ => span

/-- The construct on top of the tree. -/
def form : Expr → Form Expr (List Expr) (List (Element Expr))
  | mk _ form => form

def construct (e : Expr) : String := e.form.construct

/-- What stands where there is no expression. -/
def placeholder : Expr := mk .dummy .error

instance : Inhabited Expr := ⟨placeholder⟩

end Expr

end ExprCore
