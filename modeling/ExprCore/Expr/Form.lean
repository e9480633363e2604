import ExprCore.Name
import ExprCore.Operator.Basic
import ExprCore.Operator.Token

/-!
# Forms of expressions

One level of an expression: which construct it is, and what it is made of. The parts are left
open, so that the same forms serve trees, whose parts are trees, and stores, whose parts are
references.

## Main definitions

- `Form`: the constructs, over any kind of parts
- `Form.construct`: the name of a construct in messages
- `Form.map`: the same construct with its parts replaced
-/

namespace ExprCore

/-- What kind of literal a scalar is. -/
inductive ScalarKind where
  | int
  | real
  /-- Strings and bare constants such as `true`. -/
  | string
  | other
deriving DecidableEq, Repr

/-- The two notations for access to an element. -/
inductive AccessKind where
  /-- Brackets. -/
  | indexed
  /-- Braces. -/
  | hashtable
deriving DecidableEq, Repr

/-- An entry of an array literal. -/
structure Element (α : Type) where
  /-- The key in front of the entry, if there is one. -/
  key : Option α
  value : α
deriving DecidableEq, Repr

def Element.map {α β : Type} (f : α → β) (e : Element α) : Element β := ⟨e.key.map f, f e.value⟩

/-- The constructs of the language. Parts are of type `α`, argument lists of type `args` and the
entries of array literals of type `elements`. -/
inductive Form (α args elements : Type) where
  | scalar (kind : ScalarKind) (text : Name)
  | var (name : Name)
  | dynamicVar (name : α)
  | binary (op : InfixToken) (left right : α)
  | unary (op : UnaryToken) (operand : α)
  | step (fixity : Fixity) (op : StepToken) (operand : α)
  | assign (op : AssignToken) (target value : α)
  | array (entries : elements)
  /-- Access to an element. Without an index it means the end of the array. -/
  | access (kind : AccessKind) (target : α) (index : Option α)
  | call (name : Name) (arguments : args)
  | dynamicCall (callee : α) (arguments : args)
  | paren (inner : α)
  | conditional (condition whenTrue whenFalse : α)
  | cast (type : Name) (operand : α)
  | instanceOf (operand : α) (className : Name)
  | closure
  | new (className : Name) (arguments : args)
  | quote (parts : args)
  /-- The place of an expression that could not be read. -/
  | error
deriving DecidableEq, Repr

namespace Form

variable {α β args args₂ elements elements₂ : Type}

/-- The name of a construct in messages. -/
def construct : Form α args elements → String
  | scalar .. => "scalar"
  | var _ | dynamicVar _ => "variable"
  | binary .. => "infix expression"
  | unary .. => "unary operation"
  | step .before _ _ => "prefix expression"
  | step .after _ _ => "postfix expression"
  | assign .. => "assignment"
  | array _ => "array creation"
  | access .. => "array access"
  | call .. | dynamicCall .. => "function invocation"
  | paren _ => "parenthesis expression"
  | conditional .. => "conditional expression"
  | cast .. => "cast expression"
  | instanceOf .. => "instanceof expression"
  | closure => "closure"
  | new .. => "class instantiation"
  | quote _ => "interpolated string"
  | error => "syntax error"

/-- The same construct with its parts replaced. -/
def map (f : α → β) (g : args → args₂) (h : elements → elements₂) :
    Form α args elements → Form β args₂ elements₂
  | scalar kind text => .scalar kind text
  | var name => .var name
  | dynamicVar name => .dynamicVar (f name)
  | binary op left right => .binary op (f left) (f right)
  | unary op operand => .unary op (f operand)
  | step fixity op operand => .step fixity op (f operand)
  | assign op target value => .assign op (f target) (f value)
  | array entries => .array (h entries)
  | access kind target index => .access kind (f target) (index.map f)
  | call name arguments => .call name (g arguments)
  | dynamicCall callee arguments => .dynamicCall (f callee) (g arguments)
  | paren inner => .paren (f inner)
  | conditional condition whenTrue whenFalse =>
    .conditional (f condition) (f whenTrue) (f whenFalse)
  | cast type operand => .cast type (f operand)
  | instanceOf operand className => .instanceOf (f operand) className
  | closure => .closure
  | new className arguments => .new className (g arguments)
  | quote parts => .quote (g parts)
  | error => .error

/-- Replacing the parts of a construct keeps its name. -/
@[simp] theorem construct_map (f : α → β) (g : args → args₂) (h : elements → elements₂)
    (form : Form α args elements) : (form.map f g h).construct = form.construct := by
  cases form with
  | step fixity _ _ => cases fixity <;> rfl
  | _ => rfl

end Form

end ExprCore
