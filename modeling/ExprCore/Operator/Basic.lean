/-!
# Executable operators

The operators that evaluation knows.

## Main definitions

- `BinaryOp`, `UnaryOp`: operators on values
- `BinaryOp.isShortCircuit`: whether the right operand may be left out
- `Fixity`: on which side of the variable an increment or decrement stands
-/

namespace ExprCore

/-- Operators on two values. -/
inductive BinaryOp where
  | add | sub | mul | div
  | eq | ne | lt | le | gt | ge
  | and | or
  | shl | shr
deriving DecidableEq, Repr

namespace BinaryOp

/-- How an operator is spelled. -/
def symbol : BinaryOp → String
  | add => "+"
  | sub => "-"
  | mul => "*"
  | div => "/"
  | eq => "=="
  | ne => "!="
  | lt => "<"
  | le => "<="
  | gt => ">"
  | ge => ">="
  | and => "&&"
  | or => "||"
  | shl => "<<"
  | shr => ">>"

/-- How an operator is named in messages about nodes. -/
def describe : BinaryOp → String
  | add => "Add"
  | sub => "Sub"
  | mul => "Mul"
  | div => "Div"
  | eq => "Eq"
  | ne => "NotEq"
  | lt => "Lt"
  | le => "LtEq"
  | gt => "Gt"
  | ge => "GtEq"
  | and => "And"
  | or => "Or"
  | shl => "Shl"
  | shr => "Shr"

def all : List BinaryOp := [add, sub, mul, div, eq, ne, lt, le, gt, ge, and, or, shl, shr]

/-- Whether the left operand alone may decide the result. -/
def isShortCircuit : BinaryOp → Bool
  | and | or => true
  | _ => false

end BinaryOp

/-- Operators on one value. -/
inductive UnaryOp where
  /-- The number with its sign changed. -/
  | neg
  | plus
deriving DecidableEq, Repr

namespace UnaryOp

/-- How an operator is spelled. -/
def symbol : UnaryOp → String
  | neg => "-"
  | plus => "+"

/-- How an operator is named in messages about nodes. -/
def describe : UnaryOp → String
  | neg => "Neg"
  | plus => "Plus"

def all : List UnaryOp := [neg, plus]

end UnaryOp

/-- On which side of the variable an increment or decrement stands. -/
inductive Fixity where
  /-- In front: the updated value is the result. -/
  | before
  /-- Behind: the value before the update is the result. -/
  | after
deriving DecidableEq, Repr

namespace Fixity

/-- How a side is named in messages about nodes. -/
def describe : Fixity → String
  | before => "Prefix"
  | after => "Postfix"

def all : List Fixity := [before, after]

end Fixity

end ExprCore
