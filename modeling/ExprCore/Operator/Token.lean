/-!
# Operator tokens

The operators as they stand in the source text. This is the whole vocabulary of the language;
which of them can be executed is decided in `ExprCore.Operator.Meaning`.

## Main definitions

- `InfixToken`, `AssignToken`, `UnaryToken`, `StepToken`: the operators by the place they stand in
- `symbol` in each of their namespaces: how the operator is spelled
- `StepToken.delta`: what an increment or decrement adds
-/

namespace ExprCore

/-- Operators between two operands. -/
inductive InfixToken where
  | plus | minus | times | divide | modulo | power | concat
  | isEqual | isNotEqual | isIdentical | isNotIdentical
  | less | greater | lessOrEqual | greaterOrEqual | spaceship
  | boolAnd | boolOr | boolXor
  /-- The word `and`, which binds more loosely than `&&`. -/
  | wordAnd
  /-- The word `or`, which binds more loosely than `||`. -/
  | wordOr
  | bitAnd | bitOr | bitXor | shiftLeft | shiftRight
  | coalesce
deriving DecidableEq, Repr

/-- How an infix operator is spelled. -/
def InfixToken.symbol : InfixToken → String
  | plus => "+"
  | minus => "-"
  | times => "*"
  | divide => "/"
  | modulo => "%"
  | power => "**"
  | concat => "."
  | isEqual => "=="
  | isNotEqual => "!="
  | isIdentical => "==="
  | isNotIdentical => "!=="
  | less => "<"
  | greater => ">"
  | lessOrEqual => "<="
  | greaterOrEqual => ">="
  | spaceship => "<=>"
  | boolAnd => "&&"
  | boolOr => "||"
  | boolXor => "xor"
  | wordAnd => "and"
  | wordOr => "or"
  | bitAnd => "&"
  | bitOr => "|"
  | bitXor => "^"
  | shiftLeft => "<<"
  | shiftRight => ">>"
  | coalesce => "??"

/-- Assignment operators, plain and compound. -/
inductive AssignToken where
  | equal
  /-- Assignment of a reference, `=&`. -/
  | reference
  | plus | minus | times | divide | modulo | power | concat
  | bitAnd | bitOr | bitXor | shiftLeft | shiftRight
  | coalesce
deriving DecidableEq, Repr

/-- How an assignment operator is spelled. -/
def AssignToken.symbol : AssignToken → String
  | equal => "="
  | reference => "=&"
  | plus => "+="
  | minus => "-="
  | times => "*="
  | divide => "/="
  | modulo => "%="
  | power => "**="
  | concat => ".="
  | bitAnd => "&="
  | bitOr => "|="
  | bitXor => "^="
  | shiftLeft => "<<="
  | shiftRight => ">>="
  | coalesce => "??="

/-- Operators in front of one operand. -/
inductive UnaryToken where
  | plus | minus | not | tilde
deriving DecidableEq, Repr

/-- How a unary operator is spelled. -/
def UnaryToken.symbol : UnaryToken → String
  | plus => "+"
  | minus => "-"
  | not => "!"
  | tilde => "~"

/-- Increment and decrement, in front of a variable or behind it. -/
inductive StepToken where
  | increment | decrement
deriving DecidableEq, Repr

/-- How an increment or decrement is spelled. -/
def StepToken.symbol : StepToken → String
  | increment => "++"
  | decrement => "--"

/-- The amount that is added to the variable. -/
def StepToken.delta : StepToken → Int64
  | increment => 1
  | decrement => -1

end ExprCore
