import ExprCore.Operator.Basic
import ExprCore.Operator.Token

/-!
# What operator tokens mean

The executable operator behind each token. Tokens without one belong to the language but are not
supported.

## Main definitions

- `InfixToken.meaning?`, `UnaryToken.meaning?`: the operator that a token stands for
- `AssignEffect`: whether an assignment replaces its target or combines with it
- `AssignToken.effect?`: the effect of an assignment token
- `AssignToken.infixToken?`: the infix token that a compound assignment contains

## Main statements

- `AssignToken.effect?_eq_compound_iff`: a compound assignment combines with the operator that its
  infix token stands for
-/

namespace ExprCore

/-- The operator of an infix token. The words `and` and `or` mean the same as `&&` and `||`. -/
def InfixToken.meaning? : InfixToken → Option BinaryOp
  | plus => some .add
  | minus => some .sub
  | times => some .mul
  | divide => some .div
  | isEqual => some .eq
  | isNotEqual => some .ne
  | less => some .lt
  | greater => some .gt
  | lessOrEqual => some .le
  | greaterOrEqual => some .ge
  | boolAnd | wordAnd => some .and
  | boolOr | wordOr => some .or
  | shiftLeft => some .shl
  | shiftRight => some .shr
  | modulo | power | concat | isIdentical | isNotIdentical | spaceship | boolXor
  | bitAnd | bitOr | bitXor | coalesce => none

/-- The operator of a unary token. -/
def UnaryToken.meaning? : UnaryToken → Option UnaryOp
  | minus => some .neg
  | plus => some .plus
  | not | tilde => none

/-- What an assignment does with the old content of its target. -/
inductive AssignEffect where
  /-- The value replaces the old content. -/
  | plain
  /-- The old content is the left operand of the operator, the value the right one. -/
  | compound (op : BinaryOp)
deriving DecidableEq, Repr

/-- The effect of an assignment token. -/
def AssignToken.effect? : AssignToken → Option AssignEffect
  | equal => some .plain
  | plus => some (.compound .add)
  | minus => some (.compound .sub)
  | times => some (.compound .mul)
  | divide => some (.compound .div)
  | shiftLeft => some (.compound .shl)
  | shiftRight => some (.compound .shr)
  | reference | modulo | power | concat | bitAnd | bitOr | bitXor | coalesce => none

/-- The infix token that is written in front of the equals sign of a compound assignment. -/
def AssignToken.infixToken? : AssignToken → Option InfixToken
  | equal | reference => none
  | plus => some .plus
  | minus => some .minus
  | times => some .times
  | divide => some .divide
  | modulo => some .modulo
  | power => some .power
  | concat => some .concat
  | bitAnd => some .bitAnd
  | bitOr => some .bitOr
  | bitXor => some .bitXor
  | shiftLeft => some .shiftLeft
  | shiftRight => some .shiftRight
  | coalesce => some .coalesce

/-- A compound assignment combines with the operator that its infix token stands for. -/
theorem AssignToken.effect?_eq_compound_iff {token : AssignToken} {op : BinaryOp} :
    token.effect? = some (.compound op) ↔ token.infixToken?.bind InfixToken.meaning? = some op := by
  cases token <;> simp [effect?, infixToken?, InfixToken.meaning?]

/-- A compound assignment is spelled as its infix token with an equals sign behind. -/
theorem AssignToken.symbol_of_infixToken? {token : AssignToken} {i : InfixToken}
    (h : token.infixToken? = some i) : token.symbol = i.symbol ++ "=" := by
  cases token <;> cases h <;> rfl

end ExprCore
