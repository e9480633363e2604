import ExprCore.Number.Nearest

/-!
# Decimals

Numbers of the form `digits · 10 ^ exponent`, and the double nearest to one. Exponents may be of
any size: a decimal far beyond the range of doubles is decided by its order of magnitude alone.

## Main definitions

- `digitCount`: the number of decimal digits of a natural number
- `Decimal`: a natural number of digits with a power of ten
- `Decimal.toFloat`: the double nearest to a decimal

## Main statements

- `ten_pow_lowOrder_le`, `lt_ten_pow_highOrder`: the powers of ten around a natural number
-/

namespace ExprCore

/-- The number of decimal digits of `n`; zero has one. -/
def digitCount (n : Nat) : Nat := (Nat.toDigits 10 n).length

/-- A power of ten that a positive number reaches, read off its number of bits: four bits more than
make a digit. -/
def lowOrder (n : Nat) : Nat := n.log2 / 4

/-- A power of ten that a number stays below, read off its number of bits: three bits less than make
a digit. -/
def highOrder (n : Nat) : Nat := n.log2 / 3 + 1

theorem ten_pow_lowOrder_le {n : Nat} (h : n ≠ 0) : Nat.pow 10 (lowOrder n) ≤ n :=
  calc 10 ^ lowOrder n ≤ 16 ^ lowOrder n := Nat.pow_le_pow_left (by decide) _
    _ = 2 ^ (4 * lowOrder n) := by rw [Nat.pow_mul]
    _ ≤ 2 ^ n.log2 := Nat.pow_le_pow_right (by decide) (Nat.mul_div_le _ _)
    _ ≤ n := Nat.log2_self_le h

theorem lt_ten_pow_highOrder (n : Nat) : n < Nat.pow 10 (highOrder n) :=
  calc n < 2 ^ (n.log2 + 1) := Nat.lt_log2_self
    _ ≤ 2 ^ (3 * highOrder n) :=
      Nat.pow_le_pow_right (by decide) (by unfold highOrder; omega)
    _ = 8 ^ highOrder n := by rw [Nat.pow_mul]
    _ ≤ 10 ^ highOrder n := Nat.pow_le_pow_left (by decide) _

/-- The number `digits · 10 ^ exponent`. -/
structure Decimal where
  /-- The digits, read as one natural number. -/
  digits : Nat
  exponent : Int
deriving DecidableEq, Repr

namespace Decimal

def infinity : Float := Float.ofBits infinityBits.toUInt64

/-- The double nearest to a decimal; of two that are equally near, the even one. A decimal of at
least `10 ^ 310` is infinite as a double, and one below `10 ^ (-330)` is zero. -/
def toFloat (d : Decimal) : Float :=
  if d.digits = 0 then 0
  else if 310 ≤ lowOrder d.digits + d.exponent then infinity
  else if highOrder d.digits + d.exponent ≤ -330 then 0
  else nearestFloat (d.digits * Nat.pow 10 d.exponent.toNat) (Nat.pow 10 (-d.exponent).toNat)

end Decimal

end ExprCore
