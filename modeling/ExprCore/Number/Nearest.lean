/-!
# Nearest doubles

The double nearest to a positive ratio of two natural numbers. The ratio is measured in units of the
last place that a double of its size has, and the number of units is rounded to a natural number.
The bits of a positive double, read as a natural number, count such units: rounding up from the
greatest significand of one size leads to the least one of the next size, and beyond the greatest
double lies infinity.

## Main definitions

- `nearestQuotient`: the natural number nearest to a ratio
- `binaryOrder`: the power of two at or below a ratio
- `nearestFloat`: the double nearest to a ratio

## Main statements

- `nearestQuotient_near`: the distance to the nearest natural number is at most one half
-/

namespace ExprCore

/-- The natural number nearest to `num / den`; of two that are equally near, the even one. -/
def nearestQuotient (num den : Nat) : Nat :=
  let below := num / den
  let rest := 2 * (num % den)
  if den < rest ∨ (rest = den ∧ below % 2 = 1) then below + 1 else below

/-- The distance of a ratio to the nearest natural number is at most one half. -/
theorem nearestQuotient_near (num : Nat) {den : Nat} (h : 0 < den) :
    2 * (nearestQuotient num den * den) ≤ 2 * num + den ∧
      2 * num ≤ 2 * (nearestQuotient num den * den) + den := by
  have hsplit := Nat.div_add_mod num den
  have hrest := Nat.mod_lt num h
  rw [Nat.mul_comm] at hsplit
  unfold nearestQuotient
  dsimp only
  split
  · rw [Nat.add_mul, Nat.one_mul]
    omega
  · omega

/-- The exponent `k` with `2 ^ k ≤ num / den < 2 ^ (k + 1)`, for positive numbers. The leading bits
of the two numbers determine it up to one. -/
def binaryOrder (num den : Nat) : Int :=
  let k : Int := (num.log2 : Int) - den.log2
  if den * Nat.pow 2 k.toNat ≤ num * Nat.pow 2 (-k).toNat then k else k - 1

/-- The bits of positive infinity. -/
def infinityBits : Nat := 0x7FF0000000000000

/-- The double nearest to `num / den`, for positive numbers; of two that are equally near, the one
with the even significand. -/
def nearestFloat (num den : Nat) : Float :=
  let exponent : Int := max (binaryOrder num den - 52) (-1074)
  let units := nearestQuotient (num * Nat.pow 2 (-exponent).toNat)
    (den * Nat.pow 2 exponent.toNat)
  let bits := (exponent + 1074).toNat * Nat.pow 2 52 + units
  Float.ofBits (min bits infinityBits).toUInt64

end ExprCore
