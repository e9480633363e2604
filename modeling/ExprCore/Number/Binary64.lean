/-!
# The parts of a floating-point number

The sign, significand and exponent behind the bits of a double, and the conversions between
doubles and 64-bit integers that build on them.

## Main definitions

- `Binary64`: not a number, an infinity, or `± significand · 2 ^ exponent`
- `Binary64.ofFloat`: the parts of a double
- `integerToFloat`: the double nearest to an integer
- `floatToInteger`: a double cut to an integer, with the nearest integer outside the range
- `integer?`: the 64-bit integer equal to a given one, if it is in range
-/

namespace ExprCore

/-- What a double stands for. -/
inductive Binary64 where
  | nan
  /-- An infinity with its sign. -/
  | infinite (negative : Bool)
  /-- The number `± significand · 2 ^ exponent`. A negative zero keeps its sign. -/
  | finite (negative : Bool) (significand : Nat) (exponent : Int)
deriving DecidableEq, Repr

namespace Binary64

/-- The parts behind the 64 bits of a double: one bit of sign, eleven of exponent, the rest of
significand. The least exponent marks numbers without the leading one bit. -/
def ofBits (bits : Nat) : Binary64 :=
  let negative := decide (Nat.pow 2 63 ≤ bits)
  let exponent : Nat := bits / Nat.pow 2 52 % Nat.pow 2 11
  let fraction : Nat := bits % Nat.pow 2 52
  if exponent = 2047 then
    if fraction = 0 then .infinite negative else .nan
  else if exponent = 0 then .finite negative fraction (-1074)
  else .finite negative (Nat.pow 2 52 + fraction) ((exponent : Int) - 1075)

def ofFloat (x : Float) : Binary64 := ofBits x.toBits.toNat

/-- The magnitude of `significand · 2 ^ exponent` without its fractional part. -/
def magnitude (significand : Nat) (exponent : Int) : Nat :=
  significand * Nat.pow 2 exponent.toNat / Nat.pow 2 (-exponent).toNat

end Binary64

/-- The least 64-bit integer. -/
def minInteger : Int := -9223372036854775808

def maxInteger : Int := 9223372036854775807

/-- The 64-bit integer equal to `n`, if there is one. -/
def integer? (n : Int) : Option Int64 :=
  if minInteger ≤ n ∧ n ≤ maxInteger then some (Int64.ofInt n) else none

def clampInteger (n : Int) : Int64 := Int64.ofInt (max minInteger (min n maxInteger))

/-- The double nearest to an integer; of two that are equally near, the even one. -/
def integerToFloat (n : Int64) : Float :=
  let magnitude := n.toInt.natAbs.toUInt64.toFloat
  if n < 0 then -magnitude else magnitude

/-- A double cut toward zero. Beyond the range of integers the nearest integer is taken, and what
is no number becomes zero. -/
def floatToInteger (x : Float) : Int64 :=
  match Binary64.ofFloat x with
  | .nan => 0
  | .infinite negative => if negative then clampInteger minInteger else clampInteger maxInteger
  | .finite negative significand exponent =>
    let magnitude : Int := Binary64.magnitude significand exponent
    clampInteger (if negative then -magnitude else magnitude)

theorem integer?_eq_some_iff {n : Int} {k : Int64} : integer? n = some k ↔ k.toInt = n := by
  unfold integer? minInteger maxInteger
  constructor
  · intro h
    split at h
    · rename_i hr
      cases h
      exact Int64.toInt_ofInt_of_le (by omega) (by omega)
    · cases h
  · rintro rfl
    have h1 := k.le_toInt
    have h2 := k.toInt_lt
    rw [if_pos (by omega), Int64.ofInt_toInt]

theorem integer?_eq_none_iff {n : Int} :
    integer? n = none ↔ n < minInteger ∨ maxInteger < n := by
  unfold integer?
  split <;> simp <;> omega

/-- Clamping moves no integer that is in range. -/
theorem clampInteger_toInt (k : Int64) : clampInteger k.toInt = k := by
  have h1 := k.le_toInt
  have h2 := k.toInt_lt
  have h : max minInteger (min k.toInt maxInteger) = k.toInt := by
    unfold minInteger maxInteger
    omega
  rw [clampInteger, h, Int64.ofInt_toInt]

end ExprCore
