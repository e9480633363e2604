import ExprCore.Number.Decimal
import ExprCore.Proofs.Doubles

/-!
# Rounding to doubles

What a product or a sum of positive doubles is. The bits of a positive double count units of the
last place, so a double is written as a number of units with the exponent of the unit. Arithmetic
shifts the exact result right until 53 bits are left. Of what is shifted out two bits are kept,
which are enough to find the nearest number of units.

## Main definitions

- `floatOfUnits`: the double of a number of units
- `nearestDyadic`: the double nearest to a number times a power of two
- `IsNormal`: the finite doubles with a leading one bit
- `IsNatural`: the doubles of natural numbers

## Main statements

- `nearestFloat_one`: the double nearest to a natural number
- `nearestDyadic_mul_two_pow`: a power of two goes from the significand to the exponent
- `Unpacked.roundedMantissa_shiftRight`: to shift and round gives the nearest quotient
- `Unpacked.ofModel_pack_roundWithAccuracy`: to round gives the nearest double
- `IsNormal.mul`, `IsNormal.add`: products and sums are rounded once
- `IsNatural.mul`, `IsNatural.add`: those of natural numbers
-/

namespace ExprCore

open Float.Model (UnpackedFloat Format totalExponent)
open Float.Model.UnpackedFloat

section Quotients

variable {num den bound m k r : ℕ}

theorem nearestQuotient_le (hden : 0 < den) (h : num ≤ bound * den) :
    nearestQuotient num den ≤ bound := by
  have hsplit := Nat.div_add_mod num den
  have hbelow : num / den ≤ bound := Nat.div_le_of_le_mul (by rwa [Nat.mul_comm])
  rw [nearestQuotient]
  by_cases hup : den < 2 * (num % den) ∨ (2 * (num % den) = den ∧ num / den % 2 = 1)
  · rw [if_pos hup]
    -- with a rest the bound is not reached
    have hne : num / den ≠ bound := by
      intro heq
      rw [heq, Nat.mul_comm] at hsplit
      omega
    omega
  · rw [if_neg hup]
    exact hbelow

theorem le_nearestQuotient (hden : 0 < den) (h : bound * den ≤ num) :
    bound ≤ nearestQuotient num den := by
  have hbelow : bound ≤ num / den := (Nat.le_div_iff_mul_le hden).2 h
  rw [nearestQuotient]
  by_cases hup : den < 2 * (num % den) ∨ (2 * (num % den) = den ∧ num / den % 2 = 1)
  · rw [if_pos hup]
    omega
  · rw [if_neg hup]
    exact hbelow

theorem nearestQuotient_one (num : ℕ) : nearestQuotient num 1 = num := by
  rw [nearestQuotient, Nat.div_one, Nat.mod_one]
  exact if_neg (by omega)

/-- A quotient is rounded alike in higher terms. -/
theorem nearestQuotient_mul_right {c : ℕ} (hc : 0 < c) :
    nearestQuotient (num * c) (den * c) = nearestQuotient num den := by
  have hlt : den * c < 2 * (num % den * c) ↔ den < 2 * (num % den) := by
    rw [← Nat.mul_assoc]
    exact Nat.mul_lt_mul_right hc
  have heq : 2 * (num % den * c) = den * c ↔ 2 * (num % den) = den := by
    rw [← Nat.mul_assoc]
    exact Nat.mul_left_inj hc.ne'
  unfold nearestQuotient
  simp only [Nat.mul_div_mul_right _ _ hc, Nat.mul_mod_mul_right, hlt, heq]

theorem nearestQuotient_congr {num' den' : ℕ} (hden : 0 < den) (hden' : 0 < den')
    (h : num * den' = num' * den) : nearestQuotient num den = nearestQuotient num' den' :=
  calc nearestQuotient num den
      = nearestQuotient (num * den') (den * den') := (nearestQuotient_mul_right hden').symm
    _ = nearestQuotient (num' * den) (den' * den) := by rw [h, Nat.mul_comm den]
    _ = nearestQuotient num' den' := nearestQuotient_mul_right hden

/-- The bits of a number with others behind them. -/
theorem log2_mul_two_pow_add (hm : 0 < m) (hr : r < 2 ^ k) :
    (m * 2 ^ k + r).log2 = m.log2 + k := by
  have hlow : 2 ^ m.log2 * 2 ^ k ≤ m * 2 ^ k :=
    Nat.mul_le_mul_right _ (Nat.log2_self_le hm.ne')
  have hhigh : (m + 1) * 2 ^ k ≤ 2 ^ (m.log2 + 1) * 2 ^ k :=
    Nat.mul_le_mul_right _ Nat.lt_log2_self
  have hpos : 0 < m * 2 ^ k := Nat.mul_pos hm (Nat.two_pow_pos k)
  rw [Nat.add_mul, Nat.one_mul] at hhigh
  rw [Nat.log2_eq_iff (by omega), Nat.add_right_comm, Nat.pow_add, Nat.pow_add]
  omega

theorem log2_mul_two_pow (hm : 0 < m) (k : ℕ) : (m * 2 ^ k).log2 = m.log2 + k :=
  log2_mul_two_pow_add hm (Nat.two_pow_pos k)

theorem pos_of_le_log2 (hk : 0 < k) (hm : k ≤ m.log2) : 0 < m := by
  refine Nat.pos_of_ne_zero ?_
  rintro rfl
  rw [Nat.log2_zero] at hm
  omega

/-- Rounded to 53 bits, a significand has 53 bits or is the least number with 54. -/
theorem nearestQuotient_bounds (hm : 52 ≤ m.log2) :
    2 ^ 52 ≤ nearestQuotient m (2 ^ (m.log2 - 52))
      ∧ nearestQuotient m (2 ^ (m.log2 - 52)) ≤ 2 ^ 53 := by
  have hpos := pos_of_le_log2 (by decide) hm
  refine ⟨le_nearestQuotient (Nat.two_pow_pos _) ?_, nearestQuotient_le (Nat.two_pow_pos _) ?_⟩
  · rw [← Nat.pow_add, Nat.add_sub_cancel' hm]
    exact Nat.log2_self_le hpos.ne'
  · rw [← Nat.pow_add, show 53 + (m.log2 - 52) = m.log2 + 1 by omega]
    exact Nat.lt_log2_self.le

end Quotients

/-- The double of that many units, where the unit is a power of two. The bits of a double count the
units from zero on. -/
def floatOfUnits (exponent : ℤ) (units : ℕ) : Float :=
  Float.ofBits (min ((exponent + 1074).toNat * 2 ^ 52 + units) infinityBits).toUInt64

/-- The double nearest to `significand * 2 ^ exponent`, where that is not too small. -/
def nearestDyadic (significand : ℕ) (exponent : ℤ) : Float :=
  floatOfUnits (significand.log2 + exponent - 52)
    (nearestQuotient (significand * 2 ^ (52 - significand.log2)) (2 ^ (significand.log2 - 52)))

section Dyadic

variable {m k : ℕ}

/-- The double nearest to a natural number. -/
theorem nearestFloat_one (hm : 0 < m) : nearestFloat m 1 = nearestDyadic m 0 := by
  have horder : binaryOrder m 1 = m.log2 := by
    have hlow : 1 * 2 ^ m.log2 ≤ m * 2 ^ 0 := by
      rw [Nat.one_mul, Nat.pow_zero, Nat.mul_one]
      exact Nat.log2_self_le hm.ne'
    have hexponent : (m.log2 : ℤ) - Nat.log2 1 = m.log2 := Int.sub_zero _
    have hscale : (-(m.log2 : ℤ)).toNat = 0 := by omega
    unfold binaryOrder
    dsimp only
    rw [hexponent, Int.toNat_natCast, hscale]
    exact if_pos hlow
  have hexponent : max ((m.log2 : ℤ) - 52) (-1074) = m.log2 - 52 := by omega
  have hscale : (-((m.log2 : ℤ) - 52)).toNat = 52 - m.log2 := by omega
  have hunit : ((m.log2 : ℤ) - 52).toNat = m.log2 - 52 := by omega
  rw [nearestFloat, horder, hexponent, hscale, hunit, nearestDyadic, Int.add_zero]
  show floatOfUnits _ (nearestQuotient _ (1 * 2 ^ (m.log2 - 52))) = _
  rw [Nat.one_mul]
  rfl

/-- A power of two goes from the significand to the exponent. -/
theorem nearestDyadic_mul_two_pow (hm : 0 < m) (k : ℕ) (e : ℤ) :
    nearestDyadic (m * 2 ^ k) e = nearestDyadic m (e + k) := by
  have hexponent : ((m.log2 + k : ℕ) : ℤ) + e - 52 = m.log2 + (e + k) - 52 := by omega
  rw [nearestDyadic, nearestDyadic, log2_mul_two_pow hm, hexponent]
  congr 1
  refine nearestQuotient_congr (Nat.two_pow_pos _) (Nat.two_pow_pos _) ?_
  rw [Nat.mul_assoc, Nat.mul_assoc, Nat.mul_assoc, ← Nat.pow_add, ← Nat.pow_add, ← Nat.pow_add]
  congr 2
  omega

/-- A significand with bits enough is rounded to a number of units. -/
theorem nearestDyadic_of_le_log2 (hm : 52 ≤ m.log2) (e : ℤ) :
    nearestDyadic m e
      = floatOfUnits (m.log2 + e - 52) (nearestQuotient m (2 ^ (m.log2 - 52))) := by
  rw [nearestDyadic, Nat.sub_eq_zero_of_le hm, Nat.pow_zero, Nat.mul_one]

/-- A significand of 53 bits is kept. -/
theorem nearestDyadic_of_lt (hlow : 2 ^ 52 ≤ m) (hhigh : m < 2 ^ 53) (e : ℤ) :
    nearestDyadic m e = floatOfUnits e m := by
  have hlog : m.log2 = 52 := (Nat.log2_eq_iff (by omega)).2 ⟨hlow, hhigh⟩
  have hexponent : ((52 : ℕ) : ℤ) + e - 52 = e := by omega
  rw [nearestDyadic_of_le_log2 hlog.ge, hlog, hexponent, Nat.sub_self, Nat.pow_zero,
    nearestQuotient_one]

end Dyadic

namespace Unpacked

variable {b : BitVec Format.binary64.numBits} {m : ℕ} {e : ℤ}

theorem toNat_unpackExponent (b : BitVec Format.binary64.numBits) :
    (unpackExponent b).toNat = b.toNat / 2 ^ 52 % 2 ^ 11 := by
  rw [unpackExponent_def, BitVec.extractLsb'_toNat, Nat.shiftRight_eq_div_pow]

theorem toNat_unpackMantissa (b : BitVec Format.binary64.numBits) :
    (unpackMantissa b).toNat = b.toNat % 2 ^ 52 := by
  rw [unpackMantissa_def, BitVec.extractLsb'_toNat, Nat.shiftRight_zero]

theorem unpackSign_of_lt (h : b.toNat < 2 ^ 63) : unpackSign b = 0#1 := by
  rw [unpackSign_def, ← BitVec.toNat_inj, BitVec.extractLsb'_toNat, Nat.shiftRight_eq_div_pow]
  show b.toNat / 2 ^ 63 % 2 ^ 1 = 0
  omega

/-- What the bits of a positive double with a leading one bit stand for. -/
theorem unpack_of_toNat_eq (hm : 0 < m) (hlow : 2 ^ 52 ≤ m) (hhigh : m < 2 ^ 53) (he : -1074 ≤ e)
    (he' : e ≤ 971) (hb : b.toNat = (e + 1074).toNat * 2 ^ 52 + m) :
    unpack Format.binary64 b = .finite .positive m e hm := by
  have hexponent := toNat_unpackExponent b
  have hmantissa := toNat_unpackMantissa b
  have hsign : unpackSign b = 0#1 := unpackSign_of_lt (by omega)
  have hgreatest : unpackExponent b ≠ -1#_ := by
    intro h
    have htop : (unpackExponent b).toNat = 2047 := by
      rw [h]
      rfl
    omega
  have hleast : unpackExponent b ≠ 0#_ := by
    intro h
    have hzero : (unpackExponent b).toNat = 0 := by
      rw [h]
      rfl
    omega
  have hsignificand : (1#1 ++ unpackMantissa b).toNat = m := by
    have hor : 2 ^ 52 * 1 + (unpackMantissa b).toNat = 2 ^ 52 * 1 ||| (unpackMantissa b).toNat :=
      Nat.two_pow_add_eq_or_of_lt (unpackMantissa b).isLt 1
    rw [BitVec.toNat_append]
    show 2 ^ 52 * 1 ||| (unpackMantissa b).toNat = m
    rw [← hor]
    omega
  have hbias : (Format.binary64.exponentBias : ℤ) = 1023 := rfl
  unfold unpack
  dsimp only
  rw [if_neg hgreatest, if_neg hleast, hsign]
  congr 1
  omega

/-- The bits up to those of infinity are kept. -/
theorem pack_unpack_of_le (h : b.toNat ≤ infinityBits) :
    pack Format.binary64 (unpack Format.binary64 b) = b := by
  have hexponent := toNat_unpackExponent b
  have hmantissa := toNat_unpackMantissa b
  have hnumber : ¬(isNaNBits b = true) := by
    rw [isNaNBits, decide_eq_true_iff]
    rintro ⟨hgreatest, hne⟩
    have htop : (unpackExponent b).toNat = 2047 := by
      rw [hgreatest]
      rfl
    have hzero : (unpackMantissa b).toNat = 0 := by
      rw [infinityBits] at h
      omega
    exact hne (BitVec.eq_of_toNat_eq hzero)
  rw [pack_unpack, if_neg hnumber]

/-- The two bits that are kept of what is shifted out: whether it is at least one half, and whether
it is neither nothing nor one half. -/
theorem residualBits (m s : ℕ) :
    ((ExtendedMantissa.mk m false false >>> s).roundBit = true ↔ 2 ^ s ≤ 2 * (m % 2 ^ s))
      ∧ ((ExtendedMantissa.mk m false false >>> s).stickyBit = true
          ↔ m % 2 ^ s ≠ 0 ∧ 2 * (m % 2 ^ s) ≠ 2 ^ s) := by
  induction s with
  | zero =>
    show (false = true ↔ 1 ≤ 2 * (m % 1)) ∧ (false = true ↔ m % 1 ≠ 0 ∧ 2 * (m % 1) ≠ 1)
    rw [Nat.mod_one]
    decide
  | succ s ih =>
    obtain ⟨hround, hsticky⟩ := ih
    have hmantissa := mantissa_shiftRight (ExtendedMantissa.mk m false false) s
    have hsplit : m % 2 ^ (s + 1) = m % 2 ^ s + 2 ^ s * (m / 2 ^ s % 2) := Nat.mod_pow_succ
    have hrest := Nat.mod_lt m (Nat.two_pow_pos s)
    -- the next bit goes out, and the two bits before it into one
    show (((ExtendedMantissa.mk m false false >>> s).mantissa % 2 != 0) = true ↔ _)
      ∧ (((ExtendedMantissa.mk m false false >>> s).roundBit
        || (ExtendedMantissa.mk m false false >>> s).stickyBit) = true ↔ _)
    rw [hmantissa, hsplit, bne_iff_ne, Bool.or_eq_true, hround, hsticky, Nat.pow_succ]
    rcases Nat.mod_two_eq_zero_or_one (m / 2 ^ s) with hbit | hbit
    · rw [hbit]
      omega
    · rw [hbit]
      omega

/-- Shifted right and rounded, a significand becomes the nearest quotient. -/
theorem roundedMantissa_shiftRight (m s : ℕ) :
    (ExtendedMantissa.mk m false false >>> s).roundedMantissa = nearestQuotient m (2 ^ s) := by
  have hmantissa := mantissa_shiftRight (ExtendedMantissa.mk m false false) s
  obtain ⟨hround, hsticky⟩ := residualBits m s
  generalize ExtendedMantissa.mk m false false >>> s = em at hmantissa hround hsticky
  obtain ⟨kept, _ | _, _ | _⟩ := em
  all_goals
    simp only [Bool.false_eq_true, false_iff, true_iff] at hround hsticky
    change kept = m / 2 ^ s at hmantissa
    rw [nearestQuotient]
  · rw [if_neg (by omega)]
    exact hmantissa
  · rw [if_neg (by omega)]
    exact hmantissa
  · show kept + kept % 2 = _
    rcases Nat.mod_two_eq_zero_or_one kept with heven | hodd
    · rw [if_neg (by omega)]
      omega
    · rw [if_pos (by omega)]
      omega
  · show kept + 1 = _
    rw [if_pos (by omega)]
    omega

end Unpacked

open Unpacked

section Units

variable {m : ℕ} {e : ℤ}

theorem toBits_ofBits_of_le {n : ℕ} (h : n ≤ infinityBits) :
    (Float.ofBits n.toUInt64).toBits.toNat = n := by
  have hlt : n < 2 ^ 64 := Nat.lt_of_le_of_lt h (by decide)
  have hvalue : n.toUInt64.toBitVec.toNat = n := Nat.mod_eq_of_lt hlt
  have hkept := pack_unpack_of_le (b := n.toUInt64.toBitVec) (by omega)
  show (pack Format.binary64 (unpack Format.binary64 n.toUInt64.toBitVec)).toNat = n
  rw [hkept, hvalue]

theorem toBits_floatOfUnits (e : ℤ) (m : ℕ) :
    (floatOfUnits e m).toBits.toNat = min ((e + 1074).toNat * 2 ^ 52 + m) infinityBits :=
  toBits_ofBits_of_le (Nat.min_le_right _ _)

/-- Two to the 53 units are half as many of the next size. -/
theorem floatOfUnits_carry (he : -1074 ≤ e) :
    floatOfUnits e (2 ^ 53) = floatOfUnits (e + 1) (2 ^ 52) := by
  have hbits : (e + 1074).toNat * 2 ^ 52 + 2 ^ 53 = (e + 1 + 1074).toNat * 2 ^ 52 + 2 ^ 52 := by
    omega
  rw [floatOfUnits, floatOfUnits, hbits]

theorem floatOfUnits_eq_infinity (he : 972 ≤ e) (hm : 2 ^ 52 ≤ m) :
    floatOfUnits e m = Decimal.infinity := by
  have hbits : min ((e + 1074).toNat * 2 ^ 52 + m) infinityBits = infinityBits := by
    rw [infinityBits]
    omega
  rw [floatOfUnits, hbits, Decimal.infinity]

theorem unpack_floatOfUnits (hm : 0 < m) (hlow : 2 ^ 52 ≤ m) (hhigh : m < 2 ^ 53)
    (he : -1074 ≤ e) (he' : e ≤ 971) :
    (floatOfUnits e m).toModel.unpack = .finite .positive m e hm := by
  refine unpack_of_toNat_eq hm hlow hhigh he he' ?_
  show (floatOfUnits e m).toBits.toNat = _
  rw [toBits_floatOfUnits, infinityBits]
  omega

theorem unpack_infinity : Decimal.infinity.toModel.unpack = .infinity .positive := by
  rfl

/-- Packed, a significand of 53 bits is that many units. -/
theorem ofModel_pack (hm : 0 < m) (hlow : 2 ^ 52 ≤ m) (hhigh : m < 2 ^ 53) (he : -1074 ≤ e) :
    Float.ofModel (.pack (.finite .positive m e hm)) = floatOfUnits e m := by
  by_cases hlarge : 972 ≤ e
  · have hinfinite : pack Format.binary64 (.finite .positive m e hm)
        = packedInfinity Format.binary64 .positive := by
      have hgreat : 2 ^ 11 ≤ (e + (1023 : ℕ) + (52 : ℕ)).toNat + 1 := by omega
      exact if_pos hgreat
    rw [floatOfUnits_eq_infinity hlarge hlow, ← Float.toBits_inj]
    show UInt64.ofBitVec (pack Format.binary64 (.finite .positive m e hm)) = _
    rw [hinfinite]
    decide +kernel
  · rw [← unpack_floatOfUnits hm hlow hhigh he (by omega)]
    exact Float.ofBits_toBits _

end Units

namespace Unpacked

variable {m : ℕ} {e : ℤ}

/-- A significand is shifted to 53 bits. -/
theorem targetExponent_totalExponent (h : -1074 ≤ (m.log2 : ℤ) + e - 52) :
    Format.binary64.targetExponent (totalExponent m e) = m.log2 + e - 52 := by
  show max ((m.log2 : ℤ) + 1 + e - 53) (-1074) = _
  omega

theorem shiftToTargetExponent_eq (hm : 52 ≤ m.log2) (he : -1074 ≤ (m.log2 : ℤ) + e - 52) :
    shiftToTargetExponent Format.binary64 m e .exact
      = (ExtendedMantissa.mk m false false >>> (m.log2 - 52), (m.log2 : ℤ) + e - 52) := by
  have hshift : ((m.log2 : ℤ) + e - 52 - e).toNat = m.log2 - 52 := by omega
  rw [shiftToTargetExponent, targetExponent_totalExponent he, shiftToExponent, hshift]
  refine Prod.ext rfl ?_
  show e + ((m.log2 - 52 : ℕ) : ℤ) = _
  omega

theorem roundWithAccuracy_of_shift {em em' : ExtendedMantissa} {e₁ e' : ℤ} {units n : ℕ}
    (h : shiftToTargetExponent Format.binary64 m e .exact = (em, e₁))
    (hunits : em.roundedMantissa = units)
    (h' : shiftToTargetExponent Format.binary64 units e₁ .exact = (em', e'))
    (hn : em'.mantissa = n) (hpos : 0 < n) :
    roundWithAccuracy Format.binary64 .positive m e .exact = .finite .positive n e' hpos := by
  subst hn
  unfold roundWithAccuracy
  simp only [h, hunits, h']
  exact dif_neg hpos.ne'

/-- Rounded and packed, a significand with bits enough is the nearest double. -/
theorem ofModel_pack_roundWithAccuracy (hm : 52 ≤ m.log2) (he : -1074 ≤ (m.log2 : ℤ) + e - 52) :
    Float.ofModel (.pack (roundWithAccuracy Format.binary64 .positive m e .exact))
      = nearestDyadic m e := by
  obtain ⟨hlow, hhigh⟩ := nearestQuotient_bounds hm
  have hunits := roundedMantissa_shiftRight m (m.log2 - 52)
  have hshift := shiftToTargetExponent_eq hm he
  rw [nearestDyadic_of_le_log2 hm]
  generalize nearestQuotient m (2 ^ (m.log2 - 52)) = units at hlow hhigh hunits
  generalize (m.log2 : ℤ) + e - 52 = unit at he hshift
  by_cases hcarry : units = 2 ^ 53
  · -- the bit more is shifted out again
    subst hcarry
    have hlog : (2 ^ 53).log2 = 53 := Nat.log2_two_pow
    have hagain := shiftToTargetExponent_eq (m := 2 ^ 53) (e := unit) (by decide) (by omega)
    rw [roundWithAccuracy_of_shift hshift hunits hagain (n := 2 ^ 52) rfl (by decide),
      ofModel_pack _ (by decide) (by decide) (by omega), floatOfUnits_carry he, hlog]
    congr 1
    omega
  · have hlog : units.log2 = 52 := (Nat.log2_eq_iff (by omega)).2 ⟨hlow, by omega⟩
    have hagain := shiftToTargetExponent_eq (m := units) (e := unit) hlog.ge (by omega)
    rw [hlog] at hagain
    rw [roundWithAccuracy_of_shift hshift hunits hagain (n := units) rfl (by omega),
      ofModel_pack _ hlow (by omega) (by omega)]
    congr 1
    omega

/-- A positive number with bits enough is rounded as it is. -/
theorem normalize_eq (hm : 52 ≤ m.log2) (he : -1074 ≤ (m.log2 : ℤ) + e - 52) :
    UnpackedFloat.normalize Format.binary64 m e .positive
      = roundWithAccuracy Format.binary64 .positive m e .exact := by
  have hpos := pos_of_le_log2 (by decide) hm
  have hcompare : compare (m : ℤ) 0 = .gt := Int.compare_eq_gt.2 (by omega)
  have hshift : (e - ((m.log2 : ℤ) + e - 52)).toNat = 0 := by omega
  unfold UnpackedFloat.normalize
  rw [hcompare]
  show UnpackedFloat.round _ _ _ _ = _
  rw [UnpackedFloat.round, Int.toNat_natCast, targetExponent_totalExponent he, decreaseExponent,
    hshift]
  show roundWithAccuracy _ _ (m <<< 0) (e - 0) _ = _
  rw [Nat.shiftLeft_zero, Int.sub_zero]

end Unpacked

/-- The double is `m * 2 ^ e` with a significand of 53 bits. -/
structure IsNormal (x : Float) (m : ℕ) (e : ℤ) : Prop where
  low : 2 ^ 52 ≤ m
  high : m < 2 ^ 53
  least : -1074 ≤ e
  greatest : e ≤ 971
  eq_units : x = floatOfUnits e m

namespace IsNormal

variable {x y : Float} {m n : ℕ} {e d : ℤ}

theorem pos (hx : IsNormal x m e) : 0 < m := Nat.lt_of_lt_of_le (by decide) hx.low

theorem unpack_eq (hx : IsNormal x m e) : x.toModel.unpack = .finite .positive m e hx.pos := by
  have hunits := hx.eq_units
  subst hunits
  exact unpack_floatOfUnits hx.pos hx.low hx.high hx.least hx.greatest

/-- A product is rounded once. -/
theorem mul (hx : IsNormal x m e) (hy : IsNormal y n d) (hsmall : -1074 ≤ e + d) :
    x * y = nearestDyadic (m * n) (e + d) := by
  have hlow : 2 ^ 52 * 2 ^ 52 ≤ m * n := Nat.mul_le_mul hx.low hy.low
  have hlog : 104 ≤ (m * n).log2 := (Nat.le_log2 (Nat.mul_pos hx.pos hy.pos).ne').2 hlow
  show Float.ofModel (.pack (UnpackedFloat.mul _ x.toModel.unpack y.toModel.unpack)) = _
  rw [hx.unpack_eq, hy.unpack_eq]
  exact ofModel_pack_roundWithAccuracy (by omega) (by omega)

/-- A sum is rounded once. It is formed in the lesser of the two units. -/
theorem add (hx : IsNormal x m e) (hy : IsNormal y n d) :
    x + y
      = nearestDyadic (m * 2 ^ (e - min e d).toNat + n * 2 ^ (d - min e d).toNat) (min e d) := by
  have hle : m ≤ m * 2 ^ (e - min e d).toNat := Nat.le_mul_of_pos_right m (Nat.two_pow_pos _)
  generalize hsum : m * 2 ^ (e - min e d).toNat + n * 2 ^ (d - min e d).toNat = sum
  have hlow := hx.low
  have hleast := hx.least
  have hleast' := hy.least
  have hlog : 52 ≤ sum.log2 := (Nat.le_log2 (by omega)).2 (by omega)
  show Float.ofModel (.pack (UnpackedFloat.add _ x.toModel.unpack y.toModel.unpack)) = _
  rw [hx.unpack_eq, hy.unpack_eq]
  show Float.ofModel (.pack (UnpackedFloat.normalize _
    (((m <<< (e - min e d).toNat : ℕ) : ℤ) + ((n <<< (d - min e d).toNat : ℕ) : ℤ)) _ _)) = _
  rw [Nat.shiftLeft_eq, Nat.shiftLeft_eq, ← Int.natCast_add, hsum, normalize_eq hlog (by omega)]
  exact ofModel_pack_roundWithAccuracy hlog (by omega)

end IsNormal

/-- The double is the natural number. Its parts give the number in units of the double 1. -/
def IsNatural (x : Float) (n : ℕ) : Prop :=
  ∃ m e, IsNormal x m e ∧ -52 ≤ e ∧ m * 2 ^ (e + 52).toNat = n * 2 ^ 52

section Naturals

variable {x y : Float} {m n i j k : ℕ} {e : ℤ}

theorem nearestDyadic_congr (h : m * 2 ^ j = n * 2 ^ i) (he : e + i = j) (hm : 0 < m) :
    nearestDyadic m e = nearestDyadic n 0 := by
  have hn : 0 < n := by
    refine Nat.pos_of_ne_zero ?_
    rintro rfl
    rw [Nat.zero_mul] at h
    exact (Nat.mul_pos hm (Nat.two_pow_pos j)).ne' h
  calc nearestDyadic m e
      = nearestDyadic m (-i + j) := by
        congr 1
        omega
    _ = nearestDyadic (m * 2 ^ j) (-i) := (nearestDyadic_mul_two_pow hm j _).symm
    _ = nearestDyadic n (-i + i) := by rw [h, nearestDyadic_mul_two_pow hn]
    _ = nearestDyadic n 0 := by rw [Int.add_left_neg]

/-- A product of natural numbers is rounded once. -/
theorem IsNatural.mul (hx : IsNatural x m) (hy : IsNatural y n) :
    x * y = nearestDyadic (m * n) 0 := by
  obtain ⟨a, e, hx, he, hm⟩ := hx
  obtain ⟨b, d, hy, hd, hn⟩ := hy
  have hvalue : a * b * 2 ^ ((e + 52).toNat + (d + 52).toNat) = m * n * 2 ^ (52 + 52) := by
    rw [Nat.pow_add, Nat.mul_mul_mul_comm, hm, hn, Nat.pow_add, Nat.mul_mul_mul_comm]
  rw [hx.mul hy (by omega)]
  exact nearestDyadic_congr hvalue (by omega) (Nat.mul_pos hx.pos hy.pos)

/-- A sum of natural numbers is rounded once. -/
theorem IsNatural.add (hx : IsNatural x m) (hy : IsNatural y n) :
    x + y = nearestDyadic (m + n) 0 := by
  obtain ⟨a, e, hx, he, hm⟩ := hx
  obtain ⟨b, d, hy, hd, hn⟩ := hy
  have hunit {c : ℤ} (hc : min e d ≤ c) :
      2 ^ (c - min e d).toNat * 2 ^ (min e d + 52).toNat = 2 ^ (c + 52).toNat := by
    rw [← Nat.pow_add]
    congr 1
    omega
  rw [hx.add hy]
  refine nearestDyadic_congr (j := (min e d + 52).toNat) (i := 52) ?_ (by omega) ?_
  · rw [Nat.add_mul, Nat.mul_assoc, Nat.mul_assoc, hunit (min_le_left e d),
      hunit (min_le_right e d), hm, hn, Nat.add_mul]
  · exact Nat.add_pos_left (Nat.mul_pos hx.pos (Nat.two_pow_pos _)) _

/-- A number of at most 53 bits is a double, also when zeros follow. -/
theorem isNatural_of_lt (hm : 0 < m) (hlt : m < 2 ^ 53) (hk : k ≤ 52) :
    IsNatural (nearestDyadic (m * 2 ^ k) 0) (m * 2 ^ k) := by
  have hlog : m.log2 < 53 := (Nat.log2_lt hm.ne').2 hlt
  have hlog' : (m * 2 ^ (52 - m.log2)).log2 = 52 := by
    rw [log2_mul_two_pow hm]
    omega
  obtain ⟨hlow, hhigh⟩ := (Nat.log2_eq_iff (Nat.mul_pos hm (Nat.two_pow_pos _)).ne').1 hlog'
  refine ⟨m * 2 ^ (52 - m.log2), m.log2 + k - 52, ⟨hlow, hhigh, by omega, by omega, ?_⟩, by omega,
    ?_⟩
  · rw [← nearestDyadic_of_lt hlow hhigh, nearestDyadic_mul_two_pow hm,
      nearestDyadic_mul_two_pow hm]
    congr 1
    omega
  · rw [Nat.mul_assoc, Nat.mul_assoc, ← Nat.pow_add, ← Nat.pow_add]
    congr 2
    omega

theorem IsNormal.isNatural {e : ℕ} (hx : IsNormal x m e) : IsNatural x (m * 2 ^ e) := by
  refine ⟨m, e, hx, by omega, ?_⟩
  rw [Nat.mul_assoc, ← Nat.pow_add]
  rfl

end Naturals

section Ends

variable {x : Float} {m : ℕ} {e : ℤ}

theorem unpack_zero : (0 : Float).toModel.unpack = .zero .positive := by
  rfl

theorem IsNormal.add_zero (hx : IsNormal x m e) : x + 0 = x := by
  show Float.ofModel (.pack (UnpackedFloat.add _ x.toModel.unpack (0 : Float).toModel.unpack)) = x
  rw [hx.unpack_eq, unpack_zero]
  exact (ofModel_pack hx.pos hx.low hx.high hx.least).trans hx.eq_units.symm

theorem IsNormal.zero_add (hx : IsNormal x m e) : 0 + x = x := by
  show Float.ofModel (.pack (UnpackedFloat.add _ (0 : Float).toModel.unpack x.toModel.unpack)) = x
  rw [hx.unpack_eq, unpack_zero]
  exact (ofModel_pack hx.pos hx.low hx.high hx.least).trans hx.eq_units.symm

theorem IsNormal.zero_mul (hx : IsNormal x m e) : 0 * x = 0 := by
  show Float.ofModel (.pack (UnpackedFloat.mul _ (0 : Float).toModel.unpack x.toModel.unpack)) = 0
  rw [hx.unpack_eq, unpack_zero]
  rfl

theorem IsNormal.infinity_mul (hx : IsNormal x m e) :
    Decimal.infinity * x = Decimal.infinity := by
  show Float.ofModel (.pack (UnpackedFloat.mul _ Decimal.infinity.toModel.unpack x.toModel.unpack))
    = _
  rw [unpack_infinity, hx.unpack_eq]
  rfl

theorem IsNormal.infinity_add (hx : IsNormal x m e) :
    Decimal.infinity + x = Decimal.infinity := by
  show Float.ofModel (.pack (UnpackedFloat.add _ Decimal.infinity.toModel.unpack x.toModel.unpack))
    = _
  rw [unpack_infinity, hx.unpack_eq]
  rfl

theorem infinity_add_zero : Decimal.infinity + 0 = Decimal.infinity := by
  rfl

end Ends

end ExprCore
