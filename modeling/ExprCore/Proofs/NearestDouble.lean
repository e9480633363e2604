import ExprCore.Number.Binary64
import ExprCore.Proofs.Rounding

/-!
# The double nearest to a natural number

What it is to be the nearest double, in terms of the rational numbers that doubles stand for, and a
proof that rounding to 53 bits gives it. A number of at least `2 ^ 53` is compared with the doubles
that are multiples of its unit. The other doubles are no nearer, since they lie below the least
number with as many bits.

## Main definitions

- `doubleValue?`: the rational number that a double stands for
- `IsNearest`: the nearest double, with ties to even and overflow to infinity

## Main statements

- `nearestQuotient_nearest`: the nearest quotient gives the nearest multiple
- `nearestQuotient_nearest_double`: no double is nearer than that multiple
- `isNearest_nearestDyadic`: rounding to 53 bits gives the nearest double
- `toFloat_natural`: a decimal without an exponent is rounded to 53 bits
-/

namespace ExprCore

/-- The rational number behind the parts of a double, unless it is infinite or no number. -/
def Binary64.rational? : Binary64 → Option ℚ
  | nan | infinite _ => none
  | finite negative significand exponent =>
    some ((if negative then -1 else 1) * (significand * (2 : ℚ) ^ exponent))

/-- The rational number that a double stands for. -/
def doubleValue? (x : Float) : Option ℚ := (Binary64.ofFloat x).rational?

/-- The number from which on the nearest double is infinite. It lies half a unit beyond the greatest
double, at `2 ^ 1024 - 2 ^ 970`. -/
def overflowBound : ℕ := (2 ^ 54 - 1) * 2 ^ 970

/-- The double is the one nearest to the natural number; of two that are equally near, it is the one
with the even significand, which is to say the one with even bits. What lies half a unit or more
beyond the greatest double goes to infinity. -/
structure IsNearest (n : ℕ) (x : Float) : Prop where
  overflow : overflowBound ≤ n → x = Decimal.infinity
  nearest : n < overflowBound → ∃ v, doubleValue? x = some v
    ∧ ∀ y w, doubleValue? y = some w →
      |v - n| ≤ |w - n| ∧ (|w - n| = |v - n| → w = v ∨ Even x.toBits.toNat)

section Values

variable {m : ℕ} {e : ℤ} {x y : Float} {w : ℚ}

theorem IsNormal.doubleValue?_eq (hx : IsNormal x m e) :
    doubleValue? x = some (m * (2 : ℚ) ^ e) := by
  obtain ⟨hlow, hhigh, hleast, hgreatest, rfl⟩ := hx
  have hbits : (floatOfUnits e m).toBits.toNat = (e + 1074).toNat * 2 ^ 52 + m := by
    rw [toBits_floatOfUnits, infinityBits]
    omega
  have hnegative : decide (2 ^ 63 ≤ (e + 1074).toNat * 2 ^ 52 + m) = false :=
    decide_eq_false (by omega)
  have hexponent : ((e + 1074).toNat * 2 ^ 52 + m) / 2 ^ 52 % 2 ^ 11 = (e + 1075).toNat := by omega
  have hfraction : 2 ^ 52 + ((e + 1074).toNat * 2 ^ 52 + m) % 2 ^ 52 = m := by omega
  have hunit : ((e + 1075).toNat : ℤ) - 1075 = e := by omega
  have hparts : Binary64.ofFloat (floatOfUnits e m) = .finite false m e := by
    rw [Binary64.ofFloat, hbits]
    unfold Binary64.ofBits
    simp only [Nat.pow_eq]
    rw [hnegative, hexponent, if_neg (by omega), if_neg (by omega), hfraction, hunit]
  rw [doubleValue?, hparts]
  show some (1 * (m * (2 : ℚ) ^ e)) = _
  rw [one_mul]

/-- Every double is a number of at most 53 bits times a power of two. -/
theorem exists_of_doubleValue? (h : doubleValue? y = some w) :
    ∃ z d : ℤ, z < 2 ^ 53 ∧ w = z * (2 : ℚ) ^ d := by
  have hparts {negative : Bool} {s : ℕ} {d : ℤ} (hs : s < 2 ^ 53)
      (hw : (Binary64.finite negative s d).rational? = some w) :
      ∃ z d : ℤ, z < 2 ^ 53 ∧ w = z * (2 : ℚ) ^ d := by
    cases hw
    cases negative with
    | false => exact ⟨s, d, by omega, by simp⟩
    | true => exact ⟨-s, d, by omega, by simp⟩
  unfold doubleValue? Binary64.ofFloat Binary64.ofBits at h
  simp only [Nat.pow_eq] at h
  split at h
  · split at h
    · cases h
    · cases h
  · split at h
    · exact hparts (by omega) h
    · exact hparts (by omega) h

end Values

/-- No multiple of a number is nearer than that by the nearest quotient; one that is equally near
leaves the even quotient. -/
theorem nearestQuotient_nearest {den : ℕ} (hden : 0 < den) (num : ℕ) (z : ℤ) :
    |nearestQuotient num den * (den : ℤ) - num| ≤ |z * den - num|
      ∧ (|z * den - num| = |nearestQuotient num den * (den : ℤ) - num| →
        z = nearestQuotient num den ∨ nearestQuotient num den % 2 = 0) := by
  have hsplit : (num / den : ℕ) * (den : ℤ) + (num % den : ℕ) = num := by
    rw [← Nat.cast_mul, ← Nat.cast_add, Nat.mul_comm, Nat.div_add_mod]
  have hrest := Nat.mod_lt num hden
  -- the two multiples around the number, and those beyond them on either side
  have hwhere : z * den + den ≤ (num / den : ℕ) * (den : ℤ)
      ∨ z = (num / den : ℕ) ∨ z = (num / den : ℕ) + 1
      ∨ (num / den : ℕ) * (den : ℤ) + den + den ≤ z * den := by
    by_cases hbelow : z + 1 ≤ (num / den : ℕ)
    · have hle := Int.mul_le_mul_of_nonneg_right hbelow (Int.natCast_nonneg den)
      rw [Int.add_mul, Int.one_mul] at hle
      exact .inl hle
    by_cases habove : (num / den : ℕ) + 1 + 1 ≤ z
    · have hle := Int.mul_le_mul_of_nonneg_right habove (Int.natCast_nonneg den)
      rw [Int.add_mul, Int.add_mul, Int.one_mul] at hle
      exact .inr (.inr (.inr hle))
    omega
  rw [nearestQuotient]
  generalize num / den = below at hsplit hwhere ⊢
  generalize num % den = rest at hsplit hrest ⊢
  have hnext : ((below : ℤ) + 1) * den = below * den + den := by rw [Int.add_mul, Int.one_mul]
  simp only [Int.abs_eq_natAbs]
  by_cases hup : den < 2 * rest ∨ (2 * rest = den ∧ below % 2 = 1)
  · rw [if_pos hup, Nat.cast_add, Nat.cast_one, hnext]
    rcases hwhere with h | rfl | rfl | h
    all_goals omega
  · rw [if_neg hup]
    rcases hwhere with h | rfl | rfl | h
    all_goals omega

section Nearest

variable {n u : ℕ} {y : Float} {w : ℚ}

/-- No double is nearer to a number of at least `2 ^ 52` units than the nearest number of units. -/
theorem nearestQuotient_nearest_double (hn : 2 ^ 52 * 2 ^ u ≤ n) (hy : doubleValue? y = some w) :
    |(nearestQuotient n (2 ^ u) : ℚ) * 2 ^ u - n| ≤ |w - n|
      ∧ (|w - n| = |(nearestQuotient n (2 ^ u) : ℚ) * 2 ^ u - n| →
        w = nearestQuotient n (2 ^ u) * 2 ^ u ∨ nearestQuotient n (2 ^ u) % 2 = 0) := by
  have hmultiple (z : ℤ) := nearestQuotient_nearest (Nat.two_pow_pos u) n z
  generalize nearestQuotient n (2 ^ u) = q at hmultiple ⊢
  have hmultiple' (z : ℤ) : |(q : ℚ) * 2 ^ u - n| ≤ |(z : ℚ) * 2 ^ u - n|
      ∧ (|(z : ℚ) * 2 ^ u - n| = |(q : ℚ) * 2 ^ u - n| → z = q ∨ q % 2 = 0) := by
    exact_mod_cast hmultiple z
  obtain ⟨z, d, hz, rfl⟩ := exists_of_doubleValue? hy
  by_cases hd : (u : ℤ) ≤ d
  · -- the double is a multiple of the unit
    obtain ⟨k, rfl⟩ := Int.le.dest hd
    have hvalue : (z : ℚ) * 2 ^ ((u : ℤ) + k) = ((z * 2 ^ k : ℤ) : ℚ) * 2 ^ u := by
      rw [zpow_add₀ two_ne_zero, zpow_natCast, zpow_natCast]
      push_cast
      ring
    obtain ⟨hle, htie⟩ := hmultiple' (z * 2 ^ k)
    rw [hvalue]
    refine ⟨hle, fun heq => (htie heq).imp (fun h => ?_) id⟩
    rw [h, Int.cast_natCast]
  · -- the double is below the least number of units with as many bits
    have hz' : (z : ℚ) < 2 ^ 53 := by exact_mod_cast hz
    have hless : (z : ℚ) * 2 ^ d < 2 ^ 52 * 2 ^ u :=
      calc (z : ℚ) * 2 ^ d < 2 ^ 53 * 2 ^ d := by gcongr
        _ = 2 ^ 52 * 2 ^ (d + 1) := by
          rw [zpow_add₀ two_ne_zero, zpow_one]
          ring
        _ ≤ 2 ^ 52 * (2 : ℚ) ^ (u : ℤ) := by
          gcongr
          · exact one_le_two
          · omega
        _ = 2 ^ 52 * 2 ^ u := by rw [zpow_natCast]
    have hn' : (2 : ℚ) ^ 52 * 2 ^ u ≤ n := by exact_mod_cast hn
    obtain ⟨hle, -⟩ := hmultiple' (2 ^ 52)
    rw [Int.cast_pow, Int.cast_ofNat] at hle
    rw [abs_of_nonpos (by linarith : (2 : ℚ) ^ 52 * 2 ^ u - n ≤ 0)] at hle
    rw [abs_of_nonpos (by linarith : (z : ℚ) * 2 ^ d - n ≤ 0)]
    constructor
    · linarith
    · intro heq
      linarith

/-- A number of units with 53 bits stands for that many units. -/
theorem doubleValue?_floatOfUnits {q : ℕ} (hlow : 2 ^ 52 ≤ q) (hhigh : q ≤ 2 ^ 53) (hu : u ≤ 971)
    (hcarry : q = 2 ^ 53 → u ≤ 970) :
    doubleValue? (floatOfUnits u q) = some ((q : ℚ) * 2 ^ u) := by
  by_cases hq : q = 2 ^ 53
  · have hle := hcarry hq
    have hx : IsNormal (floatOfUnits u q) (2 ^ 52) ((u : ℤ) + 1) := by
      refine ⟨by decide, by decide, by omega, by omega, ?_⟩
      rw [hq, floatOfUnits_carry (by omega)]
    rw [hx.doubleValue?_eq, hq, zpow_add₀ two_ne_zero, zpow_natCast, zpow_one]
    congr 1
    push_cast
    ring
  · have hx : IsNormal (floatOfUnits u q) q u := ⟨hlow, by omega, by omega, by omega, rfl⟩
    rw [hx.doubleValue?_eq, zpow_natCast]

theorem exists_half (k : ℕ) : ∃ half, (2 ^ 54 - 1) * 2 ^ k = (2 ^ 54 - 1) * half
    ∧ (∀ u ≤ k, 2 ^ u ≤ half) ∧ (∀ u, u = k + 1 → 2 ^ u = 2 * half)
    ∧ ∀ u, k + 2 ≤ u → 4 * half ≤ 2 ^ u := by
  refine ⟨2 ^ k, rfl, fun u hu => Nat.pow_le_pow_right (by decide) hu, ?_, fun u hu => ?_⟩
  · rintro u rfl
    exact Nat.pow_succ'
  · calc 4 * 2 ^ k = 2 ^ (k + 2) := by rw [Nat.pow_add, Nat.mul_comm]
      _ ≤ 2 ^ u := Nat.pow_le_pow_right (by decide) hu

/-- The greatest unit is twice the half by which the bound is beyond the greatest double. -/
theorem overflowBound_eq : ∃ half, overflowBound = (2 ^ 54 - 1) * half
    ∧ (∀ u ≤ 970, 2 ^ u ≤ half) ∧ (∀ u, u = 971 → 2 ^ u = 2 * half)
    ∧ ∀ u, 972 ≤ u → 4 * half ≤ 2 ^ u :=
  exists_half 970

/-- From the bound on the number is rounded to one bit more. -/
theorem nearestQuotient_of_overflow (hu : u = 971) (hn : overflowBound ≤ n)
    (hn' : n < 2 ^ 53 * 2 ^ u) : nearestQuotient n (2 ^ u) = 2 ^ 53 := by
  obtain ⟨half, hbound, hsmall, hunit, -⟩ := overflowBound_eq
  replace hunit := hunit u hu
  have hpos := hsmall 0 (by decide)
  rw [hbound] at hn
  generalize 2 ^ u = unit at hunit hn' ⊢
  have hle : nearestQuotient n unit ≤ 2 ^ 53 := nearestQuotient_le (by omega) (by omega)
  obtain ⟨hnear, htie⟩ := nearestQuotient_nearest (by omega : 0 < unit) n (2 ^ 53)
  generalize nearestQuotient n unit = q at hle hnear htie ⊢
  simp only [Int.abs_eq_natAbs] at hnear htie
  by_contra hne
  have hmul {bound : ℕ} (h : q ≤ bound) : q * unit ≤ bound * unit := Nat.mul_le_mul_right _ h
  -- only the number of units below is as near, and it is odd
  have hodd : q = 2 ^ 53 - 1 := by
    by_contra hless
    have hle' := hmul (by omega : q ≤ 2 ^ 53 - 2)
    omega
  subst hodd
  omega

theorem nearestQuotient_of_lt (hu : u = 971) (hn : n < overflowBound) :
    nearestQuotient n (2 ^ u) < 2 ^ 53 := by
  obtain ⟨half, hbound, hsmall, hunit, -⟩ := overflowBound_eq
  replace hunit := hunit u hu
  have hpos := hsmall 0 (by decide)
  rw [hbound] at hn
  generalize 2 ^ u = unit at hunit ⊢
  obtain ⟨hnear, -⟩ := nearestQuotient_near n (by omega : 0 < unit)
  generalize nearestQuotient n unit = q at hnear ⊢
  by_contra hge
  have hmul : 2 ^ 53 * unit ≤ q * unit := Nat.mul_le_mul_right _ (by omega)
  omega

/-- The double of the nearest number of units is nearest. -/
theorem isNearest_nearestDyadic (hn : 2 ^ 53 ≤ n) : IsNearest n (nearestDyadic n 0) := by
  have hpos : 0 < n := by omega
  have hlog : 53 ≤ n.log2 := (Nat.le_log2 hpos.ne').2 hn
  obtain ⟨u, hu⟩ : ∃ u, n.log2 = 52 + u := ⟨n.log2 - 52, by omega⟩
  obtain ⟨hlow, hhigh⟩ := nearestQuotient_bounds (m := n) (by omega)
  have hexponent : ((52 + u : ℕ) : ℤ) + 0 - 52 = u := by omega
  have hleast : 2 ^ 52 * 2 ^ u ≤ n := by
    rw [← Nat.pow_add, ← hu]
    exact Nat.log2_self_le hpos.ne'
  have hless : n < 2 ^ 53 * 2 ^ u := by
    rw [← Nat.pow_add, show 53 + u = n.log2 + 1 by omega]
    exact Nat.lt_log2_self
  rw [hu, Nat.add_sub_cancel_left] at hlow hhigh
  obtain ⟨half, hbound, hsmall, -, hlarge⟩ := overflowBound_eq
  have hpos' := hsmall 0 (by decide)
  rw [nearestDyadic_of_le_log2 (by omega), hu, hexponent, Nat.add_sub_cancel_left]
  constructor
  · intro hover
    by_cases hu' : 972 ≤ u
    · exact floatOfUnits_eq_infinity (by omega) hlow
    · have hlast : u = 971 := by
        by_contra hne
        have hle := hsmall u (by omega)
        omega
      rw [nearestQuotient_of_overflow hlast hover hless, floatOfUnits_carry (by omega)]
      exact floatOfUnits_eq_infinity (by omega) (by decide)
  · intro hfinite
    have hu' : u ≤ 971 := by
      by_contra hgt
      have hle := hlarge u (by omega)
      omega
    have hcarry (hq : nearestQuotient n (2 ^ u) = 2 ^ 53) : u ≤ 970 := by
      by_contra hge
      exact absurd hq (nearestQuotient_of_lt (by omega) hfinite).ne
    refine ⟨_, doubleValue?_floatOfUnits hlow hhigh hu' hcarry, fun y w hy => ?_⟩
    obtain ⟨hle, htie⟩ := nearestQuotient_nearest_double hleast hy
    refine ⟨hle, fun heq => (htie heq).imp id fun heven => ?_⟩
    rw [toBits_floatOfUnits, infinityBits, Nat.even_iff]
    omega

end Nearest

/-- A decimal without an exponent is rounded as a natural number. -/
theorem toFloat_natural {n : ℕ} (hn : 0 < n) : Decimal.toFloat ⟨n, 0⟩ = nearestDyadic n 0 := by
  have hsmall : ¬((highOrder n : ℤ) + 0 ≤ -330) := by omega
  rw [Decimal.toFloat, if_neg hn.ne', if_neg hsmall]
  by_cases hlarge : 310 ≤ (lowOrder n : ℤ) + 0
  · -- `10 ^ 310` has far more bits than the greatest double
    have hlog : 4 * 310 ≤ n.log2 := by
      rw [lowOrder] at hlarge
      omega
    obtain ⟨hlow, -⟩ := nearestQuotient_bounds (m := n) (by omega)
    rw [if_pos hlarge, nearestDyadic_of_le_log2 (by omega),
      floatOfUnits_eq_infinity (by omega) hlow]
  · rw [if_neg hlarge, ← nearestFloat_one hn]
    show nearestFloat (n * 1) 1 = nearestFloat n 1
    rw [Nat.mul_one]

end ExprCore
