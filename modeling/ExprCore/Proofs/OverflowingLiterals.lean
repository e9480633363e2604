import ExprCore.Proofs.IntegerText
import ExprCore.Proofs.NearestDouble

/-!
# Overflowing literals

A whole number that does not fit an integer becomes a double, in one of two ways. Decimal digits are
first put together as a natural number, which is rounded once. The digits of the other radixes are
put together as doubles, and each step is rounded. Up to `2 ^ 53` such a step is exact, since the
radix is a power of two. The step that reaches `2 ^ 53` rounds the sum. In every later step the
product is exact, and the digit that is added is less than half a unit, so it is lost.

## Main definitions

- `kept`: what remains of a number when the digits that are lost are made zero
- `Misrounds`: the double nearest to what is kept is not the nearest one

## Main statements

- `accumulate_digit`: one step of the reading
- `floatOfDigits_eq`: the double nearest to what is kept is read
- `nearestDyadic_kept_iff`: where that is the nearest double
- `overflowing_literals_are_nearest`: what is read in every radix
-/

namespace ExprCore

/-- How many digits of a number are behind those with which `2 ^ 53` is reached. -/
def lostDigits (radix n : ℕ) : ℕ := Nat.log radix (n / 2 ^ 53)

/-- The number with these digits made zero. -/
def kept (radix n : ℕ) : ℕ := n / radix ^ lostDigits radix n * radix ^ lostDigits radix n

section Kept

variable {radix n d : ℕ}

theorem kept_of_lt (hn : n < 2 ^ 53 * radix) : kept radix n = n := by
  have hlost : lostDigits radix n = 0 := Nat.log_of_lt (Nat.div_lt_of_lt_mul hn)
  rw [kept, hlost, Nat.pow_zero, Nat.div_one, Nat.mul_one]

/-- A digit more is lost once `2 ^ 53` is reached. -/
theorem kept_digit (hradix : 1 < radix) (hn : 2 ^ 53 ≤ n) (hd : d < radix) :
    kept radix (n * radix + d) = kept radix n * radix := by
  have hquotient : (n * radix + d) / radix = n := by
    rw [Nat.mul_comm, Nat.mul_add_div (by omega), Nat.div_eq_of_lt hd, Nat.add_zero]
  have hle : radix ≤ (n * radix + d) / 2 ^ 53 := by
    rw [Nat.le_div_iff_mul_le (by decide), Nat.mul_comm]
    exact (Nat.mul_le_mul_right radix hn).trans (Nat.le_add_right _ d)
  have hlost : lostDigits radix (n * radix + d) = lostDigits radix n + 1 := by
    rw [lostDigits, Nat.log_of_one_lt_of_le hradix hle, Nat.div_div_eq_div_mul,
      Nat.mul_comm (2 ^ 53), ← Nat.div_div_eq_div_mul, hquotient, lostDigits]
  rw [kept, hlost, Nat.pow_succ', ← Nat.div_div_eq_div_mul, hquotient, kept, Nat.mul_comm radix,
    Nat.mul_assoc]

theorem le_kept (hradix : 1 < radix) (hn : 2 ^ 53 ≤ n) : 2 ^ 53 ≤ kept radix n := by
  have hpow : radix ^ lostDigits radix n ≤ n / 2 ^ 53 :=
    Nat.pow_log_le_self radix (Nat.div_pos hn (by decide)).ne'
  have hle : 2 ^ 53 ≤ n / radix ^ lostDigits radix n := by
    rw [Nat.le_div_iff_mul_le (Nat.pow_pos (by omega)), Nat.mul_comm]
    exact (Nat.mul_le_mul_right _ hpow).trans (Nat.div_mul_le_self n _)
  exact hle.trans (Nat.le_mul_of_pos_right _ (Nat.pow_pos (by omega)))

end Kept

section Steps

variable {x : Float} {m n k d e : ℕ}

theorem ofNat_digit (hd : d ≤ 16) : Float.ofNat d = Decimal.toFloat ⟨d, 0⟩ := by
  interval_cases d <;> rfl

theorem isNatural_digit (hd : 0 < d) (hd' : d ≤ 16) : IsNatural (Float.ofNat d) d := by
  have hx := isNatural_of_lt (k := 0) hd (by omega) (by decide)
  rw [Nat.pow_zero, Nat.mul_one, ← toFloat_natural hd, ← ofNat_digit hd'] at hx
  exact hx

theorem infinity_add_digit (hd : d ≤ 16) :
    Decimal.infinity + Float.ofNat d = Decimal.infinity := by
  by_cases hzero : d = 0
  · rw [hzero]
    exact infinity_add_zero
  · obtain ⟨_, _, hx, -⟩ := isNatural_digit (by omega) hd
    exact hx.infinity_add

theorem zero_add_digit (hd : d ≤ 16) : 0 + Float.ofNat d = Float.ofNat d := by
  by_cases hzero : d = 0
  · rw [hzero]
    rfl
  · obtain ⟨_, _, hx, -⟩ := isNatural_digit (by omega) hd
    exact hx.zero_add

/-- A power of two only moves the unit, also to infinity. -/
theorem floatOfUnits_mul (hlow : 2 ^ 52 ≤ m) (hhigh : m < 2 ^ 53)
    (hx : IsNatural x (2 ^ k)) : floatOfUnits e m * x = floatOfUnits (e + k : ℕ) m := by
  by_cases hlarge : 972 ≤ e
  · obtain ⟨_, _, hnormal, -⟩ := hx
    rw [floatOfUnits_eq_infinity (by omega) hlow, floatOfUnits_eq_infinity (by omega) hlow,
      hnormal.infinity_mul]
  · have hunits : IsNormal (floatOfUnits e m) m e := ⟨hlow, hhigh, by omega, by omega, rfl⟩
    have hpos : 0 < m := hunits.pos
    rw [hunits.isNatural.mul hx, Nat.mul_assoc, ← Nat.pow_add, nearestDyadic_mul_two_pow hpos,
      nearestDyadic_of_lt hlow hhigh, Int.zero_add]

/-- A digit that is less than half a unit is lost. -/
theorem floatOfUnits_add_digit (hlow : 2 ^ 52 ≤ m) (hhigh : m < 2 ^ 53) (hd : d ≤ 16)
    (hlost : 2 * d < 2 ^ e) : floatOfUnits e m + Float.ofNat d = floatOfUnits e m := by
  by_cases hlarge : 972 ≤ e
  · rw [floatOfUnits_eq_infinity (by omega) hlow, infinity_add_digit hd]
  have hunits : IsNormal (floatOfUnits e m) m e := ⟨hlow, hhigh, by omega, by omega, rfl⟩
  by_cases hzero : d = 0
  · rw [hzero]
    exact hunits.add_zero
  have hlog : m.log2 = 52 := (Nat.log2_eq_iff (by omega)).2 ⟨hlow, hhigh⟩
  have hunit : ((52 + e : ℕ) : ℤ) + 0 - 52 = e := by omega
  have hquotient : nearestQuotient (m * 2 ^ e + d) (2 ^ e) = m := by
    rw [nearestQuotient, Nat.mul_comm m, Nat.mul_add_div (Nat.two_pow_pos e), Nat.mul_add_mod,
      Nat.div_eq_of_lt (by omega), Nat.mod_eq_of_lt (by omega)]
    exact if_neg (by omega)
  have hlog' : (m * 2 ^ e + d).log2 = 52 + e := by
    rw [log2_mul_two_pow_add hunits.pos (by omega), hlog]
  rw [hunits.isNatural.add (isNatural_digit (by omega) hd), nearestDyadic_of_le_log2 (by omega),
    hlog', hunit, Nat.add_sub_cancel_left, hquotient]

/-- From `2 ^ 53` on the unit is at least two. -/
theorem exists_units (hn : 2 ^ 53 ≤ n) :
    ∃ m e : ℕ, 2 ^ 52 ≤ m ∧ m < 2 ^ 53 ∧ 1 ≤ e
      ∧ ∀ k : ℕ, nearestDyadic (n * 2 ^ k) 0 = floatOfUnits (e + k : ℕ) m := by
  have hlog : 53 ≤ n.log2 := (Nat.le_log2 (by omega)).2 hn
  obtain ⟨hlow, hhigh⟩ := nearestQuotient_bounds (m := n) (by omega)
  have hunits (k : ℕ) : nearestDyadic (n * 2 ^ k) 0
      = floatOfUnits (n.log2 - 52 + k : ℕ) (nearestQuotient n (2 ^ (n.log2 - 52))) := by
    rw [nearestDyadic_mul_two_pow (by omega), nearestDyadic_of_le_log2 (by omega)]
    congr 1
    omega
  by_cases hcarry : nearestQuotient n (2 ^ (n.log2 - 52)) = 2 ^ 53
  · refine ⟨2 ^ 52, n.log2 - 52 + 1, by decide, by decide, by omega, fun k => ?_⟩
    rw [hunits, hcarry, floatOfUnits_carry (by omega)]
    congr 1
    omega
  · exact ⟨_, _, hlow, by omega, by omega, hunits⟩

/-- Below `2 ^ 53` the product is exact, and the sum is rounded. -/
theorem accumulate_kept_digit (hk : 0 < k) (hk' : k ≤ 4) (hd : d < 2 ^ k) (hpos : 0 < n)
    (hlt : n < 2 ^ 53) :
    nearestDyadic n 0 * Float.ofNat (2 ^ k) + Float.ofNat d = nearestDyadic (n * 2 ^ k + d) 0 := by
  have hradix : 2 ^ k ≤ 16 := Nat.pow_le_pow_right (by decide) hk'
  have hx := isNatural_of_lt (k := 0) hpos hlt (by decide)
  rw [Nat.pow_zero, Nat.mul_one] at hx
  rw [hx.mul (isNatural_digit (Nat.two_pow_pos k) hradix)]
  have hproduct := isNatural_of_lt (k := k) hpos hlt (by omega)
  by_cases hzero : d = 0
  · obtain ⟨_, _, hnormal, -⟩ := hproduct
    rw [hzero]
    exact hnormal.add_zero
  · exact hproduct.add (isNatural_digit (by omega) (by omega))

/-- From `2 ^ 53` on the product is exact, and the digit is lost. -/
theorem accumulate_lost_digit (hk' : k ≤ 4) (hd : d < 2 ^ k) (hn : 2 ^ 53 ≤ n) :
    nearestDyadic n 0 * Float.ofNat (2 ^ k) + Float.ofNat d = nearestDyadic (n * 2 ^ k) 0 := by
  have hradix : 2 ^ k ≤ 16 := Nat.pow_le_pow_right (by decide) hk'
  obtain ⟨m, e, hlow, hhigh, he, hunits⟩ := exists_units hn
  have hfirst := hunits 0
  rw [Nat.pow_zero, Nat.mul_one, Nat.add_zero] at hfirst
  have hlost : 2 * d < 2 ^ (e + k) := by
    have hpow : 2 ^ (1 + k) ≤ 2 ^ (e + k) := Nat.pow_le_pow_right (by decide) (by omega)
    rw [Nat.pow_add] at hpow
    omega
  rw [hfirst, hunits k, floatOfUnits_mul hlow hhigh (isNatural_digit (Nat.two_pow_pos k) hradix),
    floatOfUnits_add_digit hlow hhigh (by omega) hlost]

/-- One step of the reading. -/
theorem accumulate_digit (hk : 0 < k) (hk' : k ≤ 4) (hd : d < 2 ^ k) (n : ℕ) :
    Decimal.toFloat ⟨kept (2 ^ k) n, 0⟩ * Float.ofNat (2 ^ k) + Float.ofNat d
      = Decimal.toFloat ⟨kept (2 ^ k) (n * 2 ^ k + d), 0⟩ := by
  have hone : 1 < 2 ^ k := Nat.one_lt_two_pow (by omega)
  by_cases hzero : n = 0
  · have hradix : 2 ^ k ≤ 16 := Nat.pow_le_pow_right (by decide) hk'
    obtain ⟨_, _, hnormal, -⟩ := isNatural_digit (Nat.two_pow_pos k) hradix
    have hfirst : Decimal.toFloat ⟨kept (2 ^ k) 0, 0⟩ = 0 := by
      rw [kept_of_lt (by omega)]
      rfl
    rw [hzero, hfirst, hnormal.zero_mul, zero_add_digit (by omega), ofNat_digit (by omega),
      Nat.zero_mul, Nat.zero_add, kept_of_lt (by omega)]
  by_cases hlt : n < 2 ^ 53
  · have hnext : n * 2 ^ k + d < 2 ^ 53 * 2 ^ k := by
      have hle : (n + 1) * 2 ^ k ≤ 2 ^ 53 * 2 ^ k := Nat.mul_le_mul_right _ hlt
      rw [Nat.add_mul] at hle
      omega
    have hpos : 0 < n * 2 ^ k := Nat.mul_pos (by omega) (by omega)
    rw [kept_of_lt (by omega), kept_of_lt hnext, toFloat_natural (by omega),
      toFloat_natural (by omega), accumulate_kept_digit hk hk' hd (by omega) hlt]
  · have hle := le_kept hone (Nat.le_of_not_lt hlt)
    rw [kept_digit hone (Nat.le_of_not_lt hlt) hd, toFloat_natural (by omega),
      toFloat_natural (Nat.mul_pos (by omega) (by omega)), accumulate_lost_digit hk' hd hle]

/-- What is read is the double nearest to what is kept. -/
theorem floatOfDigits_eq (hk : 0 < k) (hk' : k ≤ 4) {ds : List ℕ} (hds : ∀ d ∈ ds, d < 2 ^ k) :
    floatOfDigits (2 ^ k) ds = Decimal.toFloat ⟨kept (2 ^ k) (ofDigits (2 ^ k) ds), 0⟩ := by
  induction ds using List.reverseRecOn with
  | nil =>
    rw [ofDigits, List.foldl_nil, kept_of_lt (Nat.mul_pos (by decide) (Nat.two_pow_pos k))]
    rfl
  | append_singleton ds d ih =>
    rw [floatOfDigits, List.foldl_append, ofDigits_append]
    show floatOfDigits (2 ^ k) ds * Float.ofNat (2 ^ k) + Float.ofNat d = _
    rw [ih fun d hd => hds d (List.mem_append_left _ hd)]
    exact accumulate_digit hk hk' (hds d (List.mem_append_right _ (List.mem_singleton_self d))) _

end Steps

/-- The double nearest to what is kept is not the nearest one: what is kept lies half-way between
two doubles, of which the lower one is even, and what is lost is not zero. -/
structure Misrounds (radix n : ℕ) : Prop where
  finite : n.log2 < 1024
  half : 2 * (kept radix n % 2 ^ (n.log2 - 52)) = 2 ^ (n.log2 - 52)
  even : kept radix n / 2 ^ (n.log2 - 52) % 2 = 0
  lost : kept radix n < n

section Misrounding

variable {n k j u : ℕ}

/-- In a radix that is a power of two, whole bits are lost, and at least 54 remain. -/
theorem exists_lost_bits (k : ℕ) (hn : 2 ^ 53 ≤ n) :
    ∃ j, kept (2 ^ k) n = n / 2 ^ j * 2 ^ j ∧ 53 + j ≤ n.log2 := by
  refine ⟨k * lostDigits (2 ^ k) n, by rw [kept, Nat.pow_mul], ?_⟩
  have hpow : (2 ^ k) ^ lostDigits (2 ^ k) n ≤ n / 2 ^ 53 :=
    Nat.pow_log_le_self _ (Nat.div_pos hn (by decide)).ne'
  rw [Nat.le_log2 (by omega), Nat.pow_add, Nat.pow_mul, Nat.mul_comm]
  exact (Nat.le_div_iff_mul_le (by decide)).1 hpow

/-- What is lost matters only where the rest is one half. -/
theorem nearestQuotient_of_lost (hj : j < u) (n : ℕ) :
    nearestQuotient (n / 2 ^ j * 2 ^ j) (2 ^ u) = nearestQuotient n (2 ^ u)
      ↔ ¬(2 * (n / 2 ^ j * 2 ^ j % 2 ^ u) = 2 ^ u ∧ n / 2 ^ j * 2 ^ j / 2 ^ u % 2 = 0
        ∧ n / 2 ^ j * 2 ^ j < n) := by
  obtain ⟨i, rfl⟩ := Nat.exists_eq_add_of_lt hj
  have hunit : 2 ^ (j + i + 1) = 2 * 2 ^ i * 2 ^ j := by
    rw [Nat.pow_succ, Nat.pow_add]
    ring
  have hrest := Nat.mod_lt n (Nat.two_pow_pos j)
  have hsplit := Nat.div_add_mod n (2 ^ j)
  have hbelow : n / (2 * 2 ^ i * 2 ^ j) = n / 2 ^ j / (2 * 2 ^ i) := by
    rw [Nat.mul_comm, Nat.div_div_eq_div_mul]
  have hmod : n % (2 * 2 ^ i * 2 ^ j) = n % 2 ^ j + 2 ^ j * (n / 2 ^ j % (2 * 2 ^ i)) := by
    rw [Nat.mul_comm, Nat.mod_mul]
  rw [hunit, nearestQuotient, nearestQuotient, hbelow, hmod,
    Nat.mul_div_mul_right _ _ (Nat.two_pow_pos j), Nat.mul_mod_mul_right]
  generalize n / 2 ^ j = p at hsplit ⊢
  generalize n % 2 ^ j = lost at hrest hsplit ⊢
  generalize p / (2 * 2 ^ i) = below
  generalize p % (2 * 2 ^ i) = r
  generalize 2 ^ i = half
  generalize 2 ^ j = unit at hrest hsplit ⊢
  -- the rest of what is kept differs from one half by nothing or by more than what is lost
  have hwhere : r * unit + unit ≤ half * unit ∨ r * unit = half * unit
      ∨ half * unit + unit ≤ r * unit := by
    rcases Nat.lt_trichotomy r half with hlt | rfl | hgt
    · have hle : (r + 1) * unit ≤ half * unit := Nat.mul_le_mul_right _ hlt
      rw [Nat.add_mul, Nat.one_mul] at hle
      exact .inl hle
    · exact .inr (.inl rfl)
    · have hle : (half + 1) * unit ≤ r * unit := Nat.mul_le_mul_right _ hgt
      rw [Nat.add_mul, Nat.one_mul] at hle
      exact .inr (.inr hle)
  rw [Nat.mul_assoc 2 half unit, Nat.mul_comm unit r, Nat.mul_comm p unit]
  generalize half * unit = half at hwhere ⊢
  generalize r * unit = r at hwhere ⊢
  split
  · split <;> omega
  · split <;> omega

theorem floatOfUnits_inj {e : ℤ} {q q' : ℕ} (he : e ≤ 971) (hq : q ≤ 2 ^ 53) (hq' : q' ≤ 2 ^ 53) :
    floatOfUnits e q = floatOfUnits e q' ↔ q = q' := by
  rw [← Float.toBits_inj, ← UInt64.toNat_inj, toBits_floatOfUnits, toBits_floatOfUnits,
    infinityBits]
  omega

/-- The nearest doubles agree unless what is kept is misrounded. -/
theorem nearestDyadic_kept_iff (k : ℕ) (hn : 2 ^ 53 ≤ n) :
    nearestDyadic (kept (2 ^ k) n) 0 = nearestDyadic n 0 ↔ ¬Misrounds (2 ^ k) n := by
  obtain ⟨j, hkept, hj⟩ := exists_lost_bits k hn
  have hlog : (kept (2 ^ k) n).log2 = n.log2 := by
    have hpos : 0 < n / 2 ^ j :=
      Nat.div_pos ((Nat.le_log2 (by omega)).1 (by omega)) (Nat.two_pow_pos j)
    have hrest := Nat.mod_lt n (Nat.two_pow_pos j)
    rw [hkept, log2_mul_two_pow hpos, ← log2_mul_two_pow_add hpos hrest, Nat.div_add_mod']
  obtain ⟨hlow, hhigh⟩ := nearestQuotient_bounds (m := n) (by omega)
  obtain ⟨hlow', hhigh'⟩ := nearestQuotient_bounds (m := kept (2 ^ k) n) (by omega)
  rw [hlog] at hlow' hhigh'
  rw [nearestDyadic_of_le_log2 (by omega), nearestDyadic_of_le_log2 (by omega), hlog]
  by_cases hfinite : n.log2 < 1024
  · have hquotient := nearestQuotient_of_lost (j := j) (u := n.log2 - 52) (by omega) n
    rw [← hkept] at hquotient
    rw [floatOfUnits_inj (by omega) hhigh' hhigh, hquotient, not_iff_not]
    constructor
    · rintro ⟨hhalf, heven, hlost⟩
      exact ⟨hfinite, hhalf, heven, hlost⟩
    · intro h
      exact ⟨h.half, h.even, h.lost⟩
  · rw [floatOfUnits_eq_infinity (by omega) hlow, floatOfUnits_eq_infinity (by omega) hlow']
    exact iff_of_true rfl fun h => hfinite h.finite

end Misrounding

/-- A whole number that does not fit an integer is read as the nearest double where it is written in
decimal. Behind a mark each step of the reading is rounded: digits are exact up to the first that
makes the number reach `2 ^ 53`, that one is rounded in, and those behind it are lost. So the double
nearest to what is kept is read. It is the nearest one but for the numbers that this misrounds. -/
theorem overflowing_literals_are_nearest {n : ℕ} (hn : 2 ^ 63 ≤ n) :
    ∃ x, IsNearest n x
      ∧ ∀ (text : String) (form : IntegerForm) (ds : List ℕ), IntegerText text.toList form ds →
        Nat.ofDigits form.radix ds.reverse = n →
        (form = .decimal → parseInteger? text = some (.float x))
        ∧ (form ≠ .decimal → ∃ y, parseInteger? text = some (.float y)
          ∧ IsNearest (kept form.radix n) y ∧ (y = x ↔ ¬Misrounds form.radix n)) := by
  have hle : 2 ^ 53 ≤ n := by omega
  refine ⟨nearestDyadic n 0, isNearest_nearestDyadic hle, fun text form ds htext hvalue => ?_⟩
  rw [← ofDigits_eq] at hvalue
  rw [htext.parseInteger?_eq, numberOfDigits_of_lt (by omega), hvalue]
  constructor
  · rintro rfl
    rw [← toFloat_natural (by omega)]
    rfl
  · intro hform
    obtain ⟨k, hk, hk', hradix⟩ := IntegerForm.exists_radix_eq hform
    have hds := htext.lt_of_mem
    have hten : 2 ^ k ≠ 10 := by
      interval_cases k <;> decide
    rw [hradix] at hds hvalue ⊢
    have hkept : 2 ^ 53 ≤ kept (2 ^ k) n := le_kept (Nat.one_lt_two_pow (by omega)) hle
    refine ⟨nearestDyadic (kept (2 ^ k) n) 0, ?_, isNearest_nearestDyadic hkept,
      nearestDyadic_kept_iff k hle⟩
    rw [if_neg hten, floatOfDigits_eq hk hk' hds, hvalue, toFloat_natural (by omega)]

/-- The least number that does not fit an integer is the same double in decimal and in
hexadecimal. -/
theorem overflowing_literals_are_nearest_least :
    (2 : ℕ) ^ 63 ≤ 2 ^ 63 ∧ ∃ x, IsNearest (2 ^ 63) x
      ∧ parseInteger? "9223372036854775808" = some (.float x)
      ∧ parseInteger? "0x8000_0000_0000_0000" = some (.float x) := by
  have hdecimal : IntegerText "9223372036854775808".toList .decimal
      [9, 2, 2, 3, 3, 7, 2, 0, 3, 6, 8, 5, 4, 7, 7, 5, 8, 0, 8] :=
    .decimal (digitRun_of_digitRun? (by decide)) (by decide)
  have hrun : DigitRun 16 "8000_0000_0000_0000".toList (8 :: List.replicate 15 0) :=
    digitRun_of_digitRun? (by decide)
  have hmarked : IntegerText "0x8000_0000_0000_0000".toList (.hexadecimal false)
      (8 :: List.replicate 15 0) :=
    @IntegerText.marked (.hexadecimal false) _ _ (by decide) hrun
  obtain ⟨x, hx, hread⟩ := overflowing_literals_are_nearest (le_refl (2 ^ 63))
  obtain ⟨y, hy, -, hagree⟩ := (hread _ _ _ hmarked (by decide)).2 (by decide)
  have hkept : ¬Misrounds (IntegerForm.hexadecimal false).radix (2 ^ 63) := fun h =>
    absurd h.lost (by
      have hexact : kept 16 (2 ^ 63) = 2 ^ 63 := by
        decide +kernel
      exact hexact.not_lt)
  exact ⟨le_refl _, x, hx, (hread _ _ _ hdecimal (by decide)).1 rfl, by rw [hy, hagree.2 hkept]⟩

/-- `2 ^ 63 + 1025` lies above the middle between two doubles. In hexadecimal the middle is kept,
and the double below is read. -/
theorem overflowing_literals_misrounded :
    ∃ ds ds', IntegerText "9223372036854776833".toList .decimal ds
      ∧ Nat.ofDigits 10 ds.reverse = 9223372036854776833
      ∧ IntegerText "0x8000000000000401".toList (.hexadecimal false) ds'
      ∧ Nat.ofDigits 16 ds'.reverse = 9223372036854776833
      ∧ parseInteger? "9223372036854776833" = some (.float (Float.ofBits 0x43E0000000000001))
      ∧ parseInteger? "0x8000000000000401" = some (.float (Float.ofBits 0x43E0000000000000))
      ∧ Float.ofBits 0x43E0000000000001 ≠ Float.ofBits 0x43E0000000000000 := by
  have hdecimal : IntegerText "9223372036854776833".toList .decimal
      [9, 2, 2, 3, 3, 7, 2, 0, 3, 6, 8, 5, 4, 7, 7, 6, 8, 3, 3] :=
    .decimal (digitRun_of_digitRun? (by decide)) (by decide)
  have hrun : DigitRun 16 "8000000000000401".toList
      [8, 0, 0, 0, 0, 0, 0, 0, 0, 0, 0, 0, 0, 4, 0, 1] :=
    digitRun_of_digitRun? (by decide)
  have hmarked : IntegerText "0x8000000000000401".toList (.hexadecimal false) _ :=
    @IntegerText.marked (.hexadecimal false) _ _ (by decide) hrun
  refine ⟨_, _, hdecimal, by decide, hmarked, by decide, ?_, ?_, ?_⟩
  · rw [hdecimal.parseInteger?_eq, numberOfDigits_of_lt (by decide)]
    have hfloat : Decimal.toFloat ⟨9223372036854776833, 0⟩ = Float.ofBits 0x43E0000000000001 :=
      Float.toBits_inj.1 (by decide +kernel)
    exact congrArg (fun x => some (Literal.float x)) hfloat
  · rw [hmarked.parseInteger?_eq, numberOfDigits_of_lt (by decide)]
    exact congrArg (fun x => some (Literal.float x)) (Float.toBits_inj.1 (by decide +kernel))
  · rw [ne_eq, ← Float.toBits_inj]
    decide +kernel

end ExprCore
