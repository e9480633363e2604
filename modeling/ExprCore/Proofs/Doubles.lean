import ExprCore.Value.Numeric
import Mathlib

/-!
# Doubles

What operators on values rely on when doubles are involved. A double is looked at in its unpacked
form, which says whether it is no number, an infinity, a zero, or a significand with an exponent.

An integer becomes a double by rounding its significand to 53 bits. What is packed into the bits of
a double reads back well enough for two facts: the double of an integer is a number, and it is zero
only for the integer zero.

## Main definitions

- `Unpacked.Fits`: the significand and the exponent are not out of range downwards

## Main statements

- `compareFloats?_swap`: comparing in the other order reverses the result
- `compareFloats?_eq_none_iff`: two doubles have no order exactly when one of them is no number
- `compareFloats?_self`: every other double is equal to itself
- `isNaN_integerToFloat`, `integerToFloat_ne_zero`: integers as doubles
-/

namespace ExprCore

open Float.Model (UnpackedFloat Format totalExponent)
open Float.Model.UnpackedFloat

namespace Unpacked

variable {f g : UnpackedFloat}

theorem compareParts_swap (e e' : Int) (m m' : Nat) :
    ((compare e e').then (compare m m')).swap = (compare e' e).then (compare m' m) := by
  rw [Ordering.swap_then, Int.compare_swap, Nat.compare_swap]

theorem compare_swap (f g : UnpackedFloat) : g.compare f = (f.compare g).map Ordering.swap := by
  rcases f with ⟨⟨⟩⟩ | _ | ⟨⟨⟩⟩ | ⟨⟨⟩, m, e, hm⟩ <;>
    rcases g with ⟨⟨⟩⟩ | _ | ⟨⟨⟩⟩ | ⟨⟨⟩, m', e', hm'⟩ <;>
    first
    | rfl
    | simp only [UnpackedFloat.compare, Option.map_some, compareParts_swap]

theorem compare_eq_none_iff : f.compare g = none ↔ f.isNaN = true ∨ g.isNaN = true := by
  rcases f with ⟨⟨⟩⟩ | _ | ⟨⟨⟩⟩ | ⟨⟨⟩, m, e, hm⟩ <;>
    rcases g with ⟨⟨⟩⟩ | _ | ⟨⟨⟩⟩ | ⟨⟨⟩, m', e', hm'⟩ <;>
    simp [UnpackedFloat.compare, isNaN]

theorem compare_self (h : f.isNaN = false) : f.compare f = some .eq := by
  cases f with
  | notANumber => cases h
  | infinity s => cases s <;> rfl
  | zero s => rfl
  | finite s m e hm => cases s <;> simp [UnpackedFloat.compare]

theorem eq_zero_of_compare_zero {s : Sign} (h : f.compare (.zero s) = some .eq) :
    ∃ s', f = .zero s' := by
  rcases f with ⟨⟨⟩⟩ | _ | s' | ⟨⟨⟩, m, e, hm⟩
  case zero => exact ⟨s', rfl⟩
  all_goals cases h

theorem isNaN_unpack_pack (f : UnpackedFloat) :
    (unpack Format.binary64 (pack Format.binary64 f)).isNaN = f.isNaN := by
  rw [Bool.eq_iff_iff, isNaN_unpack_iff_of_valid valid_pack]
  constructor
  · intro h
    have hbits : isNaNBits (pack Format.binary64 f) := h ▸ isNaNBits_packedNaN
    rw [isNaNBits, decide_eq_true_iff] at hbits
    cases f with
    | notANumber => rfl
    | infinity s => simp [pack, packedInfinity] at hbits
    | zero s => simp [pack, packedZero] at hbits
    | finite s m e hm =>
      simp only [pack] at hbits
      split at hbits
      · simp [packedInfinity] at hbits
      · rename_i hsmall
        split at hbits
        · -- the exponent of a normal number is not the greatest one
          rw [unpackExponent_packComponents, ← BitVec.toNat_inj, BitVec.toNat_ofNat] at hbits
          have hgreatest : (-1#11).toNat = 2 ^ 11 - 1 := rfl
          have hexponent := hbits.1
          rw [hgreatest, Nat.mod_eq_of_lt (by omega)] at hexponent
          omega
        · simp at hbits
  · intro h
    rw [isNaN_iff.1 h, pack]

/-- The significand has at most 53 bits, and the exponent is at least that of the least double. -/
def Fits : UnpackedFloat → Prop
  | .finite _ m e _ => m < 2 ^ 53 ∧ -1074 ≤ e
  | _ => True

theorem Fits.neg (h : Fits f) : Fits f.neg := by
  cases f <;> exact h

/-- Whatever the bits are, what they stand for fits. -/
theorem fits_unpack (b : BitVec Format.binary64.numBits) : Fits (unpack Format.binary64 b) := by
  have hbias : (Format.binary64.exponentBias : Int) = 1023 := rfl
  unfold unpack
  dsimp only
  split
  · split <;> trivial
  · split
    · split
      · trivial
      · have hmantissa : (unpackMantissa b).toNat < 2 ^ 52 := (unpackMantissa b).isLt
        exact ⟨by omega, by omega⟩
    · rename_i hne
      have hexponent : 0 < (unpackExponent b).toNat := by
        rw [BitVec.toNat_pos, BitVec.pos_iff_ne_zero]
        exact hne
      exact ⟨(1#1 ++ unpackMantissa b).isLt, by omega⟩

/-- What fits does not become zero when it is packed. -/
theorem Fits.unpack_pack_ne_zero (hfits : Fits f) (hf : ∀ s, f ≠ .zero s) (s : Sign) :
    unpack Format.binary64 (pack Format.binary64 f) ≠ .zero s := by
  intro h
  have hpacked := (unpack_eq_zero_iff_of_valid valid_pack).1 h
  have hexponent : unpackExponent (pack Format.binary64 f) = 0#_ := by
    rw [hpacked, packedZero, unpackExponent_packComponents]
    rfl
  have hmantissa : unpackMantissa (pack Format.binary64 f) = 0#_ := by
    rw [hpacked, packedZero, unpackMantissa_packComponents]
    rfl
  cases f with
  | notANumber => simp [pack, packedNaN] at hexponent
  | infinity s => simp [pack, packedInfinity] at hexponent
  | zero s => exact hf s rfl
  | finite s m e hm =>
    obtain ⟨hlt, he⟩ := hfits
    have hbias : (Format.binary64.exponentBias : Int) = 1023 := rfl
    have hbits : Format.binary64.mantissaBits = 53 := rfl
    simp only [pack, hbits] at hexponent hmantissa
    generalize hbiased : (e + (Format.binary64.exponentBias : Int) + (52 : Nat)).toNat = biased
      at hexponent hmantissa
    by_cases hgreat : 2 ^ 11 ≤ biased + 1
    · rw [if_pos hgreat] at hexponent
      simp [packedInfinity] at hexponent
    rw [if_neg hgreat] at hexponent hmantissa
    by_cases hnormal : m.log2 + 1 = 53
    · rw [if_pos hnormal, unpackExponent_packComponents, ← BitVec.toNat_inj] at hexponent
      have hzero : biased % 2 ^ 11 = 0 := hexponent
      omega
    · rw [if_neg hnormal, unpackMantissa_packComponents, ← BitVec.toNat_inj] at hmantissa
      have hzero : m % 2 ^ 52 = 0 := hmantissa
      have hlog : m.log2 < 53 := (Nat.log2_lt (Nat.ne_of_gt hm)).2 hlt
      have hsmall : m < 2 ^ 52 := (Nat.log2_lt (Nat.ne_of_gt hm)).1 (by omega)
      omega

theorem mantissa_shiftRight (em : ExtendedMantissa) (n : Nat) :
    (em >>> n).mantissa = em.mantissa / 2 ^ n := by
  show (n.repeat ExtendedMantissa.shiftRightOne em).mantissa = _
  induction n with
  | zero => simp [Nat.repeat]
  | succ n ih =>
    rw [Nat.repeat, ExtendedMantissa.shiftRightOne]
    show (n.repeat ExtendedMantissa.shiftRightOne em).mantissa / 2 = _
    rw [ih, Nat.div_div_eq_div_mul, Nat.pow_succ]

theorem le_roundedMantissa (em : ExtendedMantissa) : em.mantissa ≤ em.roundedMantissa := by
  obtain ⟨m, _ | _, _ | _⟩ := em <;>
    simp [ExtendedMantissa.roundedMantissa, ExtendedMantissa.accuracy, Accuracy.roundToNearestEven]

/-- Of a positive significand the leading bits are kept, and no more than 53 of them. -/
theorem shiftToTargetExponent_fits {m : Nat} {e : Int} (hm : 0 < m) (he : -1074 ≤ e)
    (accuracy : Accuracy) :
    0 < (shiftToTargetExponent Format.binary64 m e accuracy).1.mantissa
      ∧ (shiftToTargetExponent Format.binary64 m e accuracy).1.mantissa < 2 ^ 53
      ∧ -1074 ≤ (shiftToTargetExponent Format.binary64 m e accuracy).2 := by
  have hmin : Format.binary64.minExponent = -1074 := rfl
  have hbits : (Format.binary64.mantissaBits : Int) = 53 := rfl
  have hinit : (ExtendedMantissa.ofMantissaAndAccuracy m accuracy).mantissa = m := by
    rcases accuracy with _ | ⟨_ | _ | _⟩ <;> rfl
  simp only [shiftToTargetExponent, shiftToExponent, Format.targetExponent, totalExponent, hmin,
    hbits, mantissa_shiftRight, hinit]
  generalize hk : (max ((m.log2 : Int) + 1 + e - 53) (-1074) - e).toNat = k
  have hkept : k ≤ m.log2 := by omega
  have hdropped : m.log2 < k + 53 := by omega
  refine ⟨?_, ?_, by omega⟩
  · have hpow : 2 ^ k ≤ m := (Nat.le_log2 (Nat.ne_of_gt hm)).1 hkept
    exact Nat.div_pos hpow (Nat.two_pow_pos k)
  · rw [Nat.div_lt_iff_lt_mul (Nat.two_pow_pos k), ← Nat.pow_add, Nat.add_comm]
    exact (Nat.log2_lt (Nat.ne_of_gt hm)).1 hdropped

theorem roundWithAccuracy_fits {m : Nat} {e : Int} (hm : 0 < m) (he : -1074 ≤ e) (s : Sign)
    (accuracy : Accuracy) :
    Fits (roundWithAccuracy Format.binary64 s m e accuracy)
      ∧ ∀ s', roundWithAccuracy Format.binary64 s m e accuracy ≠ .zero s' := by
  obtain ⟨hpos, -, hfirst⟩ := shiftToTargetExponent_fits hm he accuracy
  have hrounded := Nat.lt_of_lt_of_le hpos (le_roundedMantissa _)
  -- rounding up may need one more bit, which is shifted out again
  obtain ⟨hpos, hlast⟩ := shiftToTargetExponent_fits hrounded hfirst .exact
  simp only [roundWithAccuracy, dif_neg (Nat.ne_of_gt hpos)]
  exact ⟨hlast, fun s' h => by cases h⟩

theorem round_fits {m : Nat} (hm : 0 < m) (s : Sign) :
    Fits (UnpackedFloat.round Format.binary64 s m 0)
      ∧ ∀ s', UnpackedFloat.round Format.binary64 s m 0 ≠ .zero s' := by
  have hmin : Format.binary64.minExponent = -1074 := rfl
  have hshifted : 0 < m <<< (0 - Format.binary64.targetExponent (totalExponent m 0)).toNat := by
    rw [Nat.shiftLeft_eq]
    exact Nat.mul_pos hm (Nat.two_pow_pos _)
  refine roundWithAccuracy_fits hshifted ?_ s .exact
  simp only [Format.targetExponent, hmin]
  omega

theorem isNaN_round (s : Sign) (m : Nat) (e : Int) :
    (UnpackedFloat.round Format.binary64 s m e).isNaN = false := by
  unfold UnpackedFloat.round roundWithAccuracy
  dsimp only
  split <;> rfl

theorem isNaN_ofNat (n : Nat) : (ofNat Format.binary64 n).isNaN = false := by
  unfold ofNat ofInt UnpackedFloat.normalize
  split
  · exact isNaN_round _ _ _
  · rfl
  · exact isNaN_round _ _ _

theorem ofNat_fits {n : Nat} (hn : 0 < n) :
    Fits (ofNat Format.binary64 n) ∧ ∀ s, ofNat Format.binary64 n ≠ .zero s := by
  have hcompare : compare (n : Int) 0 = .gt := Int.compare_eq_gt.2 (by omega)
  simp only [ofNat, ofInt, UnpackedFloat.normalize, hcompare, Int.toNat_natCast]
  exact round_fits hn .positive

end Unpacked

open Unpacked

theorem compareFloats?_eq_compare (a b : Float) :
    compareFloats? a b = a.toModel.unpack.compare b.toModel.unpack := by
  have hlt (a b : Float) : a < b ↔ a.toModel.unpack.compare b.toModel.unpack = some .lt := by
    show decide (Float.Model.lt _ _ = true) = true ↔ _
    rw [decide_eq_true_iff, Float.Model.lt, UnpackedFloat.lt, beq_iff_eq]
  have heq : (a == b) = true ↔ a.toModel.unpack.compare b.toModel.unpack = some .eq := by
    show UnpackedFloat.beq _ _ = true ↔ _
    rw [UnpackedFloat.beq, beq_iff_eq]
  have hswap := Unpacked.compare_swap a.toModel.unpack b.toModel.unpack
  unfold compareFloats?
  simp only [hlt, heq, hswap]
  cases a.toModel.unpack.compare b.toModel.unpack with
  | none => rfl
  | some order => cases order <;> rfl

/-- Comparing in the other order reverses the result. -/
theorem compareFloats?_swap (a b : Float) :
    compareFloats? b a = (compareFloats? a b).map Ordering.swap := by
  rw [compareFloats?_eq_compare, compareFloats?_eq_compare, Unpacked.compare_swap]

/-- Two doubles have no order exactly when one of them is no number. -/
theorem compareFloats?_eq_none_iff {a b : Float} :
    compareFloats? a b = none ↔ a.isNaN = true ∨ b.isNaN = true := by
  rw [compareFloats?_eq_compare, Unpacked.compare_eq_none_iff]
  rfl

theorem compareFloats?_self {a : Float} (h : a.isNaN = false) :
    compareFloats? a a = some .eq := by
  rw [compareFloats?_eq_compare]
  exact Unpacked.compare_self h

theorem isNaN_neg (x : Float) : (-x).isNaN = x.isNaN := by
  show (unpack _ (pack _ x.toModel.unpack.neg)).isNaN = x.toModel.unpack.isNaN
  rw [isNaN_unpack_pack]
  cases x.toModel.unpack <;> rfl

/-- The double of an integer is a number. -/
theorem isNaN_integerToFloat (n : Int64) : (integerToFloat n).isNaN = false := by
  have hmagnitude (k : UInt64) : k.toFloat.isNaN = false :=
    (isNaN_unpack_pack _).trans (isNaN_ofNat _)
  unfold integerToFloat
  dsimp only
  split
  · rw [isNaN_neg, hmagnitude]
  · exact hmagnitude _

/-- The double of an integer is zero only for zero. -/
theorem integerToFloat_ne_zero {n : Int64} (h : n ≠ 0) : (integerToFloat n == 0) = false := by
  have hpos : 0 < n.toInt.natAbs.toUInt64.toNat := by
    have hne : n.toInt ≠ 0 := fun hzero => h (Int64.toInt_inj.1 hzero)
    have hlo := n.le_toInt
    have hhi := n.toInt_lt
    show 0 < n.toInt.natAbs % 2 ^ 64
    omega
  obtain ⟨hfits, hne⟩ := ofNat_fits hpos
  have hmagnitude (s : Sign) : n.toInt.natAbs.toUInt64.toFloat.toModel.unpack ≠ .zero s :=
    hfits.unpack_pack_ne_zero hne s
  have hunpacked (s : Sign) : (integerToFloat n).toModel.unpack ≠ .zero s := by
    unfold integerToFloat
    dsimp only
    split
    · refine (fits_unpack _).neg.unpack_pack_ne_zero (fun s' hzero => ?_) s
      cases hunpack : n.toInt.natAbs.toUInt64.toFloat.toModel.unpack with
      | zero s => exact hmagnitude s hunpack
      | _ =>
        rw [Float.Model.unpack] at hunpack
        rw [hunpack] at hzero
        cases hzero
    · exact hmagnitude s
  rw [Bool.eq_false_iff]
  intro hequal
  have hcompare : (integerToFloat n).toModel.unpack.compare (.zero .positive) = some .eq :=
    beq_iff_eq.1 hequal
  obtain ⟨s, hs⟩ := eq_zero_of_compare_zero hcompare
  exact hunpacked s hs

end ExprCore
