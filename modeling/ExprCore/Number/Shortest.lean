import ExprCore.Number.Binary64
import ExprCore.Number.Decimal

/-!
# Shortest decimals

The decimal with the fewest digits that reads back as a given double. The exact value of a finite
double is itself a decimal; cutting that decimal after fewer and fewer digits gives two neighbours
for each number of digits, and the first neighbours that read back are taken.

## Main definitions

- `BinaryDecimal`: the exact decimal value of a double with the distance to the next double
- `BinaryDecimal.ReadsBack`: the decimals that round to the double
- `BinaryDecimal.shortest`: of those the one with the fewest digits
- `floatText`: the text of a double, written without an exponent

## Main statements

- `BinaryDecimal.readsBack_shortest`: the decimal that is selected reads back
-/

namespace ExprCore

/-- A positive double `significand · 2 ^ exponent` on a decimal grid: it is `significand · unit`
steps of size `10 ^ exponent`, and the next double is `unit` steps away. -/
structure BinaryDecimal where
  /-- The significand of the double. -/
  significand : Nat
  /-- The distance to the next double above, in grid steps. -/
  unit : Nat
  exponent : Int
  /-- Whether the next double below is only half as far away, as it is at a power of two. -/
  narrow : Bool
deriving DecidableEq, Repr

namespace BinaryDecimal

/-- A power of two is a power of five on the decimal grid of the same exponent. -/
def ofParts (significand : Nat) (exponent : Int) : BinaryDecimal where
  significand := significand
  unit := Nat.pow 2 exponent.toNat * Nat.pow 5 (-exponent).toNat
  exponent := min exponent 0
  narrow := decide (significand = Nat.pow 2 52 ∧ -1074 < exponent)

def value (x : BinaryDecimal) : Nat := x.significand * x.unit

/-- The numbers of grid steps that round to the double: those up to half the distance to its
neighbours. The ends belong to the double if its significand is even. -/
def ReadsBack (x : BinaryDecimal) (steps : Nat) : Prop :=
  let low := 4 * x.value - (if x.narrow then x.unit else 2 * x.unit)
  let high := 4 * x.value + 2 * x.unit
  if x.significand % 2 = 0 then low ≤ 4 * steps ∧ 4 * steps ≤ high
  else low < 4 * steps ∧ 4 * steps < high

instance (x : BinaryDecimal) (steps : Nat) : Decidable (x.ReadsBack steps) := by
  unfold ReadsBack
  infer_instance

/-- The neighbour of the double among the multiples of `10 ^ places` that reads back. Of two, the
nearer is taken, and of two that are equally near the greater. -/
def neighbour? (x : BinaryDecimal) (places : Nat) : Option Nat :=
  let scale := Nat.pow 10 places
  let below := x.value / scale
  let above := below + 1
  if x.ReadsBack (below * scale) then
    if x.ReadsBack (above * scale) ∧ (below + above) * scale ≤ 2 * x.value then some above
    else some below
  else if x.ReadsBack (above * scale) then some above
  else none

/-- The coarsest grid with a neighbour that reads back, from `10 ^ places` downwards. The finest
grid holds the double itself. -/
def search (x : BinaryDecimal) : Nat → Decimal
  | 0 => ⟨x.value, x.exponent⟩
  | places + 1 =>
    match x.neighbour? (places + 1) with
    | some digits => ⟨digits, x.exponent + (places + 1)⟩
    | none => search x places

/-- The decimal with the fewest digits that reads back as the double. The first grid is that of
the leading digit. -/
def shortest (x : BinaryDecimal) : Decimal := x.search (digitCount x.value - 1)

theorem readsBack_of_neighbour? {x : BinaryDecimal} {places digits : Nat}
    (h : x.neighbour? places = some digits) : x.ReadsBack (digits * Nat.pow 10 places) := by
  unfold neighbour? at h
  dsimp only at h
  split at h
  · split at h
    · rename_i hboth
      cases h
      exact hboth.1
    · rename_i hbelow _
      cases h
      exact hbelow
  · split at h
    · rename_i habove
      cases h
      exact habove
    · cases h

theorem readsBack_value {x : BinaryDecimal} (hs : 0 < x.significand) (hu : 0 < x.unit) :
    x.ReadsBack x.value := by
  have hv : 0 < x.value := Nat.mul_pos hs hu
  unfold ReadsBack
  dsimp only
  split <;> split <;> omega

/-- The decimal that is selected reads back, whatever grid the search starts with. -/
theorem readsBack_search {x : BinaryDecimal} (hs : 0 < x.significand) (hu : 0 < x.unit)
    (places : Nat) :
    ∃ shift : Nat, (x.search places).exponent = x.exponent + shift ∧
      x.ReadsBack ((x.search places).digits * Nat.pow 10 shift) := by
  induction places with
  | zero => exact ⟨0, by simp [search], by simpa [search] using readsBack_value hs hu⟩
  | succ places ih =>
    unfold search
    split
    · rename_i digits h
      exact ⟨places + 1, by simp, readsBack_of_neighbour? h⟩
    · exact ih

/-- The decimal that is selected reads back. -/
theorem readsBack_shortest {x : BinaryDecimal} (hs : 0 < x.significand) (hu : 0 < x.unit) :
    ∃ shift : Nat, x.shortest.exponent = x.exponent + shift ∧
      x.ReadsBack (x.shortest.digits * Nat.pow 10 shift) :=
  readsBack_search hs hu _

end BinaryDecimal

namespace Decimal

/-- The decimal written in full, without an exponent, without a point behind a whole number and
without zeros at the end of a fraction. -/
def positional (d : Decimal) : String :=
  let digits := Nat.toDigits 10 d.digits
  if 0 ≤ d.exponent then String.ofList (digits ++ List.replicate d.exponent.toNat '0')
  else
    let places := (-d.exponent).toNat
    let padded := List.replicate (places + 1 - digits.length) '0' ++ digits
    let whole := padded.take (padded.length - places)
    let fraction := padded.drop (padded.length - places)
    let kept := (fraction.reverse.dropWhile (· == '0')).reverse
    if kept.isEmpty then String.ofList whole
    else String.ofList (whole ++ '.' :: kept)

end Decimal

/-- The text of a double: the fewest digits that read back, written without an exponent. Zero
keeps its sign. -/
def floatText (x : Float) : String :=
  match Binary64.ofFloat x with
  | .nan => "NaN"
  | .infinite negative => if negative then "-inf" else "inf"
  | .finite negative significand exponent =>
    let sign := if negative then "-" else ""
    if significand = 0 then sign ++ "0"
    else sign ++ (BinaryDecimal.ofParts significand exponent).shortest.positional

end ExprCore
