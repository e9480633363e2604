import ExprCore.Case
import ExprCore.Number.Binary64
import ExprCore.Number.Decimal

/-!
# Literals

The constants behind the text of literals. Whole numbers are written in decimal, in hexadecimal
after `0x`, in binary after `0b`, and in octal after `0o` or after a bare `0`. A single `_` may
stand between two digits. A whole number that does not fit an integer becomes a double.

## Main definitions

- `Literal`: a constant
- `digitRun?`: the digits of a run with separators
- `parseInteger?`, `parseFloat?`, `parseBool?`: the constant of a text

## Main statements

- `digitRun?_ne_some_nil`: a run has at least one digit
- `lt_of_mem_digitRun?`: every digit is below the radix
-/

namespace ExprCore

/-- A constant that is written in the source. -/
inductive Literal where
  | int (value : Int64)
  | float (value : Float)
  | bool (value : Bool)

/-- The value of a character as a digit of a radix up to sixteen. Letters may have either case. -/
def digit? (radix : Nat) (c : Char) : Option Nat :=
  let value? : Option Nat :=
    if '0' ≤ c ∧ c ≤ '9' then some (c.toNat - '0'.toNat)
    else if 'a' ≤ c ∧ c ≤ 'f' then some (c.toNat - 'a'.toNat + 10)
    else if 'A' ≤ c ∧ c ≤ 'F' then some (c.toNat - 'A'.toNat + 10)
    else none
  value?.filter (· < radix)

/-- The digits of a run: one or more digits, with at most one `_` between neighbours. -/
def digitRun? (radix : Nat) : List Char → Option (List Nat)
  | [] => none
  | [c] => (digit? radix c).map ([·])
  | c :: '_' :: cs => do
    let d ← digit? radix c
    let ds ← digitRun? radix cs
    return d :: ds
  | c :: cs => do
    let d ← digit? radix c
    let ds ← digitRun? radix cs
    return d :: ds

/-- The number that digits spell in a radix, most significant digit first. -/
def ofDigits (radix : Nat) (digits : List Nat) : Nat :=
  digits.foldl (fun total d => total * radix + d) 0

/-- The double that digits spell when each step is rounded. -/
def floatOfDigits (radix : Nat) (digits : List Nat) : Float :=
  digits.foldl (fun total d => total * Float.ofNat radix + Float.ofNat d) 0

/-- The radix that the beginning of a whole number announces, and the text behind it. -/
def splitRadix : List Char → Nat × List Char
  | '0' :: 'x' :: cs | '0' :: 'X' :: cs => (16, cs)
  | '0' :: 'b' :: cs | '0' :: 'B' :: cs => (2, cs)
  | '0' :: 'o' :: cs | '0' :: 'O' :: cs => (8, cs)
  | '0' :: c :: cs => (8, c :: cs)
  | cs => (10, cs)

/-- The constant that digits spell: an integer if it fits, else a double. In radix ten the double
is the nearest one; in the other radixes each step of the reading is rounded. -/
def numberOfDigits (radix : Nat) (digits : List Nat) : Literal :=
  let total := ofDigits radix digits
  match integer? total with
  | some n => .int n
  | none =>
    if radix = 10 then .float (Decimal.toFloat ⟨total, 0⟩)
    else .float (floatOfDigits radix digits)

def parseInteger? (text : String) : Option Literal :=
  let (radix, body) := splitRadix text.toList
  (digitRun? radix body).map (numberOfDigits radix)

/-- The characters of a decimal run, well formed or not. -/
def isRunChar (c : Char) : Bool := c.isDigit || c == '_'

def optionalRun? (cs : List Char) : Option (List Nat) :=
  if cs.isEmpty then some [] else digitRun? 10 cs

/-- The power of ten at the end of a number: nothing, or `e` and a run that may have a sign. -/
def exponentPart? : List Char → Option Int
  | [] => some 0
  | c :: cs =>
    if c = 'e' ∨ c = 'E' then
      match cs with
      | '+' :: ds => (digitRun? 10 ds).map fun run => (ofDigits 10 run : Int)
      | '-' :: ds => (digitRun? 10 ds).map fun run => -(ofDigits 10 run : Int)
      | ds => (digitRun? 10 ds).map fun run => (ofDigits 10 run : Int)
    else none

/-- The decimal that a number with an optional point and exponent spells. At least one digit
stands before or behind the point. -/
def decimal? (cs : List Char) : Option Decimal := do
  let (whole, rest) := cs.span isRunChar
  let (fraction, rest) :=
    match rest with
    | '.' :: rest => rest.span isRunChar
    | rest => ([], rest)
  let whole ← optionalRun? whole
  let fraction ← optionalRun? fraction
  let digits := whole ++ fraction
  if digits.isEmpty then none
  else
    let exponent ← exponentPart? rest
    return ⟨ofDigits 10 digits, exponent - fraction.length⟩

def parseFloat? (text : String) : Option Float := (decimal? text.toList).map Decimal.toFloat

/-- The truth value that is spelled `true` or `false`, in any case. -/
def parseBool? (text : String) : Option Bool :=
  if equalIgnoringCase text "true" then some true
  else if equalIgnoringCase text "false" then some false
  else none

theorem lt_of_digit? {radix d : Nat} {c : Char} (h : digit? radix c = some d) : d < radix := by
  unfold digit? at h
  simpa using (Option.filter_eq_some_iff.1 h).2

/-- A run has at least one digit. -/
theorem digitRun?_ne_some_nil (radix : Nat) (cs : List Char) : digitRun? radix cs ≠ some [] := by
  fun_cases digitRun? radix cs <;> simp [Option.bind_eq_some_iff]

theorem lt_of_mem_digitRun? {radix : Nat} {cs : List Char} {ds : List Nat}
    (h : digitRun? radix cs = some ds) : ∀ d ∈ ds, d < radix := by
  fun_induction digitRun? radix cs generalizing ds with
  | case1 => cases h
  | case2 c =>
    obtain ⟨d, hd, rfl⟩ := Option.map_eq_some_iff.1 h
    simpa using lt_of_digit? hd
  | case3 c cs ih =>
    simp only [Option.bind_eq_bind, Option.bind_eq_some_iff, Option.pure_def] at h
    obtain ⟨d, hd, ds', hds, h⟩ := h
    cases h
    simpa using ⟨lt_of_digit? hd, ih hds⟩
  | case4 c cs _ _ ih =>
    simp only [Option.bind_eq_bind, Option.bind_eq_some_iff, Option.pure_def] at h
    obtain ⟨d, hd, ds', hds, h⟩ := h
    cases h
    simpa using ⟨lt_of_digit? hd, ih hds⟩

end ExprCore
