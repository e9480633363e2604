import ExprCore.Literal
import Mathlib.Data.Nat.Digits.Lemmas
import Mathlib.Tactic.IntervalCases

/-!
# Texts of whole numbers

The grammar of whole numbers, stated apart from the reader: a run is a sequence of digits with at
most one `_` between neighbours, and a text is `0`, a decimal run that does not begin with `0`, or a
mark with a run behind it. The reader accepts exactly these texts. It never wraps: what the digits
spell is the integer that is read where it is one, and otherwise a double is read.

## Main definitions

- `SpellsDigit`: the characters of a digit
- `DigitRun`: the runs of digits with separators
- `IntegerForm`: the forms of whole numbers, with their marks and radixes
- `IntegerText`: the texts of whole numbers
- `numeral`: the digits of a number without leading zeros

## Main statements

- `digitRun?_eq_some_iff`: the runs that are read
- `IntegerText.parseInteger?_eq`, `IntegerText.exists_of_parseInteger?`: the texts that are read
- `numberOfDigits_of_le`, `numberOfDigits_of_lt`: where an integer is read, and where a double
- `integer_literals_are_exact`: what is read off every text
-/

namespace ExprCore

/-- The character spells the digit. From ten on a digit is a letter, in either case. -/
def SpellsDigit (c : Char) (d : ℕ) : Prop :=
  "0123456789abcdef".toList[d]? = some c ∨ "0123456789ABCDEF".toList[d]? = some c

instance (c : Char) (d : ℕ) : Decidable (SpellsDigit c d) := inferInstanceAs (Decidable (_ ∨ _))

/-- A run of digits of a radix with the digits that it spells. Between two neighbours a single `_`
may stand. -/
inductive DigitRun (radix : ℕ) : List Char → List ℕ → Prop
  | single {c : Char} {d : ℕ} : SpellsDigit c d → d < radix → DigitRun radix [c] [d]
  | next {c : Char} {d : ℕ} {cs : List Char} {ds : List ℕ} : SpellsDigit c d → d < radix →
      DigitRun radix cs ds → DigitRun radix (c :: cs) (d :: ds)
  | separated {c : Char} {d : ℕ} {cs : List Char} {ds : List ℕ} : SpellsDigit c d → d < radix →
      DigitRun radix cs ds → DigitRun radix (c :: '_' :: cs) (d :: ds)

/-- The forms of whole numbers. The letter of a mark may have either case. -/
inductive IntegerForm where
  | decimal
  | hexadecimal (capital : Bool)
  | binary (capital : Bool)
  | octal (capital : Bool)
  /-- Octal behind a bare `0`. -/
  | bareOctal
deriving DecidableEq

namespace IntegerForm

/-- What stands in front of the digits. -/
def mark : IntegerForm → List Char
  | decimal => []
  | hexadecimal capital => ['0', if capital then 'X' else 'x']
  | binary capital => ['0', if capital then 'B' else 'b']
  | octal capital => ['0', if capital then 'O' else 'o']
  | bareOctal => ['0']

def radix : IntegerForm → ℕ
  | decimal => 10
  | hexadecimal _ => 16
  | binary _ => 2
  | octal _ | bareOctal => 8

theorem one_lt_radix (form : IntegerForm) : 1 < form.radix := by
  cases form <;> simp [radix]

theorem radix_le (form : IntegerForm) : form.radix ≤ 16 := by
  cases form <;> simp [radix]

/-- Behind a mark the radix is a power of two. -/
theorem exists_radix_eq {form : IntegerForm} (h : form ≠ .decimal) :
    ∃ k, 0 < k ∧ k ≤ 4 ∧ form.radix = 2 ^ k := by
  cases form with
  | decimal => exact absurd rfl h
  | hexadecimal _ => exact ⟨4, by decide, by decide, rfl⟩
  | binary _ => exact ⟨1, by decide, by decide, rfl⟩
  | octal _ => exact ⟨3, by decide, by decide, rfl⟩
  | bareOctal => exact ⟨3, by decide, by decide, rfl⟩

end IntegerForm

/-- The texts of whole numbers, with their form and their digits. -/
inductive IntegerText : List Char → IntegerForm → List ℕ → Prop
  | zero : IntegerText ['0'] .decimal [0]
  | decimal {cs : List Char} {ds : List ℕ} : DigitRun 10 cs ds → cs.head? ≠ some '0' →
      IntegerText cs .decimal ds
  | marked {form : IntegerForm} {body : List Char} {ds : List ℕ} : form ≠ .decimal →
      DigitRun form.radix body ds → IntegerText (form.mark ++ body) form ds

/-- The digits of a number in a radix, most significant digit first and without leading zeros. -/
def numeral (radix n : ℕ) : List ℕ := if n = 0 then [0] else (Nat.digits radix n).reverse

section Digits

variable {c : Char} {d radix : ℕ}

theorem eq_ofNat_of_le {low high : Char} (hlow : low ≤ c) (hhigh : c ≤ high) :
    ∃ n, low.toNat ≤ n ∧ n ≤ high.toNat ∧ c = Char.ofNat n :=
  ⟨c.toNat, hlow, hhigh, (Char.ofNat_toNat c).symm⟩

theorem spellsDigit_of_digit? (h : digit? radix c = some d) : SpellsDigit c d := by
  unfold digit? at h
  replace h := (Option.filter_eq_some_iff.1 h).1
  split at h
  · rename_i hc
    obtain ⟨n, hlow, hhigh, rfl⟩ := eq_ofNat_of_le hc.1 hc.2
    cases h
    change 48 ≤ n at hlow
    change n ≤ 57 at hhigh
    interval_cases n <;> decide
  · split at h
    · rename_i hc
      obtain ⟨n, hlow, hhigh, rfl⟩ := eq_ofNat_of_le hc.1 hc.2
      cases h
      change 97 ≤ n at hlow
      change n ≤ 102 at hhigh
      interval_cases n <;> decide
    · split at h
      · rename_i hc
        obtain ⟨n, hlow, hhigh, rfl⟩ := eq_ofNat_of_le hc.1 hc.2
        cases h
        change 65 ≤ n at hlow
        change n ≤ 70 at hhigh
        interval_cases n <;> decide
      · cases h

theorem SpellsDigit.lt (h : SpellsDigit c d) : d < 16 := by
  rcases h with h | h
  · exact (List.getElem?_eq_some_iff.1 h).1
  · exact (List.getElem?_eq_some_iff.1 h).1

theorem digit?_of_spellsDigit (h : SpellsDigit c d) (hd : d < radix) :
    digit? radix c = some d := by
  have hlt := h.lt
  unfold digit?
  rw [Option.filter_eq_some_iff]
  refine ⟨?_, by simpa using hd⟩
  rcases h with h | h
  · interval_cases d <;> cases h <;> decide
  · interval_cases d <;> cases h <;> decide

/-- The characters that are read as a digit of a radix. -/
theorem digit?_eq_some_iff : digit? radix c = some d ↔ SpellsDigit c d ∧ d < radix :=
  ⟨fun h => ⟨spellsDigit_of_digit? h, lt_of_digit? h⟩, fun h => digit?_of_spellsDigit h.1 h.2⟩

end Digits

namespace DigitRun

variable {radix : ℕ} {cs : List Char} {ds : List ℕ}

/-- A run begins with a character of its first digit. -/
theorem exists_head (h : DigitRun radix cs ds) :
    ∃ c d, cs.head? = some c ∧ ds.head? = some d ∧ SpellsDigit c d ∧ d < radix := by
  rcases h with ⟨hc, hd⟩ | ⟨hc, hd, -⟩ | ⟨hc, hd, -⟩
  all_goals exact ⟨_, _, rfl, rfl, hc, hd⟩

theorem head?_ne_underscore (h : DigitRun radix cs ds) : cs.head? ≠ some '_' := by
  obtain ⟨c, d, hhead, -, hc, -⟩ := h.exists_head
  have hlt := hc.lt
  rw [hhead]
  rintro ⟨⟩
  interval_cases d <;> revert hc <;> decide

theorem digitRun?_eq (h : DigitRun radix cs ds) : digitRun? radix cs = some ds := by
  induction h with
  | single hc hd => rw [digitRun?, digit?_of_spellsDigit hc hd, Option.map_some]
  | @next c d cs ds hc hd hrun ih =>
    have hhead := hrun.head?_ne_underscore
    rw [digitRun?]
    · rw [digit?_of_spellsDigit hc hd, ih]
      rfl
    · rintro rfl
      cases hrun
    · rintro cs' rfl
      exact hhead rfl
  | separated hc hd _ ih =>
    rw [digitRun?, digit?_of_spellsDigit hc hd, ih]
    rfl

/-- A digit more at the end of a run. -/
theorem concat {c : Char} {d : ℕ} (h : DigitRun radix cs ds) (hc : SpellsDigit c d)
    (hd : d < radix) : DigitRun radix (cs ++ [c]) (ds ++ [d]) := by
  induction h with
  | single hfirst hlt => exact .next hfirst hlt (.single hc hd)
  | next hfirst hlt _ ih => exact .next hfirst hlt ih
  | separated hfirst hlt _ ih => exact .separated hfirst hlt ih

end DigitRun

theorem digitRun_of_digitRun? {radix : ℕ} {cs : List Char} {ds : List ℕ}
    (h : digitRun? radix cs = some ds) : DigitRun radix cs ds := by
  fun_induction digitRun? radix cs generalizing ds with
  | case1 => cases h
  | case2 c =>
    obtain ⟨d, hd, rfl⟩ := Option.map_eq_some_iff.1 h
    exact .single (spellsDigit_of_digit? hd) (lt_of_digit? hd)
  | case3 c cs ih =>
    simp only [Option.bind_eq_bind, Option.bind_eq_some_iff, Option.pure_def] at h
    obtain ⟨d, hd, ds', hds, h⟩ := h
    cases h
    exact .separated (spellsDigit_of_digit? hd) (lt_of_digit? hd) (ih hds)
  | case4 c cs _ _ ih =>
    simp only [Option.bind_eq_bind, Option.bind_eq_some_iff, Option.pure_def] at h
    obtain ⟨d, hd, ds', hds, h⟩ := h
    cases h
    exact .next (spellsDigit_of_digit? hd) (lt_of_digit? hd) (ih hds)

/-- The reader takes exactly the runs. -/
theorem digitRun?_eq_some_iff {radix : ℕ} {cs : List Char} {ds : List ℕ} :
    digitRun? radix cs = some ds ↔ DigitRun radix cs ds :=
  ⟨digitRun_of_digitRun?, DigitRun.digitRun?_eq⟩

namespace IntegerText

variable {cs : List Char} {form : IntegerForm} {ds : List ℕ}

theorem splitRadix_of_head?_ne (h : cs.head? ≠ some '0') : splitRadix cs = (10, cs) := by
  fun_cases splitRadix cs
  case case8 => rfl
  all_goals exact absurd rfl h

/-- Behind a mark of its own the radix of a run is announced. -/
theorem splitRadix_mark {body : List Char} (hform : form ≠ .decimal)
    (h : DigitRun form.radix body ds) : splitRadix (form.mark ++ body) = (form.radix, body) := by
  cases form with
  | decimal => exact absurd rfl hform
  | hexadecimal capital => cases capital <;> rfl
  | binary capital => cases capital <;> rfl
  | octal capital => cases capital <;> rfl
  | bareOctal =>
    -- an octal digit is none of the letters of the other marks
    obtain ⟨c, d, hhead, -, hc, hd⟩ := h.exists_head
    obtain ⟨cs, rfl⟩ := List.head?_eq_some_iff.1 hhead
    change d < 8 at hd
    rcases hc with hc | hc
    all_goals interval_cases d <;> cases hc <;> rfl

theorem parseInteger?_eq {text : String} (h : IntegerText text.toList form ds) :
    parseInteger? text = some (numberOfDigits form.radix ds) := by
  unfold parseInteger?
  generalize text.toList = cs at h
  cases h with
  | zero => rfl
  | decimal hrun hhead =>
    rw [splitRadix_of_head?_ne hhead]
    show (digitRun? 10 cs).map (numberOfDigits 10) = _
    rw [hrun.digitRun?_eq]
    rfl
  | marked hform hrun =>
    rw [splitRadix_mark hform hrun]
    show (digitRun? form.radix _).map (numberOfDigits form.radix) = _
    rw [hrun.digitRun?_eq]
    rfl

theorem lt_of_mem (h : IntegerText cs form ds) : ∀ d ∈ ds, d < form.radix := by
  cases h with
  | zero => decide
  | decimal hrun _ => exact lt_of_mem_digitRun? hrun.digitRun?_eq
  | marked _ hrun => exact lt_of_mem_digitRun? hrun.digitRun?_eq

/-- The radix of a text is that of the mark in front. Without a mark it begins with `0` only if it
is nothing else. -/
theorem exists_form (cs : List Char) :
    ∃ (form : IntegerForm) (body : List Char), cs = form.mark ++ body
      ∧ splitRadix cs = (form.radix, body)
      ∧ (form = .decimal → body.head? = some '0' → body = ['0']) := by
  fun_cases splitRadix cs
  case case1 cs => exact ⟨.hexadecimal false, cs, rfl, rfl, nofun⟩
  case case2 cs => exact ⟨.hexadecimal true, cs, rfl, rfl, nofun⟩
  case case3 cs => exact ⟨.binary false, cs, rfl, rfl, nofun⟩
  case case4 cs => exact ⟨.binary true, cs, rfl, rfl, nofun⟩
  case case5 cs => exact ⟨.octal false, cs, rfl, rfl, nofun⟩
  case case6 cs => exact ⟨.octal true, cs, rfl, rfl, nofun⟩
  case case7 c cs _ _ _ _ _ _ => exact ⟨.bareOctal, c :: cs, rfl, rfl, nofun⟩
  case case8 hbare =>
    refine ⟨.decimal, cs, rfl, rfl, fun _ hhead => ?_⟩
    obtain ⟨rest, rfl⟩ := List.head?_eq_some_iff.1 hhead
    cases rest with
    | nil => rfl
    | cons c rest => exact absurd rfl (hbare c rest)

/-- Whatever is read as a whole number is the text of one. -/
theorem exists_of_parseInteger? {text : String} {literal : Literal}
    (h : parseInteger? text = some literal) : ∃ form ds, IntegerText text.toList form ds := by
  obtain ⟨form, body, htext, hsplit, hdecimal⟩ := exists_form text.toList
  unfold parseInteger? at h
  rw [hsplit] at h
  obtain ⟨ds, hds, -⟩ := Option.map_eq_some_iff.1 h
  have hrun := digitRun_of_digitRun? hds
  rw [htext]
  by_cases hform : form = .decimal
  · subst hform
    by_cases hhead : body.head? = some '0'
    · rw [hdecimal rfl hhead]
      exact ⟨.decimal, [0], .zero⟩
    · exact ⟨.decimal, ds, .decimal hrun hhead⟩
  · exact ⟨form, ds, .marked hform hrun⟩

end IntegerText

section Values

variable {radix n : ℕ} {ds : List ℕ}

theorem ofDigits_append (radix : ℕ) (ds : List ℕ) (d : ℕ) :
    ofDigits radix (ds ++ [d]) = ofDigits radix ds * radix + d := by
  rw [ofDigits, List.foldl_append]
  rfl

/-- The digits spell the number of which they are the digits. -/
theorem ofDigits_eq (radix : ℕ) (ds : List ℕ) :
    ofDigits radix ds = Nat.ofDigits radix ds.reverse := by
  induction ds using List.reverseRecOn with
  | nil => rfl
  | append_singleton ds d ih =>
    rw [ofDigits_append, ih, List.reverse_concat, Nat.ofDigits_cons, Nat.add_comm, Nat.mul_comm]

/-- What fits an integer is that integer. -/
theorem numberOfDigits_of_le (h : ofDigits radix ds ≤ 2 ^ 63 - 1) :
    numberOfDigits radix ds = .int (Int64.ofNat (ofDigits radix ds)) := by
  have hfits : integer? (ofDigits radix ds) = some (Int64.ofNat (ofDigits radix ds)) :=
    integer?_eq_some_iff.2 (Int64.toInt_ofNat_of_lt (by omega))
  rw [numberOfDigits]
  simp only [hfits]

/-- What does not fit an integer is a double. -/
theorem numberOfDigits_of_lt (h : 2 ^ 63 - 1 < ofDigits radix ds) :
    numberOfDigits radix ds = .float (if radix = 10 then Decimal.toFloat ⟨ofDigits radix ds, 0⟩
      else floatOfDigits radix ds) := by
  have hnone : integer? (ofDigits radix ds) = none := by
    rw [integer?_eq_none_iff, maxInteger]
    omega
  rw [numberOfDigits]
  simp only [hnone]
  split
  · rfl
  · rfl

theorem ofDigits_replicate_zero (zeros : ℕ) (ds : List ℕ) :
    ofDigits radix (List.replicate zeros 0 ++ ds) = ofDigits radix ds := by
  induction zeros with
  | zero => rfl
  | succ zeros ih =>
    rw [List.replicate_succ, List.cons_append, ofDigits, List.foldl_cons, Nat.zero_mul]
    exact ih

theorem ofDigits_numeral (radix n : ℕ) : ofDigits radix (numeral radix n) = n := by
  rw [numeral]
  by_cases hn : n = 0
  · rw [if_pos hn, hn]
    exact Nat.zero_mul radix
  · rw [if_neg hn, ofDigits_eq, List.reverse_reverse, Nat.ofDigits_digits]

/-- The digits of a number are those of its quotient by the radix, and the remainder. -/
theorem numeral_of_le (hradix : 1 < radix) (h : radix ≤ n) :
    numeral radix n = numeral radix (n / radix) ++ [n % radix] := by
  have hquotient : n / radix ≠ 0 := (Nat.div_pos h (by omega)).ne'
  rw [numeral, numeral, if_neg (by omega), if_neg hquotient,
    Nat.digits_def' hradix (by omega), List.reverse_cons]

theorem numeral_of_lt (h : n < radix) : numeral radix n = [n] := by
  by_cases hn : n = 0
  · rw [numeral, if_pos hn, hn]
  · rw [numeral, if_neg hn, Nat.digits_of_lt radix n hn h]
    rfl

theorem spellsDigit_digitChar {d : ℕ} (h : d < 16) : SpellsDigit d.digitChar d := by
  interval_cases d <;> decide

/-- The usual way to write a number is a run of its digits. -/
theorem digitRun_toDigits (hradix : 1 < radix) (hsixteen : radix ≤ 16) (n : ℕ) :
    DigitRun radix (Nat.toDigits radix n) (numeral radix n) := by
  induction n using Nat.strongRecOn with
  | ind n ih =>
    rw [Nat.toDigits_eq_if hradix]
    by_cases hn : n < radix
    · rw [if_pos hn, numeral_of_lt hn]
      exact .single (spellsDigit_digitChar (by omega)) hn
    · have hlt := Nat.mod_lt n (by omega : radix > 0)
      rw [if_neg hn, numeral_of_le hradix (by omega)]
      exact (ih _ (Nat.div_lt_self (by omega) hradix)).concat
        (spellsDigit_digitChar (by omega)) hlt

/-- Only 0 has a numeral that begins with 0. -/
theorem head?_numeral_ne_zero (hn : n ≠ 0) : (numeral radix n).head? ≠ some 0 := by
  rw [numeral, if_neg hn, List.head?_reverse,
    List.getLast?_eq_some_getLast (Nat.digits_ne_nil_iff_ne_zero.2 hn), ne_eq, Option.some.injEq]
  exact Nat.getLast_digit_ne_zero radix hn

end Values

/-- A run of the digits of a number makes a text, with any zeros in front unless it is decimal. -/
theorem IntegerText.of_numeral {form : IntegerForm} {zeros n : ℕ} {body : List Char}
    (hzeros : form = .decimal → zeros = 0)
    (h : DigitRun form.radix body (List.replicate zeros 0 ++ numeral form.radix n)) :
    IntegerText (form.mark ++ body) form (List.replicate zeros 0 ++ numeral form.radix n) := by
  by_cases hform : form = .decimal
  · subst hform
    rw [hzeros rfl] at h ⊢
    change DigitRun 10 body (numeral 10 n) at h
    show IntegerText body .decimal (numeral 10 n)
    by_cases hhead : body.head? = some '0'
    · obtain ⟨c, d, hc, hd, hspells, -⟩ := h.exists_head
      cases hhead.symm.trans hc
      have hzero : d = 0 := by
        have hlt := hspells.lt
        interval_cases d <;> revert hspells <;> decide
      have hn : n = 0 := by
        by_contra hn
        exact head?_numeral_ne_zero hn (hzero ▸ hd)
      subst hn
      change DigitRun 10 body [0] at h
      cases h with
      | single =>
        cases hhead
        exact .zero
      | next _ _ hrest => cases hrest
      | separated _ _ hrest => cases hrest
    · exact .decimal h hhead
  · exact .marked hform h

/-- The text is read as the integer. -/
def ReadsAsInteger (text : String) (n : ℕ) : Prop :=
  ∃ k : Int64, k.toInt = n ∧ parseInteger? text = some (.int k)

theorem IntegerText.readsAsInteger {text : String} {form : IntegerForm} {ds : List ℕ}
    (h : IntegerText text.toList form ds) (hle : ofDigits form.radix ds ≤ 2 ^ 63 - 1) :
    ReadsAsInteger text (ofDigits form.radix ds) := by
  refine ⟨Int64.ofNat (ofDigits form.radix ds), Int64.toInt_ofNat_of_lt (by omega), ?_⟩
  rw [h.parseInteger?_eq, numberOfDigits_of_le hle]

/-- Whole numbers are read off exactly the texts of the grammar, and reading never wraps: what the
digits spell is read as that integer up to the greatest one, and as a double beyond. So every
natural number below `2 ^ 63` is read back from all its spellings: the usual one in each form, and
any other with separators, letters of either case and, behind a mark, zeros in front. -/
theorem integer_literals_are_exact :
    (∀ text : String,
      (parseInteger? text).isSome = true ↔ ∃ form ds, IntegerText text.toList form ds)
    ∧ (∀ (text : String) (form : IntegerForm) (ds : List ℕ), IntegerText text.toList form ds →
        (Nat.ofDigits form.radix ds.reverse ≤ 2 ^ 63 - 1 →
          ReadsAsInteger text (Nat.ofDigits form.radix ds.reverse))
        ∧ (2 ^ 63 - 1 < Nat.ofDigits form.radix ds.reverse →
          ∃ x, parseInteger? text = some (.float x)))
    ∧ ∀ (n : ℕ) (form : IntegerForm), n < 2 ^ 63 →
        ReadsAsInteger (String.ofList (form.mark ++ Nat.toDigits form.radix n)) n
        ∧ ∀ (zeros : ℕ) (body : List Char), (form = .decimal → zeros = 0) →
            DigitRun form.radix body (List.replicate zeros 0 ++ numeral form.radix n) →
            ReadsAsInteger (String.ofList (form.mark ++ body)) n := by
  refine ⟨fun text => ⟨fun h => ?accepted, fun h => ?accepts⟩, fun text form ds h => ?_,
    fun n form hn => ?_⟩
  case accepted =>
    obtain ⟨literal, hliteral⟩ := Option.isSome_iff_exists.1 h
    exact IntegerText.exists_of_parseInteger? hliteral
  case accepts =>
    obtain ⟨form, ds, htext⟩ := h
    rw [htext.parseInteger?_eq, Option.isSome_some]
  · rw [← ofDigits_eq]
    refine ⟨h.readsAsInteger, fun hlt => ?_⟩
    rw [h.parseInteger?_eq, numberOfDigits_of_lt hlt]
    exact ⟨_, rfl⟩
  · have hspelling (zeros : ℕ) (body : List Char) (hzeros : form = .decimal → zeros = 0)
        (hrun : DigitRun form.radix body (List.replicate zeros 0 ++ numeral form.radix n)) :
        ReadsAsInteger (String.ofList (form.mark ++ body)) n := by
      have htext := IntegerText.of_numeral hzeros hrun
      rw [← String.toList_ofList (l := form.mark ++ body)] at htext
      have hvalue : ofDigits form.radix (List.replicate zeros 0 ++ numeral form.radix n) = n := by
        rw [ofDigits_replicate_zero, ofDigits_numeral]
      have hread := htext.readsAsInteger (by omega)
      rwa [hvalue] at hread
    exact ⟨hspelling 0 _ (fun _ => rfl) (digitRun_toDigits form.one_lt_radix form.radix_le n),
      hspelling⟩

/-- The greatest integer in capitals, with separators and zeros in front, and one more in octal. -/
theorem integer_literals_are_exact_greatest :
    ReadsAsInteger "0X00_7FFF_FFFF_FFFF_FFFF" 9223372036854775807
    ∧ ∃ x, parseInteger? "01_000_000_000_000_000_000_000" = some (.float x) := by
  have hgreatest : digitRun? 16 "00_7FFF_FFFF_FFFF_FFFF".toList
      = some (List.replicate 2 0 ++ numeral 16 9223372036854775807) := by
    rw [numeral]
    norm_num
    decide
  have hoctal : DigitRun 8 "1_000_000_000_000_000_000_000".toList (1 :: List.replicate 21 0) :=
    digitRun_of_digitRun? (by decide)
  have htext : IntegerText "01_000_000_000_000_000_000_000".toList .bareOctal
      (1 :: List.replicate 21 0) := @IntegerText.marked .bareOctal _ _ (by decide) hoctal
  refine ⟨?_, ?_⟩
  · exact (integer_literals_are_exact.2.2 9223372036854775807 (.hexadecimal true) (by decide)).2
      2 _ nofun (digitRun_of_digitRun? hgreatest)
  · exact (integer_literals_are_exact.2.1 _ .bareOctal _ htext).2 (by decide)

end ExprCore
