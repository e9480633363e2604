import ExprCore.Proofs.Separators
import Mathlib.Data.List.TakeWhile

/-!
# Texts of doubles

The grammar of numbers with a point or an exponent, stated apart from the reader: runs of decimal
digits in front of the point and behind it, of which one may be missing, and an exponent that may be
missing. The reader accepts exactly these texts, and separators do not change what it reads.

## Main definitions

- `Significand`: the digits in front of the point and behind it
- `ExponentText`: the power of ten at the end
- `FloatText`: the texts of doubles, with the decimals that they spell
- `Parts`: the parts into which a text is cut before they are read
- `PassesChecks`: what can be seen of a number before it is read

## Main statements

- `decimal?_eq_some_iff`: the texts that are read
- `SeparatesDigits.decimal?_eq`: a number is read without its separators
- `parseFloat?_eq_ite`: reading is three checks and then a reading without separators
- `float_literals_are_exact`: what is read off every text
-/

namespace ExprCore

/-- The digits in front of the point and behind it. There are digits on one side at least, and
without a point there are none behind it. -/
inductive Significand : List Char → List ℕ → List ℕ → Prop
  | whole {cs : List Char} {ds : List ℕ} : DigitRun 10 cs ds → Significand cs ds []
  | pointed {cs : List Char} {ds : List ℕ} : DigitRun 10 cs ds → Significand (cs ++ ['.']) ds []
  | fraction {cs : List Char} {ds : List ℕ} : DigitRun 10 cs ds → Significand ('.' :: cs) [] ds
  | mixed {cs cs' : List Char} {ds ds' : List ℕ} : DigitRun 10 cs ds → DigitRun 10 cs' ds' →
      Significand (cs ++ '.' :: cs') ds ds'

/-- The power of ten at the end of a number. -/
inductive ExponentText : List Char → ℤ → Prop
  | absent : ExponentText [] 0
  | unsigned {e : Char} {cs : List Char} {ds : List ℕ} : e = 'e' ∨ e = 'E' → DigitRun 10 cs ds →
      ExponentText (e :: cs) (Nat.ofDigits 10 ds.reverse : ℕ)
  | positive {e : Char} {cs : List Char} {ds : List ℕ} : e = 'e' ∨ e = 'E' → DigitRun 10 cs ds →
      ExponentText (e :: '+' :: cs) (Nat.ofDigits 10 ds.reverse : ℕ)
  | negative {e : Char} {cs : List Char} {ds : List ℕ} : e = 'e' ∨ e = 'E' → DigitRun 10 cs ds →
      ExponentText (e :: '-' :: cs) (-(Nat.ofDigits 10 ds.reverse : ℕ))

/-- The texts of doubles, with the decimals that they spell. -/
inductive FloatText : List Char → Decimal → Prop
  | mk {cs es : List Char} {whole fraction : List ℕ} {e : ℤ} : Significand cs whole fraction →
      ExponentText es e →
      FloatText (cs ++ es) ⟨Nat.ofDigits 10 (whole ++ fraction).reverse, e - fraction.length⟩

/-- The first character, if there is one, cannot go on with a run of decimal digits. -/
def EndsRun (rest : List Char) : Prop := ∀ c, rest.head? = some c → isRunChar c = false

/-- The parts into which a text is cut: what stands in front of the point, behind it, and at the
end. Without a point nothing stands behind it. -/
inductive Parts : List Char → List Char → List Char → List Char → Prop
  | unpointed {whole rest : List Char} : (∀ c ∈ whole, isRunChar c = true) → EndsRun rest →
      rest.head? ≠ some '.' → Parts (whole ++ rest) whole [] rest
  | pointed {whole fraction rest : List Char} : (∀ c ∈ whole, isRunChar c = true) →
      (∀ c ∈ fraction, isRunChar c = true) → EndsRun rest →
      Parts (whole ++ '.' :: (fraction ++ rest)) whole fraction rest

/-- The decimal that the parts of a text spell. -/
def assembled? (whole fraction rest : List Char) : Option Decimal := do
  let whole ← optionalRun? whole
  let fraction ← optionalRun? fraction
  if (whole ++ fraction).isEmpty then none
  else
    let exponent ← exponentPart? rest
    return ⟨ofDigits 10 (whole ++ fraction), exponent - fraction.length⟩

section Parts

variable {cs whole fraction rest : List Char}

theorem span_run (hall : ∀ c ∈ whole, isRunChar c = true) (hrest : EndsRun rest) :
    (whole ++ rest).span isRunChar = (whole, rest) := by
  rw [List.span_eq_takeWhile_dropWhile, List.takeWhile_append_of_pos hall,
    List.dropWhile_append_of_pos hall]
  cases rest with
  | nil => simp
  | cons c rest => simp [hrest c rfl]

theorem endsRun_dropWhile (cs : List Char) : EndsRun (cs.dropWhile isRunChar) := by
  intro c hc
  have hhead := List.head?_dropWhile_not isRunChar cs
  rw [hc] at hhead
  exact hhead

theorem exists_parts (cs : List Char) : ∃ whole fraction rest, Parts cs whole fraction rest := by
  have hsplit := List.takeWhile_append_dropWhile (p := isRunChar) (l := cs)
  have hwhole : ∀ c ∈ cs.takeWhile isRunChar, isRunChar c = true := fun c => List.mem_takeWhile_imp
  by_cases hpoint : (cs.dropWhile isRunChar).head? = some '.'
  · obtain ⟨behind, hbehind⟩ := List.head?_eq_some_iff.1 hpoint
    rw [hbehind, ← List.takeWhile_append_dropWhile (p := isRunChar) (l := behind)] at hsplit
    rw [← hsplit]
    exact ⟨_, _, _, .pointed hwhole (fun c => List.mem_takeWhile_imp) (endsRun_dropWhile behind)⟩
  · rw [← hsplit]
    exact ⟨_, _, _, .unpointed hwhole (endsRun_dropWhile cs) hpoint⟩

theorem endsRun_point (cs : List Char) : EndsRun ('.' :: cs) := by
  rintro c ⟨⟩
  rfl

/-- A text is read by its parts. -/
theorem Parts.decimal?_eq (h : Parts cs whole fraction rest) :
    decimal? cs = assembled? whole fraction rest := by
  unfold decimal?
  cases h with
  | unpointed hwhole hrest hpoint =>
    rw [span_run hwhole hrest]
    dsimp only
    split
    next => exact absurd rfl hpoint
    next => rfl
  | pointed hwhole hfraction hrest =>
    rw [span_run hwhole (endsRun_point _)]
    simp only [span_run hfraction hrest]
    rfl

end Parts

section Reading

variable {cs whole fraction rest : List Char} {ds : List ℕ} {d : Decimal} {e : ℤ}

theorem optionalRun?_eq_some_iff :
    optionalRun? cs = some ds ↔ (cs = [] ∧ ds = []) ∨ DigitRun 10 cs ds := by
  cases cs with
  | nil =>
    constructor
    · rintro ⟨⟩
      exact .inl ⟨rfl, rfl⟩
    · rintro (⟨-, rfl⟩ | h)
      · rfl
      · cases h
  | cons c cs =>
    rw [← digitRun?_eq_some_iff]
    simp [optionalRun?]

theorem DigitRun.head?_ne {c : Char} (h : DigitRun 10 cs ds) (hc : ¬IsDigit 10 c) :
    cs.head? ≠ some c := by
  intro hhead
  obtain ⟨c', d, hhead', -, hspells, hd⟩ := h.exists_head
  cases hhead.symm.trans hhead'
  exact hc ⟨d, hd, hspells⟩

theorem exponentPart?_unsigned {c : Char} (hletter : c = 'e' ∨ c = 'E')
    (hplus : cs.head? ≠ some '+') (hminus : cs.head? ≠ some '-') :
    exponentPart? (c :: cs) = (digitRun? 10 cs).map fun run => (ofDigits 10 run : ℤ) := by
  rw [exponentPart?, if_pos hletter]
  · rintro rest rfl
    exact hplus rfl
  · rintro rest rfl
    exact hminus rfl

/-- The exponents that are read. -/
theorem exponentPart?_eq_some_iff : exponentPart? cs = some e ↔ ExponentText cs e := by
  constructor
  · fun_cases exponentPart? cs
    case case1 =>
      rintro ⟨⟩
      exact .absent
    case case5 => exact nofun
    all_goals
      intro h
      obtain ⟨ds, hds, rfl⟩ := Option.map_eq_some_iff.1 h
      rw [ofDigits_eq]
    case case2 hletter _ => exact .positive hletter (digitRun_of_digitRun? hds)
    case case3 hletter _ => exact .negative hletter (digitRun_of_digitRun? hds)
    case case4 hletter _ _ _ => exact .unsigned hletter (digitRun_of_digitRun? hds)
  · intro h
    cases h with
    | absent => rfl
    | unsigned hletter hrun =>
      rw [exponentPart?_unsigned hletter (hrun.head?_ne (by decide)) (hrun.head?_ne (by decide))]
      simp only [hrun.digitRun?_eq, ofDigits_eq, Option.map_some]
    | positive hletter hrun =>
      rw [exponentPart?, if_pos hletter]
      simp only [hrun.digitRun?_eq, ofDigits_eq, Option.map_some]
    | negative hletter hrun =>
      rw [exponentPart?, if_pos hletter]
      simp only [hrun.digitRun?_eq, ofDigits_eq, Option.map_some]

theorem assembled?_eq_some_iff :
    assembled? whole fraction rest = some d ↔ ∃ ws fs e,
      optionalRun? whole = some ws ∧ optionalRun? fraction = some fs ∧ ws ++ fs ≠ []
        ∧ ExponentText rest e ∧ d = ⟨Nat.ofDigits 10 (ws ++ fs).reverse, e - fs.length⟩ := by
  simp only [assembled?, ← ofDigits_eq, ← exponentPart?_eq_some_iff]
  simp [Option.bind_eq_some_iff, eq_comm (b := d)]

theorem ExponentText.endsRun (h : ExponentText rest e) : EndsRun rest ∧ rest.head? ≠ some '.' := by
  cases h with
  | absent => exact ⟨nofun, nofun⟩
  | unsigned hletter _ | positive hletter _ | negative hletter _ =>
    rcases hletter with rfl | rfl
    all_goals
      refine ⟨?_, nofun⟩
      rintro c ⟨⟩
      rfl

theorem IsDigit.isDigit {c : Char} (h : IsDigit 10 c) : c.isDigit = true := by
  obtain ⟨d, hd, hc⟩ := h
  rcases hc with hc | hc
  all_goals interval_cases d <;> cases hc <;> rfl

theorem IsDigit.isRunChar {c : Char} (h : IsDigit 10 c) : isRunChar c = true := by
  rw [ExprCore.isRunChar, h.isDigit, Bool.true_or]

theorem DigitRun.isRunChar_of_mem (h : DigitRun 10 cs ds) : ∀ c ∈ cs, isRunChar c = true := by
  intro c hc
  by_cases hseparator : c = '_'
  · rw [hseparator]
    rfl
  · exact (h.isDigit_of_mem c hc hseparator).isRunChar

theorem floatText_of_decimal? (h : decimal? cs = some d) : FloatText cs d := by
  obtain ⟨whole, fraction, rest, hparts⟩ := exists_parts cs
  rw [hparts.decimal?_eq, assembled?_eq_some_iff] at h
  obtain ⟨ws, fs, e, hwhole, hfraction, hne, hexponent, rfl⟩ := h
  rw [optionalRun?_eq_some_iff] at hwhole hfraction
  cases hparts with
  | unpointed =>
    rcases hfraction with ⟨-, rfl⟩ | hfraction
    · rcases hwhole with ⟨-, rfl⟩ | hwhole
      · exact absurd rfl hne
      · exact .mk (.whole hwhole) hexponent
    · cases hfraction
  | pointed =>
    rw [← List.cons_append, ← List.append_assoc]
    refine .mk ?_ hexponent
    rcases hwhole with ⟨rfl, rfl⟩ | hwhole
    · rcases hfraction with ⟨-, rfl⟩ | hfraction
      · exact absurd rfl hne
      · exact .fraction hfraction
    · rcases hfraction with ⟨rfl, rfl⟩ | hfraction
      · exact .pointed hwhole
      · exact .mixed hwhole hfraction

theorem Parts.decimal?_eq_some {ws fs : List ℕ} (h : Parts cs whole fraction rest)
    (hwhole : (whole = [] ∧ ws = []) ∨ DigitRun 10 whole ws)
    (hfraction : (fraction = [] ∧ fs = []) ∨ DigitRun 10 fraction fs) (hne : ws ++ fs ≠ [])
    (hexponent : ExponentText rest e) :
    decimal? cs = some ⟨Nat.ofDigits 10 (ws ++ fs).reverse, e - fs.length⟩ := by
  rw [h.decimal?_eq, assembled?_eq_some_iff]
  exact ⟨ws, fs, e, optionalRun?_eq_some_iff.2 hwhole, optionalRun?_eq_some_iff.2 hfraction, hne,
    hexponent, rfl⟩

theorem DigitRun.digits_ne_nil (h : DigitRun 10 cs ds) : ds ≠ [] := by
  cases h
  all_goals exact List.cons_ne_nil _ _

theorem FloatText.decimal?_eq (h : FloatText cs d) : decimal? cs = some d := by
  obtain ⟨hsignificand, hexponent⟩ := h
  obtain ⟨hends, hpoint⟩ := hexponent.endsRun
  cases hsignificand with
  | whole hrun =>
    exact Parts.decimal?_eq_some (.unpointed hrun.isRunChar_of_mem hends hpoint) (.inr hrun)
      (.inl ⟨rfl, rfl⟩) (by simp [hrun.digits_ne_nil]) hexponent
  | pointed hrun =>
    rw [List.append_assoc]
    exact Parts.decimal?_eq_some (.pointed hrun.isRunChar_of_mem nofun hends) (.inr hrun)
      (.inl ⟨rfl, rfl⟩) (by simp [hrun.digits_ne_nil]) hexponent
  | fraction hrun =>
    exact Parts.decimal?_eq_some (@Parts.pointed [] _ _ nofun hrun.isRunChar_of_mem hends)
      (.inl ⟨rfl, rfl⟩) (.inr hrun) hrun.digits_ne_nil hexponent
  | mixed hwhole hfraction =>
    rw [List.append_assoc]
    exact Parts.decimal?_eq_some
      (.pointed hwhole.isRunChar_of_mem hfraction.isRunChar_of_mem hends) (.inr hwhole)
      (.inr hfraction) (by simp [hwhole.digits_ne_nil]) hexponent

/-- The reader takes exactly the texts of doubles. -/
theorem decimal?_eq_some_iff : decimal? cs = some d ↔ FloatText cs d :=
  ⟨floatText_of_decimal?, FloatText.decimal?_eq⟩

end Reading

section Separators

variable {cs whole fraction rest : List Char} {ds : List ℕ} {d : Decimal} {e : ℤ}

theorem EndsRun.head?_ne (h : EndsRun rest) : rest.head? ≠ some '_' := fun hhead =>
  absurd (h '_' hhead) (by decide)

theorem EndsRun.withoutSeparators (h : EndsRun rest) : EndsRun (withoutSeparators rest) := by
  rw [EndsRun, head?_withoutSeparators h.head?_ne]
  exact h

/-- The text without separators is cut at the same places. -/
theorem Parts.withoutSeparators (h : Parts cs whole fraction rest) :
    Parts (withoutSeparators cs) (withoutSeparators whole) (withoutSeparators fraction)
      (withoutSeparators rest) := by
  cases h with
  | unpointed hwhole hrest hpoint =>
    rw [withoutSeparators_append]
    exact .unpointed (fun c hc => hwhole c (mem_withoutSeparators.1 hc).1) hrest.withoutSeparators
      (head?_withoutSeparators hrest.head?_ne ▸ hpoint)
  | pointed hwhole hfraction hrest =>
    rw [withoutSeparators_append, withoutSeparators_cons (by decide), withoutSeparators_append]
    exact .pointed (fun c hc => hwhole c (mem_withoutSeparators.1 hc).1)
      (fun c hc => hfraction c (mem_withoutSeparators.1 hc).1) hrest.withoutSeparators

namespace SeparatesDigits

/-- Separators stand apart from the end of a run. -/
theorem cut (h : SeparatesDigits 10 (whole ++ rest)) (hrest : EndsRun rest) :
    SeparatesDigits 10 whole ∧ SeparatesDigits 10 rest := by
  refine ⟨h.of_append_left fun hlast => ?_, h.of_append_right whole hrest.head?_ne⟩
  obtain ⟨before, rfl⟩ := List.getLast?_eq_some_iff.1 hlast
  obtain ⟨-, c, hc, hdigit⟩ := h before rest (by simp)
  exact absurd hdigit.isRunChar (by simp [hrest c hc])

theorem parts (h : SeparatesDigits 10 cs) (hparts : Parts cs whole fraction rest) :
    SeparatesDigits 10 whole ∧ SeparatesDigits 10 fraction ∧ SeparatesDigits 10 rest := by
  cases hparts with
  | unpointed _ hrest _ =>
    obtain ⟨hwhole, hrest⟩ := h.cut hrest
    exact ⟨hwhole, .of_not_mem List.not_mem_nil, hrest⟩
  | pointed _ _ hrest =>
    obtain ⟨hwhole, -⟩ := h.cut (endsRun_point _)
    exact ⟨hwhole, (h.behind whole (by decide)).cut hrest⟩

theorem optionalRun?_eq (h : SeparatesDigits 10 cs) :
    optionalRun? (withoutSeparators cs) = optionalRun? cs := by
  cases cs with
  | nil => rfl
  | cons c cs =>
    have hc : c ≠ '_' := fun hc => h.head?_ne (congrArg some hc)
    have hrun := h.digitRun?_eq
    rw [withoutSeparators_cons hc] at hrun ⊢
    exact hrun

theorem exponentPart?_eq (h : SeparatesDigits 10 cs) :
    exponentPart? (withoutSeparators cs) = exponentPart? cs := by
  cases cs with
  | nil => rfl
  | cons c cs =>
    have hc : c ≠ '_' := fun hc => h.head?_ne (congrArg some hc)
    rw [withoutSeparators_cons hc]
    by_cases hletter : c = 'e' ∨ c = 'E'
    · have hcs : SeparatesDigits 10 cs := by
        rcases hletter with rfl | rfl
        · exact h.behind [] (by decide)
        · exact h.behind [] (by decide)
      by_cases hplus : cs.head? = some '+'
      · obtain ⟨rest, rfl⟩ := List.head?_eq_some_iff.1 hplus
        rw [withoutSeparators_cons (by decide), exponentPart?, exponentPart?, if_pos hletter,
          if_pos hletter, (hcs.behind [] (by decide)).digitRun?_eq]
      by_cases hminus : cs.head? = some '-'
      · obtain ⟨rest, rfl⟩ := List.head?_eq_some_iff.1 hminus
        rw [withoutSeparators_cons (by decide), exponentPart?, exponentPart?, if_pos hletter,
          if_pos hletter, (hcs.behind [] (by decide)).digitRun?_eq]
      rw [exponentPart?_unsigned hletter hplus hminus, ← hcs.digitRun?_eq]
      rw [← head?_withoutSeparators hcs.head?_ne] at hplus hminus
      exact exponentPart?_unsigned hletter hplus hminus
    · simp only [exponentPart?, if_neg hletter]

/-- A number in which every separator stands between two digits is read without its separators,
and is malformed without them as well. -/
theorem decimal?_eq (h : SeparatesDigits 10 cs) :
    decimal? (withoutSeparators cs) = decimal? cs := by
  obtain ⟨whole, fraction, rest, hparts⟩ := exists_parts cs
  obtain ⟨hwhole, hfraction, hrest⟩ := h.parts hparts
  rw [hparts.decimal?_eq, hparts.withoutSeparators.decimal?_eq, assembled?, assembled?,
    hwhole.optionalRun?_eq, hfraction.optionalRun?_eq, hrest.exponentPart?_eq]

end SeparatesDigits

/-- In a number every separator stands between two digits. -/
theorem FloatText.separatesDigits (h : FloatText cs d) : SeparatesDigits 10 cs := by
  obtain ⟨hsignificand, hexponent⟩ := h
  refine .append ?_ ?_
  · cases hsignificand with
    | whole hrun => exact hrun.separatesDigits
    | pointed hrun => exact hrun.separatesDigits.append (.of_not_mem (by decide))
    | fraction hrun => exact .cons (by decide) hrun.separatesDigits
    | mixed hwhole hfraction =>
      exact hwhole.separatesDigits.append (.cons (by decide) hfraction.separatesDigits)
  · cases hexponent with
    | absent => exact .of_not_mem List.not_mem_nil
    | unsigned hletter hrun =>
      exact .cons (by rcases hletter with rfl | rfl <;> decide) hrun.separatesDigits
    | positive hletter hrun | negative hletter hrun =>
      exact .cons (by rcases hletter with rfl | rfl <;> decide)
        (.cons (by decide) hrun.separatesDigits)

end Separators

section Checks

variable {cs : List Char} {ds ws fs : List ℕ} {d : Decimal} {e : ℤ}

/-- The characters that a number may have. -/
def IsNumberChar (c : Char) : Prop := isRunChar c = true ∨ c ∈ ['.', 'e', 'E', '+', '-']

/-- What can be seen of a number before it is read: its characters, the first of them, and its
separators. -/
structure PassesChecks (cs : List Char) : Prop where
  chars : ∀ c ∈ cs, IsNumberChar c
  front : ∃ c, cs.head? = some c ∧ (c.isDigit = true ∨ c = '.')
  separators : SeparatesDigits 10 cs

theorem DigitRun.chars (h : DigitRun 10 cs ds) : ∀ c ∈ cs, IsNumberChar c :=
  fun c hc => .inl (h.isRunChar_of_mem c hc)

theorem Significand.chars (h : Significand cs ws fs) : ∀ c ∈ cs, IsNumberChar c := by
  have hpoint : IsNumberChar '.' := .inr (by decide)
  cases h with
  | whole hrun => exact hrun.chars
  | pointed hrun =>
    exact List.forall_mem_append.2 ⟨hrun.chars, List.forall_mem_singleton.2 hpoint⟩
  | fraction hrun => exact List.forall_mem_cons.2 ⟨hpoint, hrun.chars⟩
  | mixed hwhole hfraction =>
    exact List.forall_mem_append.2
      ⟨hwhole.chars, List.forall_mem_cons.2 ⟨hpoint, hfraction.chars⟩⟩

theorem ExponentText.chars (h : ExponentText cs e) : ∀ c ∈ cs, IsNumberChar c := by
  cases h with
  | absent => exact nofun
  | unsigned hletter hrun =>
    exact List.forall_mem_cons.2 ⟨.inr (by rcases hletter with rfl | rfl <;> decide), hrun.chars⟩
  | positive hletter hrun | negative hletter hrun =>
    exact List.forall_mem_cons.2 ⟨.inr (by rcases hletter with rfl | rfl <;> decide),
      List.forall_mem_cons.2 ⟨.inr (by decide), hrun.chars⟩⟩

theorem Significand.front (h : Significand cs ws fs) :
    ∃ c, cs.head? = some c ∧ (c.isDigit = true ∨ c = '.') := by
  have hfront {cs : List Char} {ds : List ℕ} (h : DigitRun 10 cs ds) (rest : List Char) :
      ∃ c, (cs ++ rest).head? = some c ∧ (c.isDigit = true ∨ c = '.') := by
    obtain ⟨c, d, hhead, -, hc, hd⟩ := h.exists_head
    exact ⟨c, by rw [List.head?_append, hhead, Option.some_or], .inl (IsDigit.isDigit ⟨d, hd, hc⟩)⟩
  cases h with
  | whole hrun => simpa using hfront hrun []
  | pointed hrun => exact hfront hrun _
  | fraction => exact ⟨'.', rfl, .inr rfl⟩
  | mixed hwhole _ => exact hfront hwhole _

theorem FloatText.passesChecks (h : FloatText cs d) : PassesChecks cs where
  chars := by
    obtain ⟨hsignificand, hexponent⟩ := h
    exact List.forall_mem_append.2 ⟨hsignificand.chars, hexponent.chars⟩
  front := by
    obtain ⟨hsignificand, hexponent⟩ := h
    obtain ⟨c, hc, hfront⟩ := hsignificand.front
    exact ⟨c, by rw [List.head?_append, hc, Option.some_or], hfront⟩
  separators := h.separatesDigits

/-- The checks hold of the text without separators as well. -/
theorem PassesChecks.withoutSeparators (h : PassesChecks cs) :
    PassesChecks (withoutSeparators cs) where
  chars c hc := h.chars c (mem_withoutSeparators.1 hc).1
  front := by
    rw [head?_withoutSeparators h.separators.head?_ne]
    exact h.front
  separators := .of_not_mem fun hmem => (mem_withoutSeparators.1 hmem).2 rfl

/-- Reading is a look at the characters, at the first of them and at the separators, and then a
plain reading of what is left without separators. Any reader will do for that which takes the
numbers of the grammar and refuses other texts, as far as they pass the checks and have no
separators. -/
theorem parseFloat?_eq_ite {read : List Char → Option Float}
    (hread : ∀ cs, PassesChecks cs → '_' ∉ cs →
      ∀ x, read cs = some x ↔ ∃ d, FloatText cs d ∧ d.toFloat = x)
    (text : String) [Decidable (PassesChecks text.toList)] :
    parseFloat? text = if PassesChecks text.toList then read (withoutSeparators text.toList)
      else none := by
  split
  next h =>
    have hnone : '_' ∉ ExprCore.withoutSeparators text.toList := fun hmem =>
      (mem_withoutSeparators.1 hmem).2 rfl
    rw [parseFloat?, ← h.separators.decimal?_eq]
    refine Option.ext fun x => ?_
    simp only [hread _ h.withoutSeparators hnone, Option.map_eq_some_iff, decimal?_eq_some_iff]
  next h =>
    rw [parseFloat?, Option.map_eq_none_iff, Option.eq_none_iff_forall_ne_some]
    exact fun d hd => h (decimal?_eq_some_iff.1 hd).passesChecks

end Checks

/-- Doubles are read off exactly the texts of the grammar: digits in front of a point, behind it or
both, and maybe an exponent. What is read is the double nearest to the decimal that the text spells,
and it is read off the text without its separators as well. -/
theorem float_literals_are_exact :
    (∀ text : String, (parseFloat? text).isSome = true ↔ ∃ d, FloatText text.toList d)
    ∧ ∀ (text : String) (d : Decimal), FloatText text.toList d →
        parseFloat? text = some d.toFloat
        ∧ parseFloat? (String.ofList (withoutSeparators text.toList)) = parseFloat? text := by
  refine ⟨fun text => ?_, fun text d h => ⟨?_, ?_⟩⟩
  · simp only [← decimal?_eq_some_iff, parseFloat?, Option.isSome_map, Option.isSome_iff_exists]
  · rw [parseFloat?, h.decimal?_eq, Option.map_some]
  · rw [parseFloat?, parseFloat?, String.toList_ofList, h.separatesDigits.decimal?_eq]

/-- Separators on both sides of the point and in a negative exponent. -/
theorem float_literals_are_exact_separated :
    FloatText "1_0.2_5E-1_0".toList ⟨1025, -12⟩
    ∧ parseFloat? "1_0.2_5E-1_0" = some (Decimal.toFloat ⟨1025, -12⟩)
    ∧ parseFloat? "10.25E-10" = some (Decimal.toFloat ⟨1025, -12⟩) := by
  have hwhole : DigitRun 10 "1_0".toList [1, 0] := digitRun_of_digitRun? (by decide)
  have hfraction : DigitRun 10 "2_5".toList [2, 5] := digitRun_of_digitRun? (by decide)
  have hexponent : DigitRun 10 "1_0".toList [1, 0] := digitRun_of_digitRun? (by decide)
  have htext : FloatText "1_0.2_5E-1_0".toList ⟨1025, -12⟩ :=
    .mk (.mixed hwhole hfraction) (.negative (.inr rfl) hexponent)
  obtain ⟨hread, hwithout⟩ := float_literals_are_exact.2 _ _ htext
  exact ⟨htext, hread, hwithout.trans hread⟩

end ExprCore
