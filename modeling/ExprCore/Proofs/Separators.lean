import ExprCore.Proofs.IntegerText

/-!
# Digit separators

A separator that stands directly between two digits changes nothing: the text without it is read as
the same number, or is malformed as well. There is one exception. The `0` that marks a bare octal
number is cut off before the separators are looked at, so that a separator right behind it stands
between two digits of the text and yet at the beginning of a run, where it is refused.

## Main definitions

- `IsDigit`: the digits of a radix
- `withoutSeparators`: a text without its separators
- `SeparatesDigits`: every separator stands directly between two digits

## Main statements

- `SeparatesDigits.append`, `SeparatesDigits.of_append_left`, `SeparatesDigits.of_append_right`: the
  separators of two texts one behind the other
- `SeparatesDigits.digitRun?_eq`: a run is read without its separators
- `separators_are_insignificant`: where a whole number is read without its separators
-/

namespace ExprCore

/-- The character is a digit of the radix. -/
def IsDigit (radix : ℕ) (c : Char) : Prop := ∃ d < radix, SpellsDigit c d

instance (radix : ℕ) (c : Char) : Decidable (IsDigit radix c) :=
  inferInstanceAs (Decidable (∃ d < radix, SpellsDigit c d))

/-- The text with every `_` left out. -/
def withoutSeparators (cs : List Char) : List Char := cs.filter (· ≠ '_')

/-- Every `_` of the text stands directly between two digits of the radix. -/
def SeparatesDigits (radix : ℕ) (cs : List Char) : Prop :=
  ∀ before after, cs = before ++ '_' :: after →
    (∃ c, before.getLast? = some c ∧ IsDigit radix c) ∧ ∃ c, after.head? = some c ∧ IsDigit radix c

section Digits

variable {radix : ℕ} {c : Char}

theorem IsDigit.ne_underscore (h : IsDigit radix c) : c ≠ '_' := by
  obtain ⟨d, -, hc⟩ := h
  have hlt := hc.lt
  rintro rfl
  interval_cases d <;> revert hc <;> decide

end Digits

section Filter

variable {c : Char} {cs : List Char}

theorem withoutSeparators_cons (h : c ≠ '_') :
    withoutSeparators (c :: cs) = c :: withoutSeparators cs :=
  List.filter_cons_of_pos (by simpa using h)

theorem withoutSeparators_underscore (cs : List Char) :
    withoutSeparators ('_' :: cs) = withoutSeparators cs := rfl

theorem head?_withoutSeparators (h : cs.head? ≠ some '_') :
    (withoutSeparators cs).head? = cs.head? := by
  cases cs with
  | nil => rfl
  | cons c cs =>
    rw [withoutSeparators_cons fun hc => h (congrArg some hc)]
    rfl

theorem mem_withoutSeparators : c ∈ withoutSeparators cs ↔ c ∈ cs ∧ c ≠ '_' := by
  simp [withoutSeparators]

theorem withoutSeparators_append (xs ys : List Char) :
    withoutSeparators (xs ++ ys) = withoutSeparators xs ++ withoutSeparators ys :=
  List.filter_append xs ys

end Filter

/-- The letters of the marks. Any other character behind a zero in front begins an octal run. -/
def markLetters : List Char := ['x', 'X', 'b', 'B', 'o', 'O']

theorem splitRadix_zero {c : Char} (hc : c ∉ markLetters) (rest : List Char) :
    splitRadix ('0' :: c :: rest) = (8, c :: rest) := by
  simp only [markLetters, List.mem_cons, List.not_mem_nil, or_false, not_or] at hc
  obtain ⟨h₁, h₂, h₃, h₄, h₅, h₆⟩ := hc
  rw [splitRadix]
  all_goals assumption

theorem parseInteger?_of_splitRadix {text : String} {radix : ℕ} {body : List Char}
    (h : splitRadix text.toList = (radix, body)) :
    parseInteger? text = (digitRun? radix body).map (numberOfDigits radix) := by
  unfold parseInteger?
  rw [h]

namespace SeparatesDigits

variable {radix : ℕ} {c : Char} {xs ys cs : List Char}

theorem head?_ne (h : SeparatesDigits radix cs) : cs.head? ≠ some '_' := by
  intro hhead
  obtain ⟨rest, rfl⟩ := List.head?_eq_some_iff.1 hhead
  obtain ⟨⟨c, hc, -⟩, -⟩ := h [] rest rfl
  cases hc

theorem of_not_mem (h : '_' ∉ cs) : SeparatesDigits radix cs := by
  rintro before after rfl
  exact absurd (List.mem_append_right before List.mem_cons_self) h

theorem append (hxs : SeparatesDigits radix xs) (hys : SeparatesDigits radix ys) :
    SeparatesDigits radix (xs ++ ys) := by
  intro before after h
  rcases List.append_eq_append_iff.1 h with ⟨mid, rfl, rfl⟩ | ⟨mid, rfl, hafter⟩
  · obtain ⟨⟨c, hc, hdigit⟩, hnext⟩ := hys mid after rfl
    exact ⟨⟨c, by rw [List.getLast?_append, hc, Option.some_or], hdigit⟩, hnext⟩
  · cases mid with
    | nil => exact absurd (congrArg List.head? hafter).symm hys.head?_ne
    | cons d mid =>
      rw [List.cons_append, List.cons_eq_cons] at hafter
      obtain ⟨rfl, rfl⟩ := hafter
      obtain ⟨hprevious, c, hc, hdigit⟩ := hxs before mid rfl
      exact ⟨hprevious, c, by rw [List.head?_append, hc, Option.some_or], hdigit⟩

theorem cons (hc : c ≠ '_') (h : SeparatesDigits radix cs) : SeparatesDigits radix (c :: cs) :=
  append (of_not_mem fun hmem => hc (List.mem_singleton.1 hmem).symm) h

theorem of_append_right (xs : List Char) (h : SeparatesDigits radix (xs ++ ys))
    (hhead : ys.head? ≠ some '_') : SeparatesDigits radix ys := by
  rintro before after rfl
  obtain ⟨⟨c, hc, hdigit⟩, hnext⟩ := h (xs ++ before) after (List.append_assoc _ _ _).symm
  refine ⟨⟨c, ?_, hdigit⟩, hnext⟩
  cases before with
  | nil => exact absurd rfl hhead
  | cons d before => rwa [List.getLast?_append_of_ne_nil xs (List.cons_ne_nil d before)] at hc

theorem of_append_left (h : SeparatesDigits radix (xs ++ ys)) (hlast : xs.getLast? ≠ some '_') :
    SeparatesDigits radix xs := by
  rintro before after rfl
  obtain ⟨hprevious, c, hc, hdigit⟩ := h before (after ++ ys) (by simp)
  refine ⟨hprevious, c, ?_, hdigit⟩
  cases after with
  | nil => exact absurd List.getLast?_concat hlast
  | cons d after => exact hc

theorem separated (hc : IsDigit radix c) (hhead : ∃ d, cs.head? = some d ∧ IsDigit radix d)
    (h : SeparatesDigits radix cs) : SeparatesDigits radix (c :: '_' :: cs) := by
  intro before after hsplit
  match before with
  | [] => exact absurd (List.cons.inj hsplit).1 hc.ne_underscore
  | [x] =>
    obtain ⟨rfl, -, rfl⟩ : c = x ∧ '_' = '_' ∧ cs = after := by simpa using hsplit
    exact ⟨⟨c, rfl, hc⟩, hhead⟩
  | x :: y :: before =>
    obtain ⟨rfl, rfl, rfl⟩ : c = x ∧ '_' = y ∧ cs = before ++ '_' :: after := by
      simpa using hsplit
    obtain ⟨⟨d, hd, hdigit⟩, hnext⟩ := h before after rfl
    refine ⟨⟨d, ?_, hdigit⟩, hnext⟩
    rw [List.getLast?_cons, List.getLast?_cons, hd]
    rfl

/-- The character behind a separator is a digit. -/
theorem head?_of_separated (h : SeparatesDigits radix (c :: '_' :: cs)) :
    ∃ d, cs.head? = some d ∧ IsDigit radix d := (h [c] cs rfl).2

/-- A run is read without its separators. -/
theorem digitRun?_eq (h : SeparatesDigits radix cs) :
    digitRun? radix (withoutSeparators cs) = digitRun? radix cs := by
  -- what is left behind the first digit begins with a character that is no separator
  have hstep {c : Char} {cs : List Char} (hc : c ≠ '_') (hne : cs ≠ [])
      (hhead : cs.head? ≠ some '_')
      (ih : digitRun? radix (withoutSeparators cs) = digitRun? radix cs) :
      digitRun? radix (withoutSeparators (c :: cs)) = (do
        let d ← digit? radix c
        let ds ← digitRun? radix cs
        return d :: ds) := by
    obtain ⟨d, rest, rfl⟩ := List.exists_cons_of_ne_nil hne
    have hd : d ≠ '_' := fun hd => hhead (congrArg some hd)
    rw [withoutSeparators_cons hc, ← ih, withoutSeparators_cons hd, digitRun?]
    · exact List.cons_ne_nil _ _
    · rintro rest' ⟨⟩
      exact hd rfl
  fun_induction digitRun? radix cs with
  | case1 => rfl
  | case2 c =>
    have hc : c ≠ '_' := fun hc => h.head?_ne (congrArg some hc)
    rw [withoutSeparators_cons hc]
    rfl
  | case3 c cs ih =>
    have hc : c ≠ '_' := fun hc => h.head?_ne (congrArg some hc)
    obtain ⟨d, hd, hdigit⟩ := h.head?_of_separated
    have hhead : cs.head? ≠ some '_' := fun hcs =>
      hdigit.ne_underscore (Option.some.inj (hd.symm.trans hcs))
    have hne : cs ≠ [] := by
      rintro rfl
      cases hd
    have hcs : SeparatesDigits radix cs := of_append_right [c, '_'] h hhead
    exact hstep hc hne hhead (ih hcs)
  | case4 c cs hne hseparated ih =>
    have hc : c ≠ '_' := fun hc => h.head?_ne (congrArg some hc)
    have hhead : cs.head? ≠ some '_' := by
      intro hhead
      obtain ⟨rest, rfl⟩ := List.head?_eq_some_iff.1 hhead
      exact hseparated rest rfl
    exact hstep hc hne hhead (ih (of_append_right [c] h hhead))

/-- Behind a character that is no digit stands no separator. -/
theorem behind (xs : List Char) (h : SeparatesDigits radix (xs ++ c :: ys))
    (hc : ¬IsDigit radix c) : SeparatesDigits radix ys := by
  rw [← List.singleton_append, ← List.append_assoc] at h
  refine h.of_append_right _ fun hhead => ?_
  obtain ⟨rest, rfl⟩ := List.head?_eq_some_iff.1 hhead
  obtain ⟨⟨d, hd, hdigit⟩, -⟩ := h (xs ++ [c]) rest rfl
  rw [List.getLast?_concat] at hd
  exact hc (Option.some.inj hd ▸ hdigit)

/-- Unless a separator stands right behind a zero in front, the radix is announced alike without
separators. -/
theorem splitRadix_eq (h : SeparatesDigits (splitRadix cs).1 cs) (hfront : ¬['0', '_'] <+: cs) :
    SeparatesDigits (splitRadix cs).1 (splitRadix cs).2
      ∧ splitRadix (withoutSeparators cs)
        = ((splitRadix cs).1, withoutSeparators (splitRadix cs).2) := by
  revert h
  fun_cases splitRadix cs
  case case1 | case2 => exact fun h => ⟨behind ['0'] h (show ¬IsDigit 16 _ by decide), rfl⟩
  case case3 | case4 => exact fun h => ⟨behind ['0'] h (show ¬IsDigit 2 _ by decide), rfl⟩
  case case5 | case6 => exact fun h => ⟨behind ['0'] h (show ¬IsDigit 8 _ by decide), rfl⟩
  case case7 c cs h₁ h₂ h₃ h₄ h₅ h₆ =>
    intro h
    have hc : c ≠ '_' := by
      rintro rfl
      exact hfront ⟨cs, rfl⟩
    have hletter : c ∉ markLetters := by
      simp only [markLetters, List.mem_cons, List.not_mem_nil, or_false, not_or]
      exact ⟨h₁, h₂, h₃, h₄, h₅, h₆⟩
    refine ⟨of_append_right ['0'] h fun hhead => hc (Option.some.inj hhead), ?_⟩
    rw [withoutSeparators_cons (by decide), withoutSeparators_cons hc, splitRadix_zero hletter]
  case case8 hbare =>
    intro h
    refine ⟨h, ?_⟩
    cases cs with
    | nil => rfl
    | cons c rest =>
      have hc : c ≠ '_' := fun hc => h.head?_ne (congrArg some hc)
      by_cases hzero : c = '0'
      · subst hzero
        cases rest with
        | nil => rfl
        | cons d rest => exact (hbare d rest rfl).elim
      · refine IntegerText.splitRadix_of_head?_ne ?_
        rw [withoutSeparators_cons hc]
        exact fun hhead => hzero (Option.some.inj hhead)

/-- The law holds unless a separator stands right behind a zero in front. -/
theorem parseInteger?_eq {text : String}
    (h : SeparatesDigits (splitRadix text.toList).1 text.toList)
    (hfront : ¬['0', '_'] <+: text.toList) :
    parseInteger? (String.ofList (withoutSeparators text.toList)) = parseInteger? text := by
  obtain ⟨hbody, hsplit⟩ := h.splitRadix_eq hfront
  rw [← String.toList_ofList (l := withoutSeparators text.toList)] at hsplit
  have hread : parseInteger? text = (digitRun? (splitRadix text.toList).1
      (splitRadix text.toList).2).map (numberOfDigits (splitRadix text.toList).1) :=
    parseInteger?_of_splitRadix rfl
  rw [parseInteger?_of_splitRadix hsplit, hbody.digitRun?_eq, hread]

end SeparatesDigits

section LeadingZero

variable {radix : ℕ} {cs rest : List Char}

theorem DigitRun.isDigit_of_mem {ds : List ℕ} (h : DigitRun radix cs ds) :
    ∀ c ∈ cs, c ≠ '_' → IsDigit radix c := by
  induction h with
  | single hc hd => simpa using fun _ => ⟨_, hd, hc⟩
  | next hc hd _ ih => simpa using ⟨fun _ => ⟨_, hd, hc⟩, ih⟩
  | separated hc hd _ ih => simpa using ⟨fun _ => ⟨_, hd, hc⟩, ih⟩

theorem DigitRun.separatesDigits {ds : List ℕ} (h : DigitRun radix cs ds) :
    SeparatesDigits radix cs := by
  induction h with
  | single hc hd => exact .cons (IsDigit.ne_underscore ⟨_, hd, hc⟩) (.of_not_mem List.not_mem_nil)
  | next hc hd _ ih => exact .cons (IsDigit.ne_underscore ⟨_, hd, hc⟩) ih
  | separated hc hd hrun ih =>
    obtain ⟨c', d', hhead, -, hc', hd'⟩ := hrun.exists_head
    exact .separated ⟨_, hd, hc⟩ ⟨c', hhead, d', hd', hc'⟩ ih

/-- Digits one behind the other are a run. -/
theorem exists_digitRun (hne : cs ≠ []) (h : ∀ c ∈ cs, IsDigit radix c) :
    ∃ ds, DigitRun radix cs ds := by
  induction cs with
  | nil => exact absurd rfl hne
  | cons c cs ih =>
    obtain ⟨d, hd, hc⟩ := h c List.mem_cons_self
    cases cs with
    | nil => exact ⟨[d], .single hc hd⟩
    | cons c' cs =>
      obtain ⟨ds, hds⟩ := ih (List.cons_ne_nil c' cs) fun x hx => h x (List.mem_cons_of_mem c hx)
      exact ⟨d :: ds, .next hc hd hds⟩

theorem digitRun?_ne_none_iff (hne : cs ≠ []) (hcs : '_' ∉ cs) :
    digitRun? radix cs ≠ none ↔ ∀ c ∈ cs, IsDigit radix c := by
  rw [Option.ne_none_iff_exists']
  constructor
  · rintro ⟨ds, hds⟩ c hc
    exact (digitRun_of_digitRun? hds).isDigit_of_mem c hc fun h => hcs (h ▸ hc)
  · intro h
    obtain ⟨ds, hds⟩ := exists_digitRun hne h
    exact ⟨ds, hds.digitRun?_eq⟩

theorem IsDigit.not_mem_markLetters {c : Char} (h : IsDigit 8 c) : c ∉ markLetters := by
  intro hmem
  have hnone : markLetters.all (¬IsDigit 8 ·) = true := by decide
  exact of_decide_eq_true (List.all_eq_true.1 hnone c hmem) h

/-- A separator right behind a zero in front is refused. -/
theorem parseInteger?_of_front {text : String} (hfront : ['0', '_'] <+: text.toList) :
    parseInteger? text = none := by
  obtain ⟨rest, hrest⟩ := hfront
  have hsplit : splitRadix text.toList = (8, '_' :: rest) := by
    rw [← hrest]
    rfl
  rw [parseInteger?_of_splitRadix hsplit, Option.map_eq_none_iff, Option.eq_none_iff_forall_ne_some]
  intro ds hds
  exact (digitRun_of_digitRun? hds).head?_ne_underscore rfl

/-- Without that separator the text is a number when it holds nothing but octal digits. -/
theorem SeparatesDigits.parseInteger?_front_iff {text : String}
    (h : SeparatesDigits (splitRadix text.toList).1 text.toList)
    (hfront : ['0', '_'] <+: text.toList) :
    parseInteger? (String.ofList (withoutSeparators text.toList)) ≠ none
      ↔ ∀ c ∈ text.toList, c ≠ '_' → IsDigit 8 c := by
  obtain ⟨rest, hrest⟩ := hfront
  rw [← hrest] at h ⊢
  change SeparatesDigits 8 ('0' :: '_' :: rest) at h
  obtain ⟨c, hc, hdigit⟩ := h.head?_of_separated
  obtain ⟨rest, rfl⟩ := List.head?_eq_some_iff.1 hc
  have hwithout : withoutSeparators ('0' :: '_' :: c :: rest)
      = '0' :: c :: withoutSeparators rest := by
    rw [withoutSeparators_cons (by decide), withoutSeparators_underscore,
      withoutSeparators_cons hdigit.ne_underscore]
  have hsplit := splitRadix_zero hdigit.not_mem_markLetters (withoutSeparators rest)
  rw [← hwithout, ← String.toList_ofList (l := withoutSeparators _)] at hsplit
  have hnone : '_' ∉ c :: withoutSeparators rest := by
    simp [mem_withoutSeparators, hdigit.ne_underscore.symm]
  have hzero : IsDigit 8 '0' := by decide
  change parseInteger? (String.ofList (withoutSeparators ('0' :: '_' :: c :: rest))) ≠ none
    ↔ ∀ x ∈ '0' :: '_' :: c :: rest, x ≠ '_' → IsDigit 8 x
  rw [parseInteger?_of_splitRadix hsplit, ne_eq, Option.map_eq_none_iff, ← ne_eq,
    digitRun?_ne_none_iff (List.cons_ne_nil _ _) hnone]
  simp [mem_withoutSeparators, hzero, hdigit]

end LeadingZero

/-- A whole number in which every separator stands directly between two digits of its radix is read
as if the separators were not there. The one exception is a separator right behind a zero in front:
such a text is refused, also if it holds nothing but octal digits, and then the text without
separators is an octal number. -/
theorem separators_are_insignificant {text : String}
    (h : SeparatesDigits (splitRadix text.toList).1 text.toList) :
    (parseInteger? text = parseInteger? (String.ofList (withoutSeparators text.toList))
        ↔ ¬(['0', '_'] <+: text.toList ∧ ∀ c ∈ text.toList, c ≠ '_' → IsDigit 8 c))
      ∧ (['0', '_'] <+: text.toList → parseInteger? text = none) := by
  refine ⟨?_, parseInteger?_of_front⟩
  by_cases hfront : ['0', '_'] <+: text.toList
  · rw [parseInteger?_of_front hfront, ← h.parseInteger?_front_iff hfront]
    simp [hfront, eq_comm]
  · exact iff_of_true (h.parseInteger?_eq hfront).symm fun hall => hfront hall.1

/-- A separator between two octal digits behind a bare zero. -/
theorem separators_are_insignificant_octal :
    SeparatesDigits 8 "017_7".toList ∧ parseInteger? "017_7" = parseInteger? "0177" := by
  have hrun : DigitRun 8 "017_7".toList [0, 1, 7, 7] := digitRun_of_digitRun? (by decide)
  have hseparated := hrun.separatesDigits
  exact ⟨hseparated, (separators_are_insignificant hseparated).1.2 fun h => absurd h.1 (by decide)⟩

/-- Between the zero and the seven a separator stands between two octal digits, and is refused. -/
theorem separators_are_insignificant_front :
    SeparatesDigits (splitRadix "0_7".toList).1 "0_7".toList
      ∧ String.ofList (withoutSeparators "0_7".toList) = "07"
      ∧ parseInteger? "0_7" = none ∧ parseInteger? "07" = some (.int 7) := by
  have hrun : DigitRun 8 "0_7".toList [0, 7] := digitRun_of_digitRun? (by decide)
  exact ⟨hrun.separatesDigits, rfl, rfl, rfl⟩

end ExprCore
