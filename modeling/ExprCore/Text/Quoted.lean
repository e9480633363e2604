import ExprCore.Text.Visible

/-!
# Quoted texts

Texts in quotes, for a reader who has to see every character: what leaves no mark on paper is
written by number.

## Main definitions

- `quotedChar`: how a character is written between quotes
- `quoted`: a text in quotes

## Main statements

- `quotedChar_of_visible`: visible characters other than quotes and backslashes stand for themselves
-/

namespace ExprCore

/-- A character written by the number that it has, in base sixteen. -/
def numberedChar (c : Char) : String :=
  "\\u\x7b" ++ String.ofList (Nat.toDigits 16 c.toNat) ++ "\x7d"

/-- How a character is written between quotes. Quotes, backslashes and the usual control characters
have an escape of one letter. -/
def quotedChar (c : Char) : String :=
  if c = '\x22' then "\\\x22"
  else if c = '\x5c' then "\\\\"
  else if c = '\n' then "\\n"
  else if c = '\r' then "\\r"
  else if c = '\t' then "\\t"
  else if c = '\x00' then "\\0"
  else if isVisible c then String.singleton c
  else numberedChar c

def quoted (text : String) : String :=
  "\x22" ++ String.join (text.toList.map quotedChar) ++ "\x22"

/-- A visible character other than a quote or a backslash stands for itself. -/
theorem quotedChar_of_visible {c : Char} (h : isVisible c = true) (hquote : c ≠ '\x22')
    (hbackslash : c ≠ '\x5c') : quotedChar c = String.singleton c := by
  have hcontrol : ¬ c.toNat ≤ 0x1f := fun hc => by simp [isVisible_of_control hc] at h
  have hne : ∀ d : Char, d.toNat ≤ 0x1f → c ≠ d := fun d hd he => hcontrol (he ▸ hd)
  simp [quotedChar, h, hquote, hbackslash, hne '\n' (by decide), hne '\r' (by decide),
    hne '\t' (by decide), hne '\x00' (by decide)]

end ExprCore
