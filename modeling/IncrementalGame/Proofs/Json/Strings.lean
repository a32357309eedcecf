import Mathlib.Tactic
import IncrementalGame.Json.Value

/-!
# String literals are read back

Each character is written as itself or as one escape (`Escapes`), and either is read as the code of
the character (`stringCodes_of_escapes`).  The codes of a text name no half of a surrogate pair, so
they make the text again (`textOfCodes_codes`), and a literal is read as the text it was written for
(`readString_literal`).
-/

namespace IncrementalGame.Json

open Document

/-- The ways to write a character in a string literal. -/
inductive Escapes (c : Char) : List Char → Prop where
  | plain (hquote : c ≠ '"') (hbackslash : c ≠ '\\') (hcontrol : ¬ c < ' ') : Escapes c [c]
  | letter {e : Char} (h : escaped? e = some c) : Escapes c ['\\', e]
  | code {h₁ h₂ h₃ h₄ : Char} (h : hexValue4? h₁ h₂ h₃ h₄ = some c.toNat) :
    Escapes c ['\\', 'u', h₁, h₂, h₃, h₄]

/-- The escape of a control character, which has four digits, and the code that they make. -/
theorem control_escape : ∀ n : Fin 32,
    '\\' :: 'u' :: '0' :: '0' :: (if n.val < 16 then ['0'] else []) ++ Text.hexDigits n.val =
      ['\\', 'u', '0', '0', Nat.digitChar (n.val / 16), Nat.digitChar (n.val % 16)] ∧
    hexValue4? '0' '0' (Nat.digitChar (n.val / 16)) (Nat.digitChar (n.val % 16)) =
      some n.val := by
  decide

theorem escapes_escapeChar (c : Char) : Escapes c (escapeChar c) := by
  unfold escapeChar
  by_cases hquote : c = '"'
  · subst hquote
    exact .letter rfl
  rw [if_neg hquote]
  by_cases hbackslash : c = '\\'
  · subst hbackslash
    exact .letter rfl
  rw [if_neg hbackslash]
  -- the control characters that have a letter
  by_cases hnewline : c = '\n'
  · subst hnewline
    exact .letter rfl
  by_cases hreturn : c = '\r'
  · subst hreturn
    exact .letter rfl
  by_cases htab : c = '\t'
  · subst htab
    exact .letter rfl
  by_cases hbackspace : c = Char.ofNat 8
  · subst hbackspace
    exact .letter rfl
  by_cases hfeed : c = Char.ofNat 12
  · subst hfeed
    exact .letter rfl
  rw [if_neg hnewline, if_neg hreturn, if_neg htab, if_neg hbackspace, if_neg hfeed]
  by_cases hcontrol : c < ' '
  · have hlt : c.toNat < 32 := hcontrol
    obtain ⟨hescape, hvalue⟩ := control_escape ⟨c.toNat, hlt⟩
    rw [if_pos hcontrol]
    exact hescape ▸ .code hvalue
  · rw [if_neg hcontrol]
    exact .plain hquote hbackslash hcontrol

/-- A character is read as its code, whichever way it is written. -/
theorem stringCodes_of_escapes {c : Char} {written : List Char} (h : Escapes c written)
    {rest : List Char} {codes : List Nat} {behind : List Char}
    (hrest : stringCodes rest = some (codes, behind)) :
    stringCodes (written ++ rest) = some (c.toNat :: codes, behind) := by
  cases h with
  | plain hquote hbackslash hcontrol =>
    rw [List.singleton_append, stringCodes.eq_5 c rest hquote
      (fun _ _ _ _ _ hc => absurd hc hbackslash) (fun _ _ hc => absurd hc hbackslash),
      if_neg hcontrol, hrest]
  | @letter e he =>
    have hu : e ≠ 'u' := by
      rintro rfl
      rw [show escaped? 'u' = none from rfl] at he
      exact absurd he (by simp)
    show stringCodes ('\\' :: e :: rest) = _
    rw [stringCodes.eq_4 e rest (fun _ _ _ _ _ hc => absurd hc hu), he, hrest]
  | code hvalue =>
    show stringCodes ('\\' :: 'u' :: _ :: _ :: _ :: _ :: rest) = _
    rw [stringCodes.eq_3, hvalue, hrest]

/-- The codes of a text, and what stands behind its literal. -/
theorem stringCodes_literal (text rest : List Char) :
    stringCodes (text.flatMap escapeChar ++ '"' :: rest) = some (text.map Char.toNat, rest) := by
  induction text with
  | nil => rfl
  | cons c text ih =>
    rw [List.flatMap_cons, List.append_assoc]
    exact stringCodes_of_escapes (escapes_escapeChar c) ih

/-- A character is no half of a surrogate pair. -/
theorem not_surrogate (c : Char) : ¬ (0xd800 ≤ c.toNat ∧ c.toNat ≤ 0xdfff) := by
  rintro ⟨hlow, hhigh⟩
  rcases c.valid with h | ⟨h, _⟩
  · have : c.toNat < 0xd800 := h
    omega
  · have : 0xdfff < c.toNat := h
    omega

/-- The codes of a text make the text again. -/
theorem textOfCodes_codes (text : List Char) : textOfCodes (text.map Char.toNat) = some text := by
  induction text with
  | nil => rfl
  | cons c text ih =>
    have hc := not_surrogate c
    cases text with
    | nil =>
      rw [List.map_singleton, textOfCodes, if_neg hc, Char.ofNat_toNat]
    | cons d text =>
      rw [List.map_cons, List.map_cons, textOfCodes, if_neg (by omega), if_neg (by omega)]
      rw [List.map_cons] at ih
      rw [ih, Char.ofNat_toNat, Option.map_some]

/-- **A literal is read as the text it was written for.** -/
theorem readString_literal (s : String) (rest : List Char) :
    readString (s.toList.flatMap escapeChar ++ '"' :: rest) = some (some s, rest) := by
  rw [readString, stringCodes_literal, Option.map_some]
  simp only [textOfCodes_codes, Option.map_some, String.ofList_toList]

end IncrementalGame.Json
