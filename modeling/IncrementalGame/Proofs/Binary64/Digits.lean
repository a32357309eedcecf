import Mathlib.Tactic
import IncrementalGame.Binary64.Text
import IncrementalGame.Proofs.Text.Runs

/-!
# Rows of digits

What a row of digits denotes, and what reading finds when a row of digits ends: the digits of a
natural number denote it again (`valueOf_digitsOf`), zeros in front of them change nothing and zeros
behind them are powers of ten.  A reader that takes digits as long as there are any takes exactly a
row of digits before something else (`takeWhile_digits`, `dropWhile_digits`).
-/

namespace IncrementalGame

/-! ## Which characters are digits -/

/-- The test for digits is that of the library. -/
theorem isDigit_eq (c : Char) : isDigit c = c.isDigit := by
  rw [isDigit, Char.isDigit, ← Bool.decide_and]
  rfl

theorem isDigit_of_mem_digitsOf {n : Nat} {c : Char} (h : c ∈ digitsOf n) : isDigit c = true := by
  rw [isDigit_eq]
  exact Nat.isDigit_of_mem_toDigits (by decide) (by decide) h

theorem digitsOf_ne_nil (n : Nat) : digitsOf n ≠ [] := Nat.toDigits_ne_nil

theorem isDigit_of_mem_replicate_zero {n : Nat} {c : Char} (h : c ∈ List.replicate n '0') :
    isDigit c = true := by
  rw [List.eq_of_mem_replicate h]
  rfl

/-! ## What a row of digits denotes -/

theorem valueOf_eq_ofDigitChars (l : List Char) : valueOf l = Nat.ofDigitChars 10 l 0 := by
  rw [valueOf, Nat.ofDigitChars_eq_foldl]
  congr 1
  funext n c
  rw [Nat.mul_comm, digitValue]

/-- The digits of a natural number denote it. -/
theorem valueOf_digitsOf (n : Nat) : valueOf (digitsOf n) = n := by
  rw [valueOf_eq_ofDigitChars]
  exact Nat.ofDigitChars_toDigits (by decide) (by decide)

/-- A row of digits behind another one. -/
theorem valueOf_append (l m : List Char) :
    valueOf (l ++ m) = 10 ^ m.length * valueOf l + valueOf m := by
  rw [valueOf_eq_ofDigitChars, Nat.ofDigitChars_append, Nat.ofDigitChars_eq_ofDigitChars_zero,
    ← valueOf_eq_ofDigitChars, ← valueOf_eq_ofDigitChars]

theorem valueOf_replicate_zero (n : Nat) : valueOf (List.replicate n '0') = 0 := by
  rw [valueOf_eq_ofDigitChars, Nat.ofDigitChars_replicate_zero, Nat.mul_zero]

/-! ## Where a row of digits ends -/

/-- Whether a text starts with something other than a digit, or is empty. -/
def EndsDigits (s : List Char) : Prop := ∀ c, s.head? = some c → isDigit c = false

theorem endsDigits_nil : EndsDigits [] := fun c h => by simp at h

theorem endsDigits_cons {c : Char} (h : isDigit c = false) (s : List Char) : EndsDigits (c :: s) :=
  fun d hd => by
    rw [List.head?_cons, Option.some_inj] at hd
    rw [← hd]
    exact h

theorem EndsDigits.any {s : List Char} (h : EndsDigits s) : s.head?.any isDigit = false := by
  cases s with
  | nil => rfl
  | cons c s => exact h c rfl

theorem takeWhile_of_endsDigits {s : List Char} (h : EndsDigits s) : s.takeWhile isDigit = [] :=
  Text.takeWhile_eq_nil h.any

theorem dropWhile_of_endsDigits {s : List Char} (h : EndsDigits s) : s.dropWhile isDigit = s :=
  Text.dropWhile_eq_self h.any

/-- The digits taken are those of the row. -/
theorem takeWhile_digits {l s : List Char} (hl : ∀ c ∈ l, isDigit c = true) (hs : EndsDigits s) :
    (l ++ s).takeWhile isDigit = l :=
  Text.takeWhile_run hl hs.any

/-- What is left is what stands behind the row. -/
theorem dropWhile_digits {l s : List Char} (hl : ∀ c ∈ l, isDigit c = true) (hs : EndsDigits s) :
    (l ++ s).dropWhile isDigit = s :=
  Text.dropWhile_run hl hs.any

/-! ## Numerals -/

/-- A row of digits is a numeral without a point. -/
theorem numeralOf?_digits {l : List Char} (hl : ∀ c ∈ l, isDigit c = true) (hne : l ≠ []) :
    Binary64.numeralOf? l = some ⟨l, [], 0⟩ := by
  have htake := takeWhile_digits hl endsDigits_nil
  have hdrop := dropWhile_digits hl endsDigits_nil
  rw [List.append_nil] at htake hdrop
  rw [Binary64.numeralOf?, htake, hdrop]
  simp only [List.append_nil, if_neg hne, Binary64.exponentOf?, Option.map_some]

/-- Two rows of digits around a point are a numeral with a fraction. -/
theorem numeralOf?_point {l m : List Char} (hl : ∀ c ∈ l, isDigit c = true) (hne : l ≠ [])
    (hm : ∀ c ∈ m, isDigit c = true) :
    Binary64.numeralOf? (l ++ '.' :: m) = some ⟨l, m, 0⟩ := by
  have hpoint : EndsDigits ('.' :: m) := endsDigits_cons (by decide) m
  have htake := takeWhile_digits hm endsDigits_nil
  have hdrop := dropWhile_digits hm endsDigits_nil
  rw [List.append_nil] at htake hdrop
  have hwhole : l ++ m ≠ [] := List.append_ne_nil_of_left_ne_nil hne m
  rw [Binary64.numeralOf?, takeWhile_digits hl hpoint, dropWhile_digits hl hpoint]
  simp only [htake, hdrop, if_neg hwhole, Binary64.exponentOf?, Option.map_some]

end IncrementalGame
