import Mathlib.Tactic
import IncrementalGame.Json.Number
import IncrementalGame.Proofs.Binary64.Digits

/-!
# Number literals end where they end

Reading a number looks at no more than the character behind it.  So a number that is read from a
text of its own is read in front of anything else that does not go on with it
(`readNumber_append`).  The digits of a natural number are read as these digits
(`readNumber_digitsOf`), and these denote the number (`toInt?_natural`).
-/

namespace IncrementalGame

/-- Whether a text does not go on with a number that stands in front of it. -/
def EndsNumber (rest : List Char) : Prop :=
  ∀ c, rest.head? = some c → isDigit c = false ∧ c ≠ '.' ∧ c ≠ 'e' ∧ c ≠ 'E'

theorem EndsNumber.endsDigits {rest : List Char} (h : EndsNumber rest) : EndsDigits rest :=
  fun c hc => (h c hc).1

theorem endsNumber_nil : EndsNumber [] := fun c h => by simp at h

theorem endsNumber_cons {c : Char} (hdigit : isDigit c = false) (hpoint : c ≠ '.') (he : c ≠ 'e')
    (hE : c ≠ 'E') (rest : List Char) : EndsNumber (c :: rest) := by
  intro d hd
  rw [List.head?_cons, Option.some_inj] at hd
  rw [← hd]
  exact ⟨hdigit, hpoint, he, hE⟩

namespace Document

variable {s rest left : List Char}

/-! ## Parts of numbers -/

theorem digits_append (s : List Char) (hrest : EndsDigits rest) :
    digits (s ++ rest) = ((digits s).1, (digits s).2 ++ rest) := by
  induction s with
  | nil =>
    rw [List.nil_append, digits, takeWhile_of_endsDigits hrest, dropWhile_of_endsDigits hrest]
    rfl
  | cons c s ih =>
    rw [digits, Prod.mk.injEq] at ih
    rw [digits, digits, List.cons_append, List.takeWhile_cons, List.dropWhile_cons,
      List.takeWhile_cons, List.dropWhile_cons]
    split
    · rw [ih.1, ih.2]
      rfl
    · rfl

theorem digits1_append {found : List Char} (h : digits1 s = some (found, left))
    (hrest : EndsDigits rest) : digits1 (s ++ rest) = some (found, left ++ rest) := by
  have happend := digits_append s hrest
  rw [digits1] at h ⊢
  rw [happend]
  cases hfound : digits s with
  | mk first behind =>
    rw [hfound] at h
    cases first with
    | nil => exact absurd h (by simp)
    | cons c first =>
      obtain ⟨rfl, rfl⟩ := Prod.mk.inj (Option.some.inj h)
      rfl

theorem wholeDigits_of_ne_zero {c : Char} (h : c ≠ '0') (s : List Char) :
    wholeDigits (c :: s) = digits1 (c :: s) := by
  rw [wholeDigits]
  rintro _ hc
  exact h (List.cons.inj hc).1

theorem wholeDigits_append {found : List Char} (h : wholeDigits s = some (found, left))
    (hrest : EndsDigits rest) : wholeDigits (s ++ rest) = some (found, left ++ rest) := by
  cases s with
  | nil => exact absurd (show none = some (found, left) from h) (by simp)
  | cons c s =>
    by_cases hzero : c = '0'
    · subst hzero
      obtain ⟨rfl, rfl⟩ := Prod.mk.inj (Option.some.inj h)
      rfl
    · rw [wholeDigits_of_ne_zero hzero] at h
      rw [List.cons_append, wholeDigits_of_ne_zero hzero]
      exact digits1_append h hrest

/-- Where no point follows there is no fraction. -/
theorem fractionDigits_of_head (h : ∀ c, s.head? = some c → c ≠ '.') :
    fractionDigits s = some (none, s) := by
  cases s with
  | nil => rfl
  | cons c s =>
    rw [fractionDigits]
    rintro _ hc
    exact h c rfl (List.cons.inj hc).1

theorem fractionDigits_append {found : Option (List Char)}
    (h : fractionDigits s = some (found, left)) (hrest : EndsNumber rest) :
    fractionDigits (s ++ rest) = some (found, left ++ rest) := by
  cases s with
  | nil =>
    obtain ⟨rfl, rfl⟩ := Prod.mk.inj (Option.some.inj h)
    exact fractionDigits_of_head fun c hc => (hrest c hc).2.1
  | cons c s =>
    by_cases hpoint : c = '.'
    · subst hpoint
      unfold fractionDigits at h
      obtain ⟨⟨ds, behind⟩, hds, hfound⟩ := Option.map_eq_some_iff.mp h
      obtain ⟨rfl, rfl⟩ := Prod.mk.inj hfound
      rw [List.cons_append, fractionDigits, digits1_append hds hrest.endsDigits, Option.map_some]
    · rw [fractionDigits_of_head (by simpa using hpoint)] at h
      obtain ⟨rfl, rfl⟩ := Prod.mk.inj (Option.some.inj h)
      exact fractionDigits_of_head (by simpa using hpoint)

/-- The exponent behind its letter. -/
def exponentDigits : List Char → Option (Option Int × List Char)
  | '-' :: s => (digits1 s).map fun found => (some (-(valueOf found.1 : Int)), found.2)
  | '+' :: s => (digits1 s).map fun found => (some (valueOf found.1 : Int), found.2)
  | s => (digits1 s).map fun found => (some (valueOf found.1 : Int), found.2)

theorem exponentPart_cons (c : Char) (s : List Char) :
    exponentPart (c :: s) =
      if c = 'e' ∨ c = 'E' then exponentDigits s else some (none, c :: s) := by
  by_cases hletter : c = 'e' ∨ c = 'E'
  · rw [if_pos hletter]
    unfold exponentPart
    simp only [if_pos hletter]
    split
    · rfl
    · rfl
    next hminus hplus => rw [exponentDigits.eq_3 s hminus hplus]
  · rw [if_neg hletter]
    unfold exponentPart
    simp only [if_neg hletter]

theorem exponentDigits_of_head {c : Char} (hminus : c ≠ '-') (hplus : c ≠ '+') (s : List Char) :
    exponentDigits (c :: s) =
      (digits1 (c :: s)).map fun found => (some (valueOf found.1 : Int), found.2) := by
  rw [exponentDigits]
  · rintro _ hc
    exact hminus (List.cons.inj hc).1
  · rintro _ hc
    exact hplus (List.cons.inj hc).1

theorem exponentDigits_append {found : Option Int} (h : exponentDigits s = some (found, left))
    (hrest : EndsNumber rest) : exponentDigits (s ++ rest) = some (found, left ++ rest) := by
  cases s with
  | nil => exact absurd (show none = some (found, left) from h) (by simp)
  | cons c s =>
    by_cases hminus : c = '-'
    · subst hminus
      unfold exponentDigits at h
      obtain ⟨⟨ds, behind⟩, hds, hfound⟩ := Option.map_eq_some_iff.mp h
      obtain ⟨rfl, rfl⟩ := Prod.mk.inj hfound
      rw [List.cons_append, exponentDigits, digits1_append hds hrest.endsDigits, Option.map_some]
    · by_cases hplus : c = '+'
      · subst hplus
        unfold exponentDigits at h
        obtain ⟨⟨ds, behind⟩, hds, hfound⟩ := Option.map_eq_some_iff.mp h
        obtain ⟨rfl, rfl⟩ := Prod.mk.inj hfound
        rw [List.cons_append, exponentDigits, digits1_append hds hrest.endsDigits,
          Option.map_some]
      · rw [exponentDigits_of_head hminus hplus] at h
        obtain ⟨⟨ds, behind⟩, hds, hfound⟩ := Option.map_eq_some_iff.mp h
        obtain ⟨rfl, rfl⟩ := Prod.mk.inj hfound
        have happend := digits1_append hds hrest.endsDigits
        rw [List.cons_append] at happend ⊢
        rw [exponentDigits_of_head hminus hplus, happend, Option.map_some]

/-- Where no letter follows there is no exponent. -/
theorem exponentPart_of_head (h : ∀ c, s.head? = some c → c ≠ 'e' ∧ c ≠ 'E') :
    exponentPart s = some (none, s) := by
  cases s with
  | nil => rfl
  | cons c s =>
    obtain ⟨he, hE⟩ := h c rfl
    rw [exponentPart_cons, if_neg (not_or.mpr ⟨he, hE⟩)]

theorem exponentPart_append {found : Option Int} (h : exponentPart s = some (found, left))
    (hrest : EndsNumber rest) : exponentPart (s ++ rest) = some (found, left ++ rest) := by
  cases s with
  | nil =>
    obtain ⟨rfl, rfl⟩ := Prod.mk.inj (Option.some.inj h)
    exact exponentPart_of_head fun c hc => (hrest c hc).2.2
  | cons c s =>
    rw [exponentPart_cons] at h
    rw [List.cons_append, exponentPart_cons]
    by_cases hletter : c = 'e' ∨ c = 'E'
    · rw [if_pos hletter] at h ⊢
      exact exponentDigits_append h hrest
    · rw [if_neg hletter] at h ⊢
      obtain ⟨rfl, rfl⟩ := Prod.mk.inj (Option.some.inj h)
      rfl

/-! ## Numbers -/

theorem readUnsigned_append {negative : Bool} {literal : Literal}
    (h : readUnsigned negative s = some (literal, left)) (hrest : EndsNumber rest) :
    readUnsigned negative (s ++ rest) = some (literal, left ++ rest) := by
  rw [readUnsigned] at h
  obtain ⟨⟨whole, s₁⟩, hwhole, h⟩ := Option.bind_eq_some_iff.mp h
  obtain ⟨⟨fraction, s₂⟩, hfraction, h⟩ := Option.bind_eq_some_iff.mp h
  obtain ⟨⟨exponent, s₃⟩, hexponent, h⟩ := Option.bind_eq_some_iff.mp h
  obtain ⟨rfl, rfl⟩ := Prod.mk.inj (Option.some.inj h)
  refine Option.bind_eq_some_iff.mpr ⟨_, wholeDigits_append hwhole hrest.endsDigits, ?_⟩
  refine Option.bind_eq_some_iff.mpr ⟨_, fractionDigits_append hfraction hrest, ?_⟩
  exact Option.bind_eq_some_iff.mpr ⟨_, exponentPart_append hexponent hrest, rfl⟩

theorem readNumber_of_ne_minus {c : Char} (h : c ≠ '-') (s : List Char) :
    readNumber (c :: s) = readUnsigned false (c :: s) := by
  rw [readNumber]
  rintro _ hc
  exact h (List.cons.inj hc).1

/-- What is read in front of nothing is read in front of anything that ends a number. -/
theorem readNumber_append {literal : Literal} (h : readNumber s = some (literal, left))
    (hrest : EndsNumber rest) : readNumber (s ++ rest) = some (literal, left ++ rest) := by
  cases s with
  | nil => exact absurd (show none = some (literal, left) from h) (by simp)
  | cons c s =>
    by_cases hminus : c = '-'
    · subst hminus
      exact readUnsigned_append h hrest
    · rw [readNumber_of_ne_minus hminus] at h
      rw [List.cons_append, readNumber_of_ne_minus hminus]
      exact readUnsigned_append h hrest

/-- A number starts with a digit or with a sign. -/
theorem exists_head_of_readNumber {found : Literal × List Char} (h : readNumber s = some found) :
    ∃ c behind, s = c :: behind ∧ (isDigit c = true ∨ c = '-') := by
  cases s with
  | nil => exact absurd (show none = some found from h) (by simp)
  | cons c s =>
    refine ⟨c, s, rfl, ?_⟩
    by_contra hne
    rw [not_or, Bool.not_eq_true] at hne
    obtain ⟨hdigit, hminus⟩ := hne
    have hzero : c ≠ '0' := by
      rintro rfl
      exact absurd hdigit (by decide)
    have hnone : digits1 (c :: s) = none := by
      rw [digits1, digits, takeWhile_of_endsDigits (endsDigits_cons hdigit s)]
    rw [readNumber_of_ne_minus hminus, readUnsigned, wholeDigits_of_ne_zero hzero, hnone] at h
    exact absurd (show none = some found from h) (by simp)

/-! ## Natural numbers -/

/-- Only zero starts with the digit zero. -/
theorem head?_digitsOf_ne_zero {n : Nat} (h : n ≠ 0) : (digitsOf n).head? ≠ some '0' := by
  induction n using Nat.strong_induction_on with
  | _ n ih =>
    by_cases hlt : n < 10
    · rw [digitsOf, Nat.toDigits_of_lt_base hlt]
      have hall : ∀ d : Fin 10, d.val ≠ 0 → [Nat.digitChar d.val].head? ≠ some '0' := by decide
      exact hall ⟨n, hlt⟩ h
    · have hdiv := ih (n / 10) (by omega) (by omega)
      have hne := digitsOf_ne_nil (n / 10)
      rw [digitsOf] at hdiv hne ⊢
      rw [Nat.toDigits_of_base_le (by decide) (by omega), List.head?_append_of_ne_nil _ hne]
      exact hdiv

/-- The literal of a natural number. -/
def natural (n : Nat) : Literal := ⟨false, ⟨digitsOf n, [], 0⟩, true⟩

theorem digits1_digitsOf (n : Nat) : digits1 (digitsOf n) = some (digitsOf n, []) := by
  have htake := takeWhile_digits (l := digitsOf n) (fun _ => isDigit_of_mem_digitsOf)
    endsDigits_nil
  have hdrop := dropWhile_digits (l := digitsOf n) (fun _ => isDigit_of_mem_digitsOf)
    endsDigits_nil
  rw [List.append_nil] at htake hdrop
  rw [digits1, digits, htake, hdrop]
  have hne := digitsOf_ne_nil n
  cases hn : digitsOf n with
  | nil => exact absurd hn hne
  | cons c ds => rfl

/-- The digits of a natural number are read as these digits. -/
theorem readNumber_digitsOf (n : Nat) : readNumber (digitsOf n) = some (natural n, []) := by
  have hwhole : wholeDigits (digitsOf n) = some (digitsOf n, []) := by
    by_cases hzero : n = 0
    · rw [hzero]
      rfl
    · have hhead := head?_digitsOf_ne_zero hzero
      have hdigits := digits1_digitsOf n
      cases hn : digitsOf n with
      | nil => exact absurd hn (digitsOf_ne_nil n)
      | cons c ds =>
        rw [hn] at hhead hdigits
        rw [wholeDigits_of_ne_zero (by simpa using hhead)]
        exact hdigits
  have hunsigned : readUnsigned false (digitsOf n) = some (natural n, []) := by
    rw [readUnsigned, hwhole]
    rfl
  cases hn : digitsOf n with
  | nil => exact absurd hn (digitsOf_ne_nil n)
  | cons c ds =>
    have hdigit : isDigit c = true :=
      isDigit_of_mem_digitsOf (n := n) (by rw [hn]; exact List.mem_cons_self)
    have hminus : c ≠ '-' := by
      rintro rfl
      exact absurd hdigit (by decide)
    rw [readNumber_of_ne_minus hminus, ← hn, hunsigned]

/-- The literal of a natural number of 64 bits denotes it. -/
theorem toInt?_natural {n : Nat} (h : n < UInt64.size) : (natural n).toInt? = some (n : Int) := by
  unfold Literal.toInt?
  simp only [natural, valueOf_digitsOf, if_pos h]
  rfl

end Document

end IncrementalGame
