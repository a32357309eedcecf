import IncrementalGame.Proofs.Binary64.Midpoint
import IncrementalGame.Proofs.Json.Numbers

/-!
# Numbers are written as literals

A number that is no integer is written with a point or with an exponent, and each of the ways to do
so is one literal: the digits before the point do not start with a zero unless they are nothing else
(`IsWhole`), and digits stand wherever the grammar wants some.  A zero with further zeros behind it
would be no literal; it is not written, since the shortest digits of a number other than zero are
not all zero (`exponent_shortest_of_coefficient`).

So every finite number is written as one literal, whatever that literal is read as
(`exists_readNumber_render`).
-/

namespace IncrementalGame

open Document

/-! ## Rows of digits in literals -/

/-- Whether a row of digits may stand before the point. -/
structure IsWhole (l : List Char) : Prop where
  digits : ∀ c ∈ l, isDigit c = true
  ne_nil : l ≠ []
  leading : l = ['0'] ∨ l.head? ≠ some '0'

theorem isDigit_of_mem_zero {c : Char} (h : c ∈ ['0']) : isDigit c = true :=
  isDigit_of_mem_replicate_zero (n := 1) h

theorem isWhole_zero : IsWhole ['0'] :=
  ⟨fun _ => isDigit_of_mem_zero, List.cons_ne_nil _ _, .inl rfl⟩

theorem isWhole_digitsOf (n : Nat) : IsWhole (digitsOf n) := by
  refine ⟨fun _ => isDigit_of_mem_digitsOf, digitsOf_ne_nil n, ?_⟩
  by_cases h : n = 0
  · rw [h]
    exact .inl rfl
  · exact .inr (head?_digitsOf_ne_zero h)

/-- The first digits of a number that is not zero. -/
theorem isWhole_take {n k : Nat} (hn : n ≠ 0) (hk : k ≠ 0) : IsWhole ((digitsOf n).take k) := by
  refine ⟨fun c hc => isDigit_of_mem_digitsOf (List.mem_of_mem_take hc), ?_, .inr ?_⟩
  · rw [ne_eq, List.take_eq_nil_iff, not_or]
    exact ⟨hk, digitsOf_ne_nil n⟩
  · rw [List.head?_take, if_neg hk]
    exact head?_digitsOf_ne_zero hn

/-- The digits of a number that is not zero may have zeros behind them. -/
theorem isWhole_zeros {n : Nat} (hn : n ≠ 0) (k : Nat) :
    IsWhole (digitsOf n ++ List.replicate k '0') := by
  refine ⟨fun c hc => ?_, List.append_ne_nil_of_left_ne_nil (digitsOf_ne_nil n) _, .inr ?_⟩
  · rcases List.mem_append.mp hc with hc | hc
    · exact isDigit_of_mem_digitsOf hc
    · exact isDigit_of_mem_replicate_zero hc
  · rw [List.head?_append_of_ne_nil _ (digitsOf_ne_nil n)]
    exact head?_digitsOf_ne_zero hn

namespace Document

variable {l m s : List Char}

/-- A row of digits is taken as it is. -/
theorem digits1_of_digits (hl : ∀ c ∈ l, isDigit c = true) (hne : l ≠ []) (hs : EndsDigits s) :
    digits1 (l ++ s) = some (l, s) := by
  rw [digits1, digits, takeWhile_digits hl hs, dropWhile_digits hl hs]
  cases l with
  | nil => exact absurd rfl hne
  | cons c l => rfl

theorem wholeDigits_of_isWhole (hl : IsWhole l) (hs : EndsDigits s) :
    wholeDigits (l ++ s) = some (l, s) := by
  rcases hl.leading with rfl | hhead
  · rfl
  · have hdigits := digits1_of_digits hl.digits hl.ne_nil hs
    cases l with
    | nil => exact absurd rfl hl.ne_nil
    | cons c l =>
      rw [List.cons_append] at hdigits ⊢
      rw [wholeDigits_of_ne_zero (by simpa using hhead), hdigits]

/-- Digits, and behind them a fraction and an exponent, are read to the end. -/
theorem readUnsigned_of_parts (negative : Bool) (hl : IsWhole l) (hs : EndsDigits s)
    {fraction : Option (List Char)} {behind : List Char}
    (hfraction : fractionDigits s = some (fraction, behind)) {exponent : Option Int}
    (hexponent : exponentPart behind = some (exponent, [])) :
    ∃ literal, readUnsigned negative (l ++ s) = some (literal, []) := by
  refine ⟨⟨negative, ⟨l, fraction.getD [], exponent.getD 0⟩,
    fraction.isNone && exponent.isNone⟩, ?_⟩
  refine Option.bind_eq_some_iff.mpr ⟨_, wholeDigits_of_isWhole hl hs, ?_⟩
  refine Option.bind_eq_some_iff.mpr ⟨_, hfraction, ?_⟩
  exact Option.bind_eq_some_iff.mpr ⟨_, hexponent, rfl⟩

theorem endsDigits_point (s : List Char) : EndsDigits ('.' :: s) := endsDigits_cons (by decide) s

theorem endsDigits_letter (s : List Char) : EndsDigits ('e' :: s) := endsDigits_cons (by decide) s

/-- A point and digits behind it are a fraction. -/
theorem fractionDigits_point (hm : ∀ c ∈ m, isDigit c = true) (hne : m ≠ []) (hs : EndsDigits s) :
    fractionDigits ('.' :: (m ++ s)) = some (some m, s) := by
  rw [fractionDigits, digits1_of_digits hm hne hs]
  rfl

/-- Digits around a point are read to the end. -/
theorem readUnsigned_point (negative : Bool) (hl : IsWhole l) (hm : ∀ c ∈ m, isDigit c = true)
    (hne : m ≠ []) : ∃ literal, readUnsigned negative (l ++ '.' :: m) = some (literal, []) := by
  have hfraction := fractionDigits_point hm hne endsDigits_nil
  rw [List.append_nil] at hfraction
  exact readUnsigned_of_parts negative hl (endsDigits_point m) hfraction rfl

/-- The letter, a sign or none, and the digits of a number are an exponent. -/
theorem exists_exponentPart (negative : Bool) (n : Nat) :
    ∃ exponent, exponentPart ('e' :: ((if negative then ['-'] else []) ++ digitsOf n)) =
      some (exponent, []) := by
  rw [exponentPart_cons, if_pos (.inl rfl)]
  have hdigits := digits1_digitsOf n
  cases negative with
  | true =>
    show ∃ exponent, exponentDigits ('-' :: digitsOf n) = some (exponent, [])
    rw [exponentDigits, hdigits]
    exact ⟨_, rfl⟩
  | false =>
    show ∃ exponent, exponentDigits (digitsOf n) = some (exponent, [])
    cases hn : digitsOf n with
    | nil => exact absurd hn (digitsOf_ne_nil n)
    | cons c rest =>
      have hdigit : isDigit c = true :=
        isDigit_of_mem_digitsOf (n := n) (by rw [hn]; exact List.mem_cons_self)
      have hminus : c ≠ '-' := by
        rintro rfl
        exact absurd hdigit (by decide)
      have hplus : c ≠ '+' := by
        rintro rfl
        exact absurd hdigit (by decide)
      rw [hn] at hdigits
      rw [exponentDigits_of_head hminus hplus, hdigits]
      exact ⟨_, rfl⟩

end Document

/-! ## Decimals as literals -/

namespace Binary64

/-- A first digit, the others behind a point if there are any, and an exponent. -/
theorem exists_readUnsigned_scientific (negative : Bool) (d : Decimal) :
    ∃ literal, readUnsigned negative d.scientific = some (literal, []) := by
  set exponent : Int := d.exponent + ((digitsOf d.coefficient).length - 1 : Nat) with hexponent
  obtain ⟨_, hpart⟩ := exists_exponentPart (decide (exponent < 0)) exponent.natAbs
  have htext : d.scientific = (digitsOf d.coefficient).take 1 ++
      ((if (digitsOf d.coefficient).length = 1 then [] else '.' :: (digitsOf d.coefficient).drop 1) ++
        'e' :: ((if decide (exponent < 0) then ['-'] else []) ++ digitsOf exponent.natAbs)) := by
    simp only [Decimal.scientific, ← hexponent, decide_eq_true_eq, List.append_assoc,
      List.cons_append]
  rw [htext]
  by_cases hone : (digitsOf d.coefficient).length = 1
  · have hall : (digitsOf d.coefficient).take 1 = digitsOf d.coefficient :=
      List.take_of_length_le hone.le
    rw [if_pos hone, hall, List.nil_append]
    refine readUnsigned_of_parts negative (isWhole_digitsOf d.coefficient) (endsDigits_letter _)
      (fractionDigits_of_head fun c hc => ?_) hpart
    rw [List.head?_cons, Option.some_inj] at hc
    rw [← hc]
    decide
  · have hne : d.coefficient ≠ 0 := by
      intro hzero
      rw [hzero] at hone
      exact hone rfl
    have hlong : (digitsOf d.coefficient).drop 1 ≠ [] := by
      have hpos := List.length_pos_iff.mpr (digitsOf_ne_nil d.coefficient)
      rw [ne_eq, List.drop_eq_nil_iff]
      omega
    rw [if_neg hone, List.cons_append]
    exact readUnsigned_of_parts negative (isWhole_take hne one_ne_zero) (endsDigits_point _)
      (fractionDigits_point (fun c hc => isDigit_of_mem_digitsOf (List.mem_of_mem_drop hc)) hlong
        (endsDigits_letter _)) hpart

/-- A decimal with a fraction has digits around its point. -/
theorem exists_readUnsigned_positional (negative : Bool) {d : Decimal} (h : d.exponent < 0) :
    ∃ literal, readUnsigned negative d.positional = some (literal, []) := by
  have hplaces : (-d.exponent).toNat ≠ 0 := by omega
  rw [Decimal.positional]
  simp only [if_neg hplaces]
  by_cases hlong : (-d.exponent).toNat < (digitsOf d.coefficient).length
  · have hne : d.coefficient ≠ 0 := by
      intro hzero
      have hone : (digitsOf d.coefficient).length = 1 := by rw [hzero]; rfl
      omega
    rw [if_pos hlong]
    refine readUnsigned_point negative (isWhole_take hne (by omega))
      (fun c hc => isDigit_of_mem_digitsOf (List.mem_of_mem_drop hc)) ?_
    rw [ne_eq, List.drop_eq_nil_iff]
    omega
  · rw [if_neg hlong]
    refine readUnsigned_point negative isWhole_zero (fun c hc => ?_)
      (List.append_ne_nil_of_right_ne_nil _ (digitsOf_ne_nil _))
    rcases List.mem_append.mp hc with hc | hc
    · exact isDigit_of_mem_replicate_zero hc
    · exact isDigit_of_mem_digitsOf hc

/-- A decimal without a fraction gets one. -/
theorem exists_readUnsigned_whole (negative : Bool) {d : Decimal} (h : 0 ≤ d.exponent)
    (hzero : d.coefficient = 0 → d.exponent = 0) :
    ∃ literal, readUnsigned negative (d.positional ++ ['.', '0']) = some (literal, []) := by
  have hplaces : (-d.exponent).toNat = 0 := by omega
  rw [Decimal.positional]
  simp only [if_pos hplaces]
  refine readUnsigned_point negative ?_ (fun _ => isDigit_of_mem_zero) (List.cons_ne_nil _ _)
  by_cases hne : d.coefficient = 0
  · rw [hne, hzero hne]
    exact isWhole_zero
  · exact isWhole_zeros hne _

/-! ## The shortest digits -/

theorem coefficient_normalize_go_ne_zero (steps : Nat) {d : Decimal} (h : d.coefficient ≠ 0) :
    (Decimal.normalize.go steps d).coefficient ≠ 0 := by
  induction steps generalizing d with
  | zero => exact h
  | succ steps ih =>
    rw [Decimal.normalize.go]
    split
    next hmod =>
      refine ih ?_
      show d.coefficient / 10 ≠ 0
      omega
    next => exact h

/-- No decimal zero rounds to a number other than zero. -/
theorem coefficient_ne_zero_of_roundsTo {d : Decimal} {k : Nat} (hk : k ≠ 0)
    (h : roundsTo k d.num d.den = true) : d.coefficient ≠ 0 := by
  intro hzero
  have hrat : d.toRat = 0 := by rw [Decimal.toRat, hzero, Nat.cast_zero, zero_mul]
  have hattains := ((d.roundsTo_iff k).mp h).1.le
  rw [hrat, zero_mul, midpointBelow] at hattains
  have hunits := units_pos (Nat.pos_of_ne_zero hk)
  have hsum : units (k - 1) + units k ≤ 0 := by exact_mod_cast hattains
  omega

/-- The shortest digits are those of zero only where the exponent is zero too. -/
theorem exponent_shortest_of_coefficient {tie : Tie} {k : Nat}
    (h : (shortest tie k).coefficient = 0) (hpos : 0 ≤ (shortest tie k).exponent) :
    (shortest tie k).exponent = 0 := by
  unfold shortest at h hpos ⊢
  by_cases hwhole : units k % one = 0 ∧ units k < 2 * binade * one
  · simp only [if_pos hwhole]
  · -- zero is a whole number, so here the number is not zero
    have hk : k ≠ 0 := by
      rintro rfl
      refine hwhole ⟨?_, ?_⟩
      · rw [units_zero, Nat.zero_mod]
      · rw [units_zero]
        exact Nat.mul_pos (by decide) one_pos
    simp only [if_neg hwhole] at h hpos ⊢
    split at h
    next d hd =>
      have htest := List.find?_some hd
      have hne := coefficient_ne_zero_of_roundsTo hk htest
      exact absurd h (coefficient_normalize_go_ne_zero _ hne)
    next hnone =>
      simp only [hnone, exponent_exact] at hpos
      exact absurd hpos (by decide)

/-! ## Numbers -/

/-- The text of a finite number behind its sign. -/
theorem exists_readUnsigned_marked (tie : Tie) (negative : Bool) {x : Float}
    (h : x.isFinite = true) : ∃ text literal, (marked tie x).toList = signText x ++ text ∧
      readUnsigned negative text = some (literal, []) := by
  have hnan : ¬x.isNaN = true := fun hnan => absurd (isNaN_iff.mp hnan) (by
    have := isFinite_iff.mp h
    omega)
  have hinf : ¬x.isInf = true := fun hinf => absurd (isInf_iff.mp hinf) (by
    have := isFinite_iff.mp h
    omega)
  rw [marked, if_neg hnan, if_neg hinf]
  simp only [String.toList_ofList]
  split
  · obtain ⟨literal, hliteral⟩ := exists_readUnsigned_scientific negative (shortest tie (pattern x))
    exact ⟨_, literal, rfl, hliteral⟩
  · split
    next hneg =>
      obtain ⟨literal, hliteral⟩ := exists_readUnsigned_positional negative hneg
      exact ⟨_, literal, rfl, hliteral⟩
    next hneg =>
      obtain ⟨literal, hliteral⟩ := exists_readUnsigned_whole negative (not_lt.mp hneg)
        fun hzero => exponent_shortest_of_coefficient hzero (not_lt.mp hneg)
      exact ⟨_, literal, rfl, hliteral⟩

end Binary64

namespace Number

/-- **A finite number is written as one literal.** -/
theorem exists_readNumber_render {x : Float} (h : x.isFinite = true) :
    ∃ literal, readNumber (real x).render.toList = some (literal, []) := by
  obtain ⟨text, literal, htext, hread⟩ :=
    Binary64.exists_readUnsigned_marked .even (Binary64.isNegative x) h
  rw [render, if_pos h, htext, Binary64.signText]
  by_cases hsign : Binary64.isNegative x = true
  · rw [hsign] at hread
    exact ⟨literal, by rw [if_pos hsign]; exact hread⟩
  · rw [Bool.eq_false_of_not_eq_true hsign] at hread
    rw [if_neg hsign, List.nil_append]
    refine ⟨literal, ?_⟩
    cases text with
    | nil => exact absurd (show none = some (literal, []) from hread) (by simp)
    | cons c text =>
      by_cases hminus : c = '-'
      · subst hminus
        exact absurd (show none = some (literal, []) from hread) (by simp)
      · rw [readNumber_of_ne_minus hminus, hread]

end Number

end IncrementalGame
