import Mathlib.Tactic
import IncrementalGame.Proofs.Binary64.Digits
import IncrementalGame.Proofs.Binary64.Midpoint

/-!
# The plain text of a number determines it

`plain` writes the shortest digits that read back, so no two numbers share a text
(`plain_injective`): the sign is in front, the digits denote the value of the decimal they were
taken from (`numeralOf?_positional`), and a decimal reads back as one number only.

`mem_plain` names the characters that such a text consists of.
-/

namespace IncrementalGame.Binary64

/-! ## Positional digits denote their decimal -/

/-- What a numeral without an exponent is worth. -/
theorem toRat_value (whole fraction : List Char) :
    (Numeral.mk whole fraction 0).value.toRat =
      valueOf (whole ++ fraction) * (10 : ℚ) ^ (-fraction.length : Int) := by
  rw [Numeral.value, Decimal.toRat, zero_sub]

section

variable (n : Nat) {k : Nat}

/-- A whole number has the zeros of its power of ten behind it. -/
theorem numeralOf?_zeros (k : Nat) :
    ∃ numeral, numeralOf? (digitsOf n ++ List.replicate k '0') = some numeral ∧
      numeral.value.toRat = n * (10 : ℚ) ^ (k : Int) := by
  refine ⟨_, numeralOf?_digits ?_ (List.append_ne_nil_of_left_ne_nil (digitsOf_ne_nil _) _), ?_⟩
  · intro c hc
    rcases List.mem_append.mp hc with hc | hc
    · exact isDigit_of_mem_digitsOf hc
    · exact isDigit_of_mem_replicate_zero hc
  · rw [toRat_value, List.append_nil, valueOf_append, valueOf_digitsOf, valueOf_replicate_zero,
      List.length_replicate, zpow_natCast]
    simp [mul_comm]

/-- The point may stand among the digits. -/
theorem numeralOf?_among (hpos : 0 < k) (hlong : k < (digitsOf n).length) :
    ∃ numeral, numeralOf? ((digitsOf n).take ((digitsOf n).length - k) ++
        '.' :: (digitsOf n).drop ((digitsOf n).length - k)) = some numeral ∧
      numeral.value.toRat = n * (10 : ℚ) ^ (-k : Int) := by
  have hdigits : ∀ c ∈ digitsOf n, isDigit c = true := fun _ => isDigit_of_mem_digitsOf
  refine ⟨_, numeralOf?_point (fun c hc => hdigits c (List.mem_of_mem_take hc)) ?_
    (fun c hc => hdigits c (List.mem_of_mem_drop hc)), ?_⟩
  · rw [ne_eq, List.take_eq_nil_iff]
    rintro (h | h)
    · omega
    · exact digitsOf_ne_nil _ h
  · have hlen : ((digitsOf n).drop ((digitsOf n).length - k)).length = k := by
      rw [List.length_drop]
      omega
    rw [toRat_value, List.take_append_drop, valueOf_digitsOf, hlen]

/-- The digits may all stand behind the point. -/
theorem numeralOf?_behind (hshort : (digitsOf n).length ≤ k) :
    ∃ numeral, numeralOf? (['0'] ++
        '.' :: (List.replicate (k - (digitsOf n).length) '0' ++ digitsOf n)) = some numeral ∧
      numeral.value.toRat = n * (10 : ℚ) ^ (-k : Int) := by
  refine ⟨_, numeralOf?_point ?_ (List.cons_ne_nil _ _) ?_, ?_⟩
  · intro c hc
    rw [List.mem_singleton.mp hc]
    rfl
  · intro c hc
    rcases List.mem_append.mp hc with hc | hc
    · exact isDigit_of_mem_replicate_zero hc
    · exact isDigit_of_mem_digitsOf hc
  · have hzero : valueOf ['0'] = 0 := rfl
    have hlen : (List.replicate (k - (digitsOf n).length) '0' ++ digitsOf n).length = k := by
      rw [List.length_append, List.length_replicate]
      omega
    rw [toRat_value, valueOf_append, valueOf_append, valueOf_digitsOf, valueOf_replicate_zero,
      hzero, Nat.mul_zero, Nat.mul_zero, Nat.zero_add, Nat.zero_add, hlen]

end

/-- **The positional text of a decimal reads back with the same value.** -/
theorem numeralOf?_positional (d : Decimal) :
    ∃ n, numeralOf? d.positional = some n ∧ n.value.toRat = d.toRat := by
  unfold Decimal.positional Decimal.toRat
  by_cases hwhole : (-d.exponent).toNat = 0
  · have hexp : d.exponent = (d.exponent.toNat : Nat) := by omega
    rw [if_pos hwhole, hexp, Int.toNat_natCast]
    exact numeralOf?_zeros d.coefficient d.exponent.toNat
  · have hexp : d.exponent = -((-d.exponent).toNat : Int) := by omega
    rw [if_neg hwhole]
    by_cases hlong : (-d.exponent).toNat < (digitsOf d.coefficient).length
    · have hread := numeralOf?_among d.coefficient (Nat.pos_of_ne_zero hwhole) hlong
      rw [if_pos hlong]
      rwa [← hexp] at hread
    · have hread := numeralOf?_behind d.coefficient (not_lt.mp hlong)
      rw [if_neg hlong]
      rwa [← hexp] at hread

/-- The characters of a positional text. -/
theorem mem_positional {d : Decimal} {c : Char} (h : c ∈ d.positional) :
    isDigit c = true ∨ c = '.' := by
  rw [Decimal.positional] at h
  split at h
  · rcases List.mem_append.mp h with h | h
    · exact .inl (isDigit_of_mem_digitsOf h)
    · exact .inl (isDigit_of_mem_replicate_zero h)
  · split at h
    · rcases List.mem_append.mp h with h | h
      · exact .inl (isDigit_of_mem_digitsOf (List.mem_of_mem_take h))
      · rcases List.mem_cons.mp h with h | h
        · exact .inr h
        · exact .inl (isDigit_of_mem_digitsOf (List.mem_of_mem_drop h))
    · rcases List.mem_cons.mp h with h | h
      · exact .inl (by rw [h]; rfl)
      · rcases List.mem_cons.mp h with h | h
        · exact .inr h
        · rcases List.mem_append.mp h with h | h
          · exact .inl (isDigit_of_mem_replicate_zero h)
          · exact .inl (isDigit_of_mem_digitsOf h)

/-! ## The text behind the sign -/

/-- The plain text of a number without its sign. -/
def unsignedText (x : Float) : List Char :=
  if x.isInf then "inf".toList else (shortest .up (pattern x)).positional

variable {x y : Float}

theorem toList_plain (h : x.isNaN = false) : (plain x).toList = signText x ++ unsignedText x := by
  rw [plain, h, if_neg Bool.false_ne_true, String.toList_ofList, unsignedText]

/-- The text behind the sign starts with neither a sign nor the letter of no number. -/
theorem head_unsignedText (x : Float) :
    ∀ c, (unsignedText x).head? = some c → c ≠ '-' ∧ c ≠ 'N' := by
  intro c hc
  rw [unsignedText] at hc
  split at hc
  · obtain rfl : 'i' = c := Option.some_inj.mp hc
    exact ⟨by decide, by decide⟩
  · rcases mem_positional (List.mem_of_mem_head? hc) with h | rfl
    · exact ⟨fun he => by rw [he] at h; exact absurd h (by decide),
        fun he => by rw [he] at h; exact absurd h (by decide)⟩
    · exact ⟨by decide, by decide⟩

/-- The text behind the sign determines the pattern. -/
theorem pattern_eq_of_unsignedText_eq (h : unsignedText x = unsignedText y) :
    pattern x = pattern y := by
  have hword : numeralOf? "inf".toList = none := by decide
  obtain ⟨n, hn, hnval⟩ := numeralOf?_positional (shortest .up (pattern x))
  obtain ⟨m, hm, hmval⟩ := numeralOf?_positional (shortest .up (pattern y))
  rw [unsignedText, unsignedText] at h
  by_cases hxi : x.isInf = true
  · by_cases hyi : y.isInf = true
    · rw [isInf_iff.mp hxi, isInf_iff.mp hyi]
    · rw [if_pos hxi, if_neg hyi] at h
      rw [← h, hword] at hm
      exact absurd hm (by simp)
  · by_cases hyi : y.isInf = true
    · rw [if_neg hxi, if_pos hyi] at h
      rw [h, hword] at hn
      exact absurd hn (by simp)
    · rw [if_neg hxi, if_neg hyi] at h
      rw [h, hm] at hn
      have hsame : n = m := (Option.some_inj.mp hn).symm
      refine (roundsTo_shortest .up (pattern x)).unique (roundsTo_shortest .up (pattern y)) ?_
      rw [← hnval, ← hmval, hsame]

/-! ## The whole text -/

theorem toList_plain_of_isNaN (h : x.isNaN = true) : (plain x).toList = ['N', 'a', 'N'] := by
  rw [plain, h, if_pos rfl]
  rfl

/-- Only the value that is no number is written as such. -/
theorem plain_ne_of_isNaN (hx : x.isNaN = true) (hy : y.isNaN = false) : plain x ≠ plain y := by
  intro h
  have htext := congrArg String.toList h
  rw [toList_plain_of_isNaN hx, toList_plain hy, signText] at htext
  split at htext
  · exact absurd (List.cons.inj htext).1 (by decide)
  · rw [List.nil_append] at htext
    exact absurd rfl (head_unsignedText y 'N' (by rw [← htext]; rfl)).2

/-- **No two numbers have the same plain text.** -/
theorem plain_injective : Function.Injective plain := by
  intro x y h
  cases hx : x.isNaN with
  | true =>
    cases hy : y.isNaN with
    | true => exact eq_of_isNaN hx hy
    | false => exact absurd h (plain_ne_of_isNaN hx hy)
  | false =>
    cases hy : y.isNaN with
    | true => exact absurd h.symm (plain_ne_of_isNaN hy hx)
    | false =>
      have htext := congrArg String.toList h
      rw [toList_plain hx, toList_plain hy, signText, signText] at htext
      -- the signs agree, as what follows them does not start with one
      by_cases hsx : isNegative x = true
      · by_cases hsy : isNegative y = true
        · rw [if_pos hsx, if_pos hsy] at htext
          exact eq_of_pattern (hsx.trans hsy.symm)
            (pattern_eq_of_unsignedText_eq (List.append_cancel_left htext))
        · rw [if_pos hsx, if_neg hsy, List.nil_append] at htext
          exact absurd rfl (head_unsignedText y '-' (by rw [← htext]; rfl)).1
      · by_cases hsy : isNegative y = true
        · rw [if_neg hsx, if_pos hsy, List.nil_append] at htext
          exact absurd rfl (head_unsignedText x '-' (by rw [htext]; rfl)).1
        · rw [if_neg hsx, if_neg hsy] at htext
          have hsign : isNegative x = isNegative y := by
            rw [Bool.eq_false_of_not_eq_true hsx, Bool.eq_false_of_not_eq_true hsy]
          exact eq_of_pattern hsign (pattern_eq_of_unsignedText_eq (List.append_cancel_left htext))

/-- The characters of a plain text. -/
theorem mem_plain {c : Char} (h : c ∈ (plain x).toList) :
    isDigit c = true ∨ c ∈ ['.', '-', 'N', 'a', 'i', 'n', 'f'] := by
  cases hx : x.isNaN with
  | true =>
    rw [toList_plain_of_isNaN hx] at h
    right
    simp only [List.mem_cons, List.not_mem_nil, or_false] at h ⊢
    tauto
  | false =>
    rw [toList_plain hx, signText, unsignedText] at h
    rcases List.mem_append.mp h with h | h
    · split at h
      · rw [List.mem_singleton] at h
        exact .inr (by rw [h]; decide)
      · exact absurd h List.not_mem_nil
    · split at h
      · have hword : c ∈ ['i', 'n', 'f'] := h
        right
        simp only [List.mem_cons, List.not_mem_nil, or_false] at hword ⊢
        tauto
      · rcases mem_positional h with h | rfl
        · exact .inl h
        · exact .inr (by decide)

end IncrementalGame.Binary64
