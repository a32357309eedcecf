import IncrementalGame.Binary64.Text
import IncrementalGame.Proofs.Binary64.Integers

/-!
# Amounts that are too great

Between the greatest finite number and the next power of two lies a midpoint, `overflow`.  Whatever
lies below it is rounded to a finite number, and nothing else is (`rounded_lt_iff`): on the midpoint
itself the even neighbour is the upper one.

So the difference of two finite numbers is finite just if it is less than `overflow`
(`isFinite_sub_iff`), and a decimal is read as a finite number just if its value is
(`Decimal.isFinite_toFloat_iff`).  A text is read as something else than a finite number just if it
is a numeral that is too great, or one of the words for infinity and for no number (`Unbounded`).
-/

namespace IncrementalGame.Binary64

/-- The least amount that is rounded to infinity. -/
def overflow : ℚ := 2 ^ 1024 - 2 ^ 970

theorem overflow_mul : overflow * (2 * one) = midpointBelow infinitePattern := by
  obtain ⟨d, hd, hone⟩ := exists_one_eq_pow
  have hgap : (widestGap : ℚ) = 2 ^ 970 * (2 * 2 ^ d) := by
    rw [widestGap, Nat.cast_pow, Nat.cast_ofNat, ← pow_succ', ← pow_add, hd]
  have hpower : (2 : ℚ) ^ 1024 = 2 ^ 970 * 2 ^ 54 := by rw [← pow_add]
  have hbinade : 2 * (binade : ℚ) = 2 ^ 53 := by norm_num [binade]
  have hdigits : ((2 * binade - 1 : Nat) : ℚ) = 2 * binade - 1 := by
    rw [Nat.cast_sub (by decide)]
    push_cast
    rfl
  rw [midpointBelow, units_greatest, units_infinitePattern, overflow, hone]
  push_cast
  rw [hdigits, hgap, hpower, hbinade]
  generalize (2 : ℚ) ^ 970 = p
  ring

/-! ## Numbers of units -/

/-- On the midpoint the even neighbour is the upper one. -/
theorem rounded_midpoint {n : Nat} (h : 2 * n = midpointBelow infinitePattern) :
    rounded n = infinitePattern := by
  have hn : n = (4 * binade - 1) * 2 ^ 2044 := by
    have hge : widestGap ≤ 2 * binade * widestGap := Nat.le_mul_of_pos_left _ (by decide)
    rw [midpointBelow, units_greatest, units_infinitePattern, Nat.sub_mul, Nat.one_mul] at h
    rw [Nat.sub_mul, Nat.one_mul, show 4 * binade = 2 * (2 * binade) by rfl, Nat.mul_assoc]
    rw [widestGap_eq_two_mul, Nat.mul_left_comm] at h hge
    omega
  have hspare : spare n = 2044 + 1 := by
    rw [hn, spare, log2_mul_pow (by decide), show (4 * binade - 1).log2 = 53 by decide +kernel]
  have hkept : halfEven n (2044 + 1) = 2 * binade := by
    rw [hn, halfEven_mul_pow]
    decide
  rw [rounded, hspare, hkept]
  decide

/-- **What is rounded to a finite number** lies below the midpoint under infinity. -/
theorem rounded_lt_iff {n : Nat} :
    rounded n < infinitePattern ↔ 2 * n < midpointBelow infinitePattern := by
  refine ⟨fun h => ?_, rounded_lt_of_lt⟩
  by_contra hge
  rcases Nat.lt_or_eq_of_le (not_lt.mp hge) with hgt | heq
  · -- the power of two above is nearer
    have hnearest := natAbs_units_rounded_sub_le h infinitePattern
    have hle : units (rounded n) ≤ units (infinitePattern - 1) :=
      units_strictMono.monotone (by omega)
    have hlt := units_strictMono (show infinitePattern - 1 < infinitePattern by decide)
    rw [midpointBelow] at hgt
    omega
  · exact absurd (rounded_midpoint heq.symm) h.ne

section

variable {x y : Float} {n : Int}

theorem Nearest.isFinite_iff (h : Nearest x n) :
    x.isFinite = true ↔ 2 * n.natAbs < midpointBelow infinitePattern := by
  rw [Binary64.isFinite_iff, h.pattern_eq, rounded_lt_iff]

/-- What is no more than a finite number is rounded to one. -/
theorem Nearest.isFinite_of_le (h : Nearest x n) (hy : y.isFinite = true)
    (hle : n.natAbs ≤ magnitude y) : x.isFinite = true := by
  rw [h.isFinite_iff, midpointBelow]
  have hgreatest : magnitude y ≤ units (infinitePattern - 1) := by
    have := Binary64.isFinite_iff.mp hy
    exact units_strictMono.monotone (by omega)
  have hlt := units_strictMono (show infinitePattern - 1 < infinitePattern by decide)
  omega

/-- **The difference of two finite numbers is finite** just if it is not too great. -/
theorem isFinite_sub_iff (hx : x.isFinite = true) (hy : y.isFinite = true) :
    (x - y).isFinite = true ↔ |toRat x - toRat y| < overflow := by
  have hpos := ratCast_one_pos
  have hunits : |toRat x - toRat y| * (2 * one) = (2 * (scaled x - scaled y).natAbs : Nat) := by
    rw [toRat, toRat, ← sub_div, abs_div, abs_of_pos hpos, Nat.cast_mul, Nat.cast_natAbs,
      Int.cast_abs, Int.cast_sub]
    field_simp
    norm_num
  rw [(nearest_sub hx hy).isFinite_iff, ← Nat.cast_lt (α := ℚ), ← hunits, ← overflow_mul]
  exact mul_lt_mul_iff_left₀ (by positivity)

end

/-! ## Decimals -/

section

variable {test : Nat → Bool} {start bits k : Nat}

theorem pow_two_succ (bits : Nat) :
    Nat.pow 2 (bits + 1) = Nat.pow 2 bits + Nat.pow 2 bits := Nat.mul_two _

theorem le_greatest : start ≤ greatest test start bits := by
  induction bits generalizing start with
  | zero => exact le_rfl
  | succ bits ih =>
    rw [greatest]
    split
    · exact (Nat.le_add_right _ _).trans ih
    · exact ih

theorem greatest_lt : greatest test start bits < start + Nat.pow 2 bits := by
  induction bits generalizing start with
  | zero => exact Nat.lt_succ_self _
  | succ bits ih =>
    rw [greatest, pow_two_succ, ← Nat.add_assoc]
    split
    · exact ih
    · exact ih.trans_le (Nat.le_add_right _ _)

/-- The search stays below what fails. -/
theorem greatest_lt_iff (anti : ∀ {i j : Nat}, i ≤ j → test j = true → test i = true)
    (hstart : start < k) (hk : k < start + Nat.pow 2 bits) :
    greatest test start bits < k ↔ test k = false := by
  induction bits generalizing start with
  | zero => exact absurd hk (not_lt.mpr hstart)
  | succ bits ih =>
    rw [pow_two_succ, ← Nat.add_assoc] at hk
    rw [greatest]
    split
    next hmid =>
      by_cases hbelow : start + Nat.pow 2 bits < k
      · exact ih hbelow hk
      · have hpass := anti (not_lt.mp hbelow) hmid
        refine iff_of_false ?_ (by rw [hpass]; exact Bool.true_eq_false_eq_False)
        exact not_lt.mpr ((not_lt.mp hbelow).trans le_greatest)
    next hmid =>
      by_cases hbelow : k < start + Nat.pow 2 bits
      · exact ih hstart hbelow
      · have hfail : test k = false := by
          rw [← Bool.not_eq_true]
          exact fun hpass => hmid (anti (not_lt.mp hbelow) hpass)
        exact iff_of_true (greatest_lt.trans_le (not_lt.mp hbelow)) hfail

end

theorem reaches_anti {num den : Nat} (hden : 0 < den) {i j : Nat} (hle : i ≤ j)
    (h : reaches j num den = true) : reaches i num den = true := by
  rw [reaches_iff hden] at h ⊢
  exact h.anti hle

/-- A fraction reaches infinity just if it is too great. -/
theorem attains_infinitePattern_iff {q : ℚ} : Attains infinitePattern q ↔ overflow ≤ q := by
  rw [Attains, if_pos (by decide), ← overflow_mul]
  exact mul_le_mul_iff_left₀ (by have := ratCast_one_pos; positivity)

theorem nearestPattern_lt_iff {num den : Nat} (hden : 0 < den) :
    nearestPattern num den < infinitePattern ↔ (num / den : ℚ) < overflow := by
  have hsearch : greatest (reaches · num den) 0 63 < infinitePattern ↔
      reaches infinitePattern num den = false :=
    greatest_lt_iff (reaches_anti hden) (by decide) (by decide)
  rw [← not_le (a := overflow), ← attains_infinitePattern_iff, ← reaches_iff hden,
    Bool.not_eq_true, ← hsearch]
  exact min_lt_iff.trans (or_iff_right (lt_irrefl _))

namespace Decimal

variable {d : Decimal}

/-- A value with so many places before the point is too great. -/
theorem overflow_le_of_isHuge (h : d.isHuge = true) : overflow ≤ d.toRat := by
  rw [isHuge, Bool.and_eq_true, bne_iff_ne, decide_eq_true_iff] at h
  obtain ⟨hne, hhuge⟩ := h
  have hone : (1 : ℚ) ≤ d.coefficient := by exact_mod_cast Nat.one_le_iff_ne_zero.mpr hne
  calc overflow ≤ (2 : ℚ) ^ 1024 := sub_le_self _ (by positivity)
    _ ≤ (2 : ℚ) ^ (3 * 400) := pow_le_pow_right₀ one_le_two (by norm_num)
    _ = (8 : ℚ) ^ 400 := by rw [pow_mul]; norm_num
    _ ≤ (10 : ℚ) ^ 400 := pow_le_pow_left₀ (by norm_num) (by norm_num) 400
    _ = (10 : ℚ) ^ (400 : Int) := by rw [zpow_ofNat]
    _ ≤ (10 : ℚ) ^ d.exponent := zpow_le_zpow_right₀ (by norm_num) hhuge.le
    _ ≤ d.toRat := le_mul_of_one_le_left (by positivity) hone

theorem toRat_lt_of_isTiny (h : d.isTiny = true) : d.toRat < overflow := by
  have hone : (1 : ℚ) < overflow := by
    rw [overflow, lt_sub_iff_add_lt]
    calc (1 : ℚ) + 2 ^ 970 < 2 ^ 970 + 2 ^ 970 := by
          gcongr
          exact one_lt_pow₀ one_lt_two (by norm_num)
      _ = 2 ^ 971 := by rw [← two_mul, ← pow_succ']
      _ ≤ 2 ^ 1024 := pow_le_pow_right₀ one_le_two (by norm_num)
  refine lt_of_le_of_lt ?_ hone
  rw [isTiny, Bool.or_eq_true, beq_iff_eq, decide_eq_true_iff] at h
  rcases h with hzero | htiny
  · rw [toRat, hzero, Nat.cast_zero, zero_mul]
    exact zero_le_one
  · obtain ⟨k, hk⟩ : ∃ k : Nat, d.exponent = -k := ⟨d.exponent.natAbs, by omega⟩
    have hdigits : (d.coefficient : ℚ) ≤ 2 ^ ((d.coefficient.log2 : Int) + 1) := by
      exact_mod_cast (Nat.lt_log2_self (n := d.coefficient)).le
    have hpower : (10 : ℚ) ^ d.exponent ≤ 2 ^ (3 * d.exponent) := by
      rw [zpow_mul, hk, zpow_neg, zpow_neg, zpow_natCast, zpow_natCast]
      refine inv_anti₀ (by positivity) ?_
      exact pow_le_pow_left₀ (by positivity) (by norm_num) k
    calc d.toRat ≤ 2 ^ ((d.coefficient.log2 : Int) + 1) * 2 ^ (3 * d.exponent) :=
          mul_le_mul hdigits hpower (by positivity) (by positivity)
      _ = 2 ^ ((d.coefficient.log2 : Int) + 1 + 3 * d.exponent) := by
          rw [← zpow_add₀ two_ne_zero]
      _ ≤ 2 ^ (0 : Int) := zpow_le_zpow_right₀ one_le_two (by omega)
      _ = 1 := zpow_zero 2

/-- **A decimal is read as a finite number** just if its value is not too great. -/
theorem toPattern_lt_iff : d.toPattern < infinitePattern ↔ d.toRat < overflow := by
  rw [toPattern]
  split
  next hhuge => exact iff_of_false (lt_irrefl _) (not_lt.mpr (overflow_le_of_isHuge hhuge))
  next =>
    split
    next htiny => exact iff_of_true (by decide) (toRat_lt_of_isTiny htiny)
    next => rw [nearestPattern_lt_iff d.den_pos, toRat_eq_div]

theorem toPattern_le : d.toPattern ≤ infinitePattern := by
  rw [toPattern]
  split
  · exact le_rfl
  · split
    · exact Nat.zero_le _
    · exact Nat.min_le_left _ _

theorem isFinite_toFloat_iff (negative : Bool) :
    (d.toFloat negative).isFinite = true ↔ d.toRat < overflow := by
  rw [← toPattern_lt_iff, toFloat]
  rcases Nat.lt_or_eq_of_le d.toPattern_le with hlt | heq
  · exact iff_of_true (ofPattern_spec negative hlt).1 hlt
  · rw [heq]
    refine iff_of_false ?_ (lt_irrefl _)
    cases negative <;> decide

end Decimal

/-! ## Texts -/

/-- A text without its sign. -/
def unsigned : List Char → List Char
  | '-' :: rest => rest
  | '+' :: rest => rest
  | s => s

/-- Whether a text is read, but not as a finite number: behind its sign it is a numeral that is too
great, or a word for infinity or for no number. -/
def Unbounded (s : List Char) : Prop :=
  match numeralOf? (unsigned s) with
  | some n => overflow ≤ n.value.toRat
  | none => (wordOf? false (unsigned s)).isSome = true

section

variable {s : List Char} {x : Float}

theorem ofText?_eq (s : List Char) : ∃ negative, ofText? s =
    match numeralOf? (unsigned s) with
    | some n => some (n.value.toFloat negative)
    | none => wordOf? negative (unsigned s) := by
  fun_cases unsigned s with
  | case1 rest => exact ⟨true, rfl⟩
  | case2 rest => exact ⟨false, rfl⟩
  | case3 s hminus hplus =>
    have hread := ofText?.eq_3 s hminus hplus
    exact ⟨false, hread⟩

theorem isFinite_of_wordOf? {negative : Bool} (h : wordOf? negative s = some x) :
    x.isFinite = false := by
  rw [wordOf?] at h
  split at h
  · obtain rfl := Option.some_inj.mp h
    cases negative <;> decide
  · obtain rfl := Option.some_inj.mp h
    cases negative <;> decide
  · obtain rfl := Option.some_inj.mp h
    decide
  · exact absurd h (by simp)

theorem isSome_wordOf? (negative : Bool) (s : List Char) :
    (wordOf? negative s).isSome = (wordOf? false s).isSome := by
  unfold wordOf?
  split <;> rfl

/-- **A text is read as a finite number** unless it is too great or a word. -/
theorem forall_isFinite_iff :
    (∀ x, ofText? s = some x → x.isFinite = true) ↔ ¬Unbounded s := by
  obtain ⟨negative, htext⟩ := ofText?_eq s
  rw [htext, Unbounded]
  cases numeralOf? (unsigned s) with
  | some n =>
    simp only [Option.some.injEq, forall_eq', not_le]
    exact Decimal.isFinite_toFloat_iff negative
  | none =>
    simp only [← isSome_wordOf? negative]
    constructor
    · intro h hword
      obtain ⟨x, hx⟩ := Option.isSome_iff_exists.mp hword
      exact absurd (h x hx) (by rw [isFinite_of_wordOf? hx]; exact Bool.false_ne_true)
    · intro h x hx
      exact absurd (Option.isSome_iff_exists.mpr ⟨x, hx⟩) h

end

end IncrementalGame.Binary64
