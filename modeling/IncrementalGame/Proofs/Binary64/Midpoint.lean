import Mathlib.Tactic
import IncrementalGame.Binary64.Decimal
import IncrementalGame.Proofs.Binary64.Pattern

/-!
# The numbers that decimals read back as

Magnitudes ascend with their patterns, so the midpoints between neighbours do too, and a fraction
lies between exactly one pair of them.  Hence a fraction rounds to one pattern only, whatever its
numerator and denominator are (`eq_of_roundsTo`).

* `units_lt_units_succ` --- magnitudes ascend;
* `reaches_iff` --- the comparison with a midpoint is one of rational numbers;
* `roundsTo_shortest` --- the shortest digits of a finite number round to its pattern, by each of
  the three ways they are found.
-/

namespace IncrementalGame.Binary64

/-! ## Magnitudes ascend -/

/-- Within one binade magnitudes are equally far apart, and the next binade starts above. -/
theorem units_lt_units_succ (k : Nat) : units k < units (k + 1) := by
  rw [units_eq_significand, units_eq_significand]
  have hb : 0 < binade := by decide
  have hmod : k % binade < binade := Nat.mod_lt _ hb
  have hdiv := Nat.div_add_mod k binade
  by_cases hlast : k % binade + 1 = binade
  · -- the next pattern is the first one of the next binade
    have hnext : k + 1 = (k / binade + 1) * binade := by rw [Nat.add_mul, Nat.mul_comm]; omega
    have hq : (k + 1) / binade = k / binade + 1 := by rw [hnext, Nat.mul_div_cancel _ hb]
    have hr : (k + 1) % binade = 0 := by rw [hnext, Nat.mul_mod_left]
    have hge : ¬ k + 1 < binade := by rw [hnext, Nat.add_mul]; omega
    rw [significand, significand, if_neg hge, hr, hq]
    by_cases hk : k < binade
    · rw [if_pos hk, Nat.div_eq_of_lt hk]
      exact Nat.mul_lt_mul_of_pos_right (by omega) (by decide)
    · have hpos : 0 < k / binade := Nat.div_pos (by omega) hb
      have hsub : k / binade + 1 - 1 = k / binade - 1 + 1 := by omega
      rw [if_neg hk, hsub, Nat.pow_succ, ← Nat.mul_assoc, Nat.mul_right_comm]
      exact Nat.mul_lt_mul_of_pos_right (by omega) (Nat.two_pow_pos _)
  · have hsucc : k + 1 = k % binade + 1 + binade * (k / binade) := by omega
    have hq : (k + 1) / binade = k / binade := by
      rw [hsucc, Nat.add_mul_div_left _ _ hb, Nat.div_eq_of_lt (by omega), Nat.zero_add]
    have hr : (k + 1) % binade = k % binade + 1 := by
      rw [hsucc, Nat.add_mul_mod_self_left, Nat.mod_eq_of_lt (by omega)]
    rw [hq]
    refine Nat.mul_lt_mul_of_pos_right ?_ (Nat.two_pow_pos _)
    rw [significand, significand, hr]
    by_cases hk : k < binade
    · have hk' : k + 1 < binade := by rw [Nat.mod_eq_of_lt hk] at hlast; omega
      rw [if_pos hk, if_pos hk']
      exact Nat.lt_succ_self k
    · rw [if_neg hk, if_neg (by omega)]
      omega

/-- Magnitudes ascend. -/
theorem units_strictMono : StrictMono units := strictMono_nat_of_lt_succ units_lt_units_succ

theorem units_zero : units 0 = 0 := by decide

theorem units_pos {k : Nat} (h : 0 < k) : 0 < units k := by
  have hlt := units_strictMono h
  rwa [units_zero] at hlt

/-- One has the last unit so many binary places behind it.  The number of places has a name of its
own here, because nothing should compute the power. -/
theorem exists_one_eq_pow : ∃ d, d = 1074 ∧ one = 2 ^ d := by
  have hone : ∃ d, d = 1074 ∧ one = Nat.pow 2 d := ⟨1074, rfl, by delta one; rfl⟩
  exact hone

theorem one_pos : 0 < one := by
  obtain ⟨d, -, hone⟩ := exists_one_eq_pow
  rw [hone]
  exact Nat.two_pow_pos d

/-- Twice the midpoint below a pattern, in multiples of `2 ^ -1074`. -/
def midpointBelow (k : Nat) : Nat := units (k - 1) + units k

/-- Midpoints ascend. -/
theorem midpointBelow_lt {j k : Nat} (h : j < k) : midpointBelow j < midpointBelow k := by
  have hlow : units (j - 1) ≤ units (k - 1) := units_strictMono.monotone (by omega)
  have hhigh : units j < units k := units_strictMono h
  rw [midpointBelow, midpointBelow]
  omega

/-! ## Fractions round to one pattern -/

/-- One place more than one has doubles the number. -/
theorem cast_shiftLeft (m : Nat) : ((m <<< 1075 : Nat) : ℚ) = m * (2 * one) := by
  obtain ⟨d, hd, hone⟩ := exists_one_eq_pow
  rw [hone, show 1075 = d + 1 by omega, Nat.shiftLeft_eq, pow_succ', Nat.cast_mul, Nat.cast_mul,
    Nat.cast_ofNat]

/-- Whether a rational number lies at or above the lower end of what rounds to a pattern. -/
def Attains (k : Nat) (q : ℚ) : Prop :=
  if k % 2 = 0 then (midpointBelow k : ℚ) ≤ q * (2 * one) else (midpointBelow k : ℚ) < q * (2 * one)

theorem Attains.le {k : Nat} {q : ℚ} (h : Attains k q) : (midpointBelow k : ℚ) ≤ q * (2 * one) := by
  unfold Attains at h
  split at h
  · exact h
  · exact h.le

theorem attains_of_lt {k : Nat} {q : ℚ} (h : (midpointBelow k : ℚ) < q * (2 * one)) :
    Attains k q := by
  unfold Attains
  split
  · exact h.le
  · exact h

/-- What attains a pattern attains the lower ones. -/
theorem Attains.anti {j k : Nat} {q : ℚ} (hjk : j ≤ k) (h : Attains k q) : Attains j q := by
  rcases hjk.lt_or_eq with hlt | rfl
  · refine attains_of_lt (lt_of_lt_of_le ?_ h.le)
    exact_mod_cast midpointBelow_lt hlt
  · exact h

/-- The test on a numerator and a denominator is a test on the fraction. -/
theorem reaches_iff {k num den : Nat} (hden : 0 < den) :
    reaches k num den = true ↔ Attains k (num / den : ℚ) := by
  have hden' : (0 : ℚ) < den := by exact_mod_cast hden
  have hcast := cast_shiftLeft num
  have hlow : (((units (k - 1) + units k) * den : Nat) : ℚ) = midpointBelow k * den := by
    rw [Nat.cast_mul, midpointBelow]
  have hscale : (num / den : ℚ) * (2 * one) = num * (2 * one) / den := div_mul_eq_mul_div _ _ _
  rw [reaches, Attains, hscale]
  split
  · rw [decide_eq_true_iff, le_div_iff₀ hden', ← hcast, ← hlow, Nat.cast_le]
  · rw [decide_eq_true_iff, lt_div_iff₀ hden', ← hcast, ← hlow, Nat.cast_lt]

theorem roundsTo_iff {k num den : Nat} (hden : 0 < den) :
    roundsTo k num den = true ↔
      Attains k (num / den : ℚ) ∧ ¬Attains (k + 1) (num / den : ℚ) := by
  rw [roundsTo, Bool.and_eq_true, Bool.not_eq_true', ← Bool.not_eq_true, reaches_iff hden,
    reaches_iff hden]

/-- A magnitude rounds to its own pattern. -/
theorem attains_of_units {k : Nat} {q : ℚ} (h : q * one = units k) :
    Attains k q ∧ ¬Attains (k + 1) q := by
  have hpoint : q * (2 * one) = ((units k + units k : Nat) : ℚ) := by
    rw [mul_left_comm, h, two_mul, Nat.cast_add]
  constructor
  · rw [Attains, hpoint, midpointBelow]
    split
    · have := units_strictMono.monotone (Nat.sub_le k 1)
      exact_mod_cast (by omega : units (k - 1) + units k ≤ units k + units k)
    next hodd =>
      have := units_strictMono (show k - 1 < k by omega)
      exact_mod_cast (by omega : units (k - 1) + units k < units k + units k)
  · intro hsucc
    have hle := hsucc.le
    rw [hpoint, midpointBelow, Nat.add_sub_cancel, Nat.cast_le] at hle
    have := units_lt_units_succ k
    omega

namespace Decimal

/-- The value of a decimal. -/
def toRat (d : Decimal) : ℚ := d.coefficient * (10 : ℚ) ^ d.exponent

theorem den_pos (d : Decimal) : 0 < d.den := Nat.pow_pos (by decide)

/-- The value as the fraction that rounding works with. -/
theorem toRat_eq_div (d : Decimal) : d.toRat = (d.num / d.den : ℚ) := by
  obtain ⟨c, e⟩ := d
  rcases Int.le_total 0 e with he | he
  · obtain ⟨n, rfl⟩ := Int.eq_ofNat_of_zero_le he
    simp [toRat, num, den]
  · obtain ⟨n, hn⟩ := Int.eq_ofNat_of_zero_le (Int.neg_nonneg_of_nonpos he)
    obtain rfl : e = -(n : Int) := by omega
    simp [toRat, num, den, div_eq_mul_inv]

/-- Whether a decimal reads back as the number of a pattern. -/
def RoundsTo (d : Decimal) (k : Nat) : Prop := Attains k d.toRat ∧ ¬Attains (k + 1) d.toRat

theorem roundsTo_iff (d : Decimal) (k : Nat) :
    Binary64.roundsTo k d.num d.den = true ↔ d.RoundsTo k := by
  rw [Binary64.roundsTo_iff d.den_pos, RoundsTo, toRat_eq_div]

/-- **A decimal reads back as one number only**, and only its value matters for which. -/
theorem RoundsTo.unique {c d : Decimal} {j k : Nat} (hc : c.RoundsTo j) (hd : d.RoundsTo k)
    (h : c.toRat = d.toRat) : j = k := by
  rw [RoundsTo, h] at hc
  rcases Nat.lt_trichotomy j k with hlt | heq | hlt
  · exact absurd (hd.1.anti hlt) hc.2
  · exact heq
  · exact absurd (hc.1.anti hlt) hd.2

/-! ## The shortest digits -/

theorem toRat_normalize_go (steps : Nat) (d : Decimal) : (normalize.go steps d).toRat = d.toRat := by
  induction steps generalizing d with
  | zero => rfl
  | succ steps ih =>
    rw [normalize.go]
    split
    next h =>
      have hc : d.coefficient = d.coefficient / 10 * 10 := by omega
      rw [ih, toRat, toRat]
      conv_rhs => rw [hc]
      rw [zpow_add_one₀ (by norm_num)]
      push_cast
      ring
    next => rfl

/-- Zeros at the end of the coefficient may go into the exponent. -/
theorem toRat_normalize (d : Decimal) : d.normalize.toRat = d.toRat := toRat_normalize_go _ d

/-- A whole multiple is worth its factor. -/
theorem toRat_div_mul {u w : Nat} (h : u % w = 0) : toRat ⟨u / w, 0⟩ * w = u := by
  have hcancel : u / w * w = u := Nat.div_mul_cancel (Nat.dvd_of_mod_eq_zero h)
  rw [toRat, zpow_zero, mul_one]
  exact_mod_cast hcancel

/-- Scaling by ten takes as many halvings as fifths. -/
theorem toRat_mul_fifths (m n : Nat) : toRat ⟨m * 5 ^ n, -n⟩ * (2 ^ n : Nat) = m := by
  have hten : (10 : ℚ) = 5 * 2 := by norm_num
  rw [toRat, zpow_neg, zpow_natCast, hten, mul_pow]
  push_cast
  field_simp

end Decimal

theorem exponent_exact (m : Nat) : (exact m).exponent = -1074 := rfl

/-- The exact expansion is worth its magnitude. -/
theorem toRat_exact (m : Nat) : (exact m).toRat * one = m := by
  obtain ⟨d, hd, hone⟩ := exists_one_eq_pow
  have hexact : exact m = ⟨m * 5 ^ d, -d⟩ := by
    have hexponent : (-1074 : Int) = -(d : Int) := by omega
    rw [exact, ← hd, hexponent]
    rfl
  rw [hexact, hone]
  exact Decimal.toRat_mul_fifths m d

/-- **The shortest digits of a finite number round to its pattern.** -/
theorem roundsTo_shortest (tie : Tie) (k : Nat) : (shortest tie k).RoundsTo k := by
  unfold shortest
  by_cases h : units k % one = 0 ∧ units k < 2 * binade * one
  · -- a whole number of moderate size is its own digits
    rw [if_pos h]
    exact attains_of_units (Decimal.toRat_div_mul h.1)
  · rw [if_neg h]
    split
    next d hd =>
      -- a candidate was tested before it was chosen
      have htest := List.find?_some hd
      rw [Decimal.RoundsTo, d.toRat_normalize]
      exact (d.roundsTo_iff k).mp htest
    next =>
      have hunits : (exact (units k)).toRat * one = units k := toRat_exact (units k)
      unfold Decimal.RoundsTo
      exact attains_of_units hunits

end IncrementalGame.Binary64
