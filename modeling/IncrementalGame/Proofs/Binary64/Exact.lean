import IncrementalGame.Proofs.Binary64.Product

/-!
# Numbers as rationals

A finite number is a rational (`toRat`), and this file says what becomes of it on the way to and
from integers.

* `scaled_toFloat`, `scaled_toFloat_add_one` --- a 32-bit integer is a number, and so is the next
  one.
* `scaled_ceil` --- the least whole number above a number that is not negative is a number.
* `toNat_toUInt64`, `toNat_toUInt32` --- as an integer a number that is not negative is rounded down
  and cut off at the greatest one.
* `abs_toRat_mul_sub_le` --- no number is nearer to a multiple of a number than the product is.
-/

namespace IncrementalGame.Binary64

open Float.Model Float.Model.UnpackedFloat

/-- The rational that a finite number is. -/
def toRat (x : Float) : ℚ := scaled x / one

theorem ratCast_one_pos : (0 : ℚ) < one := by exact_mod_cast one_pos

section

variable {x : Float}

theorem toRat_nonneg (h : 0 ≤ scaled x) : 0 ≤ toRat x :=
  div_nonneg (by exact_mod_cast h) ratCast_one_pos.le

theorem toRat_nonpos (h : scaled x ≤ 0) : toRat x ≤ 0 :=
  div_nonpos_of_nonpos_of_nonneg (by exact_mod_cast h) ratCast_one_pos.le

theorem toRat_nonneg_iff : 0 ≤ toRat x ↔ 0 ≤ scaled x := by
  rw [toRat, le_div_iff₀ ratCast_one_pos, zero_mul]
  exact_mod_cast Iff.rfl

theorem toRat_add_of_scaled {y z : Float} (h : scaled z = scaled x + scaled y) :
    toRat z = toRat x + toRat y := by
  rw [toRat, toRat, toRat, h, Int.cast_add, add_div]

/-- A number is its whole units and the rest. -/
theorem toRat_eq_ediv_add_emod (x : Float) :
    toRat x = (scaled x / one : ℤ) + ((scaled x % one : ℤ) : ℚ) / one := by
  have hdiv : (one : ℚ) * (scaled x / one : ℤ) + (scaled x % one : ℤ) = scaled x := by
    exact_mod_cast Int.mul_ediv_add_emod (scaled x) one
  rw [toRat, ← hdiv, add_div, mul_div_cancel_left₀ _ ratCast_one_pos.ne']

/-! ## From integers -/

/-- A whole number of at most 53 digits is a number. -/
theorem fits_mul_one {n : Nat} (h : n ≤ 2 * binade) : Fits (n * one) := by
  obtain ⟨d, -, hone⟩ := exists_one_eq_pow
  rw [hone]
  rcases Nat.lt_or_eq_of_le h with hlt | rfl
  · exact ⟨n, d, hlt, rfl⟩
  · exact ⟨binade, d + 1, by decide, by rw [Nat.pow_succ]; ring⟩

theorem mul_one_lt {n : Nat} (h : n ≤ 2 * binade) : n * one < units infinitePattern := by
  obtain ⟨d, hd, hone⟩ := exists_one_eq_pow
  have hplaces : infinitePattern / binade - 1 = 2046 := by decide
  have hdigits : binade ≤ significand infinitePattern := by decide
  have hpow : 2 * 2 ^ d < 2 ^ (infinitePattern / binade - 1) := by
    rw [← Nat.pow_succ']
    exact Nat.pow_lt_pow_right Nat.one_lt_two (by omega)
  rw [hone, units_eq_significand]
  refine lt_of_le_of_lt (Nat.mul_le_mul_right _ h) ?_
  rw [Nat.mul_comm 2, Nat.mul_assoc]
  exact lt_of_lt_of_le (Nat.mul_lt_mul_of_pos_left hpow (by decide)) (Nat.mul_le_mul_right _ hdigits)

/-- What is nearest to a whole number of at most 53 digits is that number. -/
theorem Nearest.scaled_eq_mul_one {n : Nat} (h : Nearest x ((n : Int) * one))
    (hle : n ≤ 2 * binade) : x.isFinite = true ∧ scaled x = (n : Int) * one := by
  have hnatAbs : ((n : Int) * one).natAbs = n * one := by
    rw [← Int.natCast_mul, Int.natAbs_natCast]
  refine h.scaled_eq ?_ ?_
  · rw [hnatAbs]
    exact fits_mul_one hle
  · rw [hnatAbs]
    exact mul_one_lt hle

/-- A 32-bit integer is a number. -/
theorem scaled_toFloat (n : UInt32) :
    n.toFloat.isFinite = true ∧ scaled n.toFloat = (n.toNat : Int) * one := by
  obtain ⟨d, hd, hone⟩ := exists_one_eq_pow
  have hexponent : (0 : Int) = (d : Int) - 1074 := by omega
  have hnearest : Nearest n.toFloat ((n.toNat : Int) * one) := by
    show Nearest (.ofModel (Float.Model.pack (normalize .binary64 (n.toNat : Int) 0 .positive))) _
    rw [hexponent, hone, Int.natCast_pow]
    exact nearest_normalize _ d
  have hlt := n.toNat_lt
  exact hnearest.scaled_eq_mul_one (by rw [binade]; omega)

theorem isFinite_one : (1.0 : Float).isFinite = true := by decide

theorem scaled_one : scaled 1.0 = one := by decide +kernel

/-- The integer after a 32-bit integer is a number. -/
theorem scaled_toFloat_add_one (n : UInt32) :
    (n.toFloat + 1.0).isFinite = true ∧
      scaled (n.toFloat + 1.0) = ((n.toNat + 1 : Nat) : Int) * one := by
  obtain ⟨hfinite, hscaled⟩ := scaled_toFloat n
  have hnearest := nearest_add hfinite isFinite_one
  rw [hscaled, scaled_one, ← add_one_mul, ← Int.natCast_succ] at hnearest
  have hlt := n.toNat_lt
  exact hnearest.scaled_eq_mul_one (by rw [binade]; omega)

/-! ## The least whole number above -/

theorem ceil_toRat_eq_iff {z : Int} :
    ⌈toRat x⌉ = z ↔ (z - 1) * one < scaled x ∧ scaled x ≤ z * one := by
  rw [Int.ceil_eq_iff, toRat, lt_div_iff₀ ratCast_one_pos, div_le_iff₀ ratCast_one_pos]
  constructor
  · rintro ⟨hlow, hhigh⟩
    exact ⟨by exact_mod_cast hlow, by exact_mod_cast hhigh⟩
  · rintro ⟨hlow, hhigh⟩
    exact ⟨by exact_mod_cast hlow, by exact_mod_cast hhigh⟩

/-- It is the whole part, or if there is a fraction the next one. -/
theorem ceil_toRat (x : Float) :
    ⌈toRat x⌉ = if scaled x % one = 0 then scaled x / one else scaled x / one + 1 := by
  have hone := natCast_one_pos
  have hdiv := Int.mul_ediv_add_emod (scaled x) one
  have hmod := Int.emod_nonneg (scaled x) hone.ne'
  have hlt := Int.emod_lt_of_pos (scaled x) hone
  rw [Int.mul_comm] at hdiv
  split
  next hzero =>
    rw [ceil_toRat_eq_iff, Int.sub_mul]
    omega
  next hrest =>
    rw [ceil_toRat_eq_iff, Int.add_sub_cancel, Int.add_mul]
    omega

/-- What is not whole has fewer than 53 digits before its fraction. -/
theorem magnitude_div_one_lt (h : magnitude x % one ≠ 0) : magnitude x / one < binade := by
  obtain ⟨d, hd, hone⟩ := exists_one_eq_pow
  have hplaces : pattern x / binade - 1 < d := by
    by_contra hnot
    refine h (Nat.mod_eq_zero_of_dvd ?_)
    rw [magnitude, units_eq_significand, hone]
    exact Dvd.dvd.mul_left (Nat.pow_dvd_pow 2 (Nat.not_lt.mp hnot)) _
  rw [Nat.div_lt_iff_lt_mul one_pos, magnitude, hone]
  exact units_lt_of_places hplaces

/-- One more than the whole part of a number with a fraction has few enough digits. -/
theorem scaled_wholePart_add_one (h : x.isFinite = true) (hnonneg : 0 ≤ scaled x)
    (hrest : scaled x % one ≠ 0) :
    (wholePart x + 1.0).isFinite = true ∧
      scaled (wholePart x + 1.0) = (scaled x / one + 1) * one := by
  have hpart : scaled x / one + 1 = ((magnitude x / one + 1 : Nat) : Int) := by
    rw [scaled_eq_magnitude hnonneg, Int.natCast_succ, Int.natCast_ediv]
  have hdigits : magnitude x / one < binade := by
    refine magnitude_div_one_lt fun hzero => hrest ?_
    rw [scaled_eq_magnitude hnonneg, ← Int.natCast_emod, hzero]
    rfl
  have hnearest := nearest_add (wholePart_spec h).1 isFinite_one
  rw [scaled_wholePart h hnonneg, scaled_one, ← add_one_mul, hpart] at hnearest
  rw [hpart]
  exact hnearest.scaled_eq_mul_one (by omega)

/-- **The least whole number above a number** that is not negative is a number. -/
theorem scaled_ceil (h : x.isFinite = true) (hnonneg : 0 ≤ scaled x) :
    (ceil x).isFinite = true ∧ scaled (ceil x) = ⌈toRat x⌉ * one := by
  obtain ⟨hfinite, -, -⟩ := wholePart_spec h
  have hwhole := scaled_wholePart h hnonneg
  have hfraction : wholePart x < x ↔ scaled x % one ≠ 0 := by
    have hdiv := Int.mul_ediv_add_emod (scaled x) one
    have hmod := Int.emod_nonneg (scaled x) natCast_one_pos.ne'
    rw [Int.mul_comm] at hdiv
    rw [lt_iff_scaled hfinite h, hwhole]
    omega
  rw [ceil, ceil_toRat]
  by_cases hrest : scaled x % one = 0
  · rw [if_neg (mt hfraction.mp (not_not.mpr hrest)), if_pos hrest]
    exact ⟨hfinite, hwhole⟩
  · rw [if_pos (hfraction.mpr hrest), if_neg hrest]
    exact scaled_wholePart_add_one h hnonneg hrest

/-! ## To integers -/

theorem toNat_ofNatClamp (n : Nat) : (UInt64.ofNatClamp n).toNat = min n (2 ^ 64 - 1) := by
  rcases Nat.lt_or_ge n UInt64.size with hlt | hge
  · rw [UInt64.toNat_ofNatClamp_of_lt hlt]
    rw [UInt64.size] at hlt
    omega
  · rw [UInt64.toNat_ofNatClamp_of_le hge]
    rw [UInt64.size] at hge ⊢
    omega

/-- The digits before the fraction. -/
theorem roundToInt_eq (s : Sign) (m i : Nat) :
    roundToInt s m ((i : Int) - 1074) = s.apply ((m * 2 ^ i / one : Nat) : Int) := by
  obtain ⟨d, hd, hone⟩ := exists_one_eq_pow
  have hdigits : m * 2 ^ (i - d) / 2 ^ (d - i) = m * 2 ^ i / 2 ^ d := by
    rcases Nat.le_total i d with hle | hle
    · obtain ⟨k, rfl⟩ := Nat.exists_eq_add_of_le hle
      rw [Nat.sub_eq_zero_of_le hle, Nat.add_sub_cancel_left, Nat.pow_zero, Nat.mul_one,
        Nat.pow_add, Nat.mul_comm m, Nat.mul_div_mul_left _ _ (Nat.two_pow_pos i)]
    · obtain ⟨k, rfl⟩ := Nat.exists_eq_add_of_le hle
      rw [Nat.sub_eq_zero_of_le hle, Nat.add_sub_cancel_left, Nat.pow_zero, Nat.div_one,
        Nat.pow_add, Nat.mul_comm (2 ^ d), ← Nat.mul_assoc, Nat.mul_div_cancel _ (Nat.two_pow_pos d)]
  have hup : ((i : Int) - 1074 - 0).toNat = i - d := by omega
  have hdown : (0 - ((i : Int) - 1074 - (i - d : Nat))).toNat = d - i := by omega
  rw [roundToInt, decreaseExponent]
  simp only [hup]
  rw [shiftToExponent]
  simp only [hdown]
  rw [show ExtendedMantissa.ofMantissaAndAccuracy (m <<< (i - d)) .exact =
      ⟨m <<< (i - d), false, false⟩ from rfl, (shift_exact _ _).1, Nat.shiftLeft_eq, hdigits, hone]

/-- A number that is not negative is rounded down. -/
theorem toNat_toInt (h : x.isFinite = true) (hnonneg : 0 ≤ scaled x) (greatest : Int) :
    (UnpackedFloat.toInt 0 greatest x.toModel.unpack).toNat = magnitude x / one := by
  rcases Nat.eq_zero_or_pos (pattern x) with hzero | hpos
  · rw [unpack_of_zero hzero, magnitude, hzero, show units 0 = 0 from rfl, Nat.zero_div]
    rfl
  · obtain ⟨hm, hunpack⟩ := unpack_of_finite hpos (isFinite_iff.mp h)
    have hsign : sign x = .positive := by
      have hunits : 0 < magnitude x := units_pos hpos
      rw [scaled_eq_apply] at hnonneg
      cases hs : sign x with
      | positive => rfl
      | negative =>
        rw [hs, Sign.apply] at hnonneg
        omega
    rw [hunpack, UnpackedFloat.toInt, roundToInt_eq, hsign, magnitude, units_eq_significand]
    exact Int.toNat_natCast _

/-- **A number that is not negative as a 64-bit integer** is rounded down, and cut off at the
greatest one. -/
theorem toNat_toUInt64 (h : x.isFinite = true) (hnonneg : 0 ≤ scaled x) :
    x.toUInt64.toNat = min (magnitude x / one) (2 ^ 64 - 1) := by
  show (UInt64.ofNatClamp (UnpackedFloat.toInt 0 _ x.toModel.unpack).toNat).toNat = _
  rw [toNat_ofNatClamp, toNat_toInt h hnonneg]

/-- The whole part of a number that is not negative as a 64-bit integer. -/
theorem toNat_toUInt64_floor (h : x.isFinite = true) (hnonneg : 0 ≤ scaled x) :
    (floor x).toUInt64.toNat = min (scaled x / one).toNat (2 ^ 64 - 1) := by
  have hunits : 0 ≤ scaled x / one := Int.ediv_nonneg hnonneg natCast_one_pos.le
  have hwhole : scaled (wholePart x) = scaled x / one * one := scaled_wholePart h hnonneg
  have hmagnitude : magnitude (wholePart x) / one = (scaled x / one).toNat := by
    rw [← scaled_natAbs, hwhole, Int.natAbs_mul, Int.natAbs_natCast, Nat.mul_div_cancel _ one_pos]
    omega
  rw [floor_eq_wholePart h hnonneg, toNat_toUInt64 (wholePart_spec h).1, hmagnitude]
  rw [hwhole]
  exact Int.mul_nonneg hunits natCast_one_pos.le

/-- **A number that is not negative as a 32-bit integer** is cut off sooner. -/
theorem toNat_toUInt32 (h : x.isFinite = true) (hnonneg : 0 ≤ scaled x) :
    x.toUInt32.toNat = min (magnitude x / one) (2 ^ 32 - 1) := by
  show (UInt32.ofNatClamp (UnpackedFloat.toInt 0 _ x.toModel.unpack).toNat).toNat = _
  rw [toNat_toInt h hnonneg]
  rcases Nat.lt_or_ge (magnitude x / one) UInt32.size with hlt | hge
  · rw [UInt32.toNat_ofNatClamp_of_lt hlt]
    rw [UInt32.size] at hlt
    omega
  · rw [UInt32.toNat_ofNatClamp_of_le hge]
    rw [UInt32.size] at hge ⊢
    omega

end

/-! ## Multiples -/

section

variable {x : Float} {n : UInt32}

/-- A multiple of a number is rounded to the nearest number. -/
theorem nearest_mul_toFloat_add_one (h : (x * (n.toFloat + 1.0)).isFinite = true) :
    Nearest (x * (n.toFloat + 1.0)) (scaled x * ((n.toNat + 1 : Nat) : Int)) := by
  obtain ⟨hfactor, hscaled⟩ := scaled_toFloat_add_one n
  exact nearest_mul (isFinite_of_mul h) hfactor (by rw [hscaled, Int.mul_assoc])

theorem toRat_mul_eq (x : Float) (n : UInt32) :
    toRat x * (n.toNat + 1) = ((scaled x * ((n.toNat + 1 : Nat) : Int) : Int) : ℚ) / one := by
  rw [toRat]
  push_cast
  ring

/-- What differs by so many units differs by so many parts of one. -/
theorem abs_toRat_sub (z : Float) (m : Int) :
    |toRat z - (m : ℚ) / one| = ((scaled z - m).natAbs : ℚ) / one := by
  rw [toRat, ← sub_div, abs_div, abs_of_pos ratCast_one_pos, Nat.cast_natAbs, Int.cast_abs,
    Int.cast_sub]

/-- **No number is nearer to a multiple** of a number than the product is, if that is finite. -/
theorem abs_toRat_mul_sub_le (h : (x * (n.toFloat + 1.0)).isFinite = true) (y : Float) :
    |toRat (x * (n.toFloat + 1.0)) - toRat x * (n.toNat + 1)| ≤
      |toRat y - toRat x * (n.toNat + 1)| := by
  have hnearest := (nearest_mul_toFloat_add_one h).natAbs_sub_le h y
  rw [toRat_mul_eq, abs_toRat_sub, abs_toRat_sub]
  exact div_le_div_of_nonneg_right (by exact_mod_cast hnearest) ratCast_one_pos.le

/-- The product differs from the multiple by at most one part in `2 ^ 53`. -/
theorem abs_toRat_mul_sub_le_div (h : (x * (n.toFloat + 1.0)).isFinite = true) :
    |toRat (x * (n.toFloat + 1.0)) - toRat x * (n.toNat + 1)| ≤
      |toRat x * (n.toNat + 1)| / 2 ^ 53 := by
  have hpart := (nearest_mul_toFloat_add_one h).mul_natAbs_sub_le h
  rw [show 2 * binade = 2 ^ 53 by decide] at hpart
  rw [toRat_mul_eq, abs_toRat_sub, abs_div, abs_of_pos ratCast_one_pos, div_div, mul_comm (one : ℚ),
    ← div_div, ← Int.cast_abs, ← Nat.cast_natAbs]
  refine div_le_div_of_nonneg_right ?_ ratCast_one_pos.le
  rw [le_div_iff₀ (by positivity), mul_comm]
  exact_mod_cast hpart

end

end IncrementalGame.Binary64
