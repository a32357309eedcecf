import IncrementalGame.Proofs.Binary64.Comparison
import IncrementalGame.Proofs.Binary64.Exact

/-!
# Integers among binary64 numbers

A finite number rounded up or down is a number again, of either sign (`scaled_ceil_eq`,
`scaled_floor_eq`).  As a 64-bit integer with a sign a whole number is cut off at the least and the
greatest one (`toInt64_eq`), and from such an integer the way back leads to the nearest number
(`nearest_ofInt`), which is whole as well (`exists_scaled_eq_mul_one`).
-/

namespace IncrementalGame.Binary64

open Float.Model Float.Model.UnpackedFloat

variable {x y : Float} {n z : Int}

/-! ## Nearest numbers -/

/-- What is nearest to an integer of at most 53 digits is that integer. -/
theorem Nearest.scaled_eq_intCast_mul_one (h : Nearest x (z * one))
    (hle : z.natAbs ≤ 2 * binade) : x.isFinite = true ∧ scaled x = z * one := by
  have hnatAbs : (z * one).natAbs = z.natAbs * one := by
    rw [Int.natAbs_mul, Int.natAbs_natCast]
  refine h.scaled_eq ?_ ?_
  · rw [hnatAbs]
    exact fits_mul_one hle
  · rw [hnatAbs]
    exact mul_one_lt hle

/-- A number above what is rounded is above the result. -/
theorem Nearest.scaled_le (h : Nearest x n) (hx : x.isFinite = true) (hle : n ≤ scaled y) :
    scaled x ≤ scaled y := by
  have := h.natAbs_sub_le hx y
  omega

/-- A number below what is rounded is below the result. -/
theorem Nearest.le_scaled (h : Nearest x n) (hx : x.isFinite = true) (hle : scaled y ≤ n) :
    scaled y ≤ scaled x := by
  have := h.natAbs_sub_le hx y
  omega

/-- What is nearest to an integer is an integer. -/
theorem Nearest.exists_scaled_eq_mul_one (h : Nearest x (z * one)) (hx : x.isFinite = true) :
    ∃ k : Int, scaled x = k * one := by
  rcases Nat.le_total z.natAbs (2 * binade) with hle | hge
  · exact ⟨z, (h.scaled_eq_intCast_mul_one hle).2⟩
  · have hdvd : one ∣ magnitude x := by
      obtain ⟨d, hd, hone⟩ := exists_one_eq_pow
      have hne : z.natAbs ≠ 0 := by
        intro hzero
        rw [hzero, binade] at hge
        omega
      have hlog : 53 ≤ z.natAbs.log2 := by
        rw [Nat.le_log2 hne]
        exact hge
      have hspare : d ≤ spare (z * one).natAbs := by
        rw [Int.natAbs_mul, Int.natAbs_natCast, hone, spare, log2_mul_pow hne]
        omega
      have hpow := Nat.pow_dvd_pow 2 hspare
      rw [← hone] at hpow
      rw [magnitude, h.pattern_eq, units_rounded_eq (h.rounded_lt hx)]
      exact Dvd.dvd.mul_left hpow _
    obtain ⟨k, hk⟩ := hdvd
    refine ⟨(sign x).apply k, ?_⟩
    rw [scaled_eq_apply, apply_mul, hk, Nat.mul_comm, Int.natCast_mul]

/-! ## Whole numbers -/

theorem isWhole_iff : isWhole x = true ↔ x.isFinite = true ∧ ∃ k : Int, scaled x = k * one := by
  rw [isWhole, Bool.and_eq_true, beq_iff_eq, ← Nat.dvd_iff_mod_eq_zero, ← scaled_natAbs,
    ← Int.natCast_dvd]
  refine and_congr_right fun _ => ?_
  constructor
  · rintro ⟨k, hk⟩
    exact ⟨k, by rw [hk, Int.mul_comm]⟩
  · rintro ⟨k, hk⟩
    exact ⟨k, by rw [hk, Int.mul_comm]⟩

theorem toRat_of_scaled (h : scaled x = z * one) : toRat x = z := by
  rw [toRat, h, Int.cast_mul, Int.cast_natCast, mul_div_cancel_right₀ _ ratCast_one_pos.ne']

theorem toRat_le_toRat_iff : toRat x ≤ toRat y ↔ scaled x ≤ scaled y := by
  rw [toRat, toRat, div_le_div_iff_of_pos_right ratCast_one_pos, Int.cast_le]

/-- What has so many digits before its fraction has no fraction. -/
theorem exists_toRat_eq_intCast (h : 2 ^ 52 ≤ |toRat x|) : ∃ k : Int, toRat x = k := by
  have amount : |toRat x| = (magnitude x : ℚ) / one := by
    rw [toRat, abs_div, abs_of_pos ratCast_one_pos, ← Int.cast_abs, ← Nat.cast_natAbs,
      scaled_natAbs]
  have hdvd : one ∣ magnitude x := by
    refine Nat.dvd_of_mod_eq_zero (by_contra fun hrest => ?_)
    have hlt := (Nat.div_lt_iff_lt_mul one_pos).mp (magnitude_div_one_lt hrest)
    have hless : (magnitude x : ℚ) < (binade * one : Nat) := Nat.cast_lt.mpr hlt
    rw [Nat.cast_mul, show (binade : ℚ) = 2 ^ 52 by norm_num [binade]] at hless
    rw [amount, le_div_iff₀ ratCast_one_pos] at h
    exact absurd h (not_le.mpr hless)
  obtain ⟨k, hk⟩ := hdvd
  refine ⟨(sign x).apply k, toRat_of_scaled ?_⟩
  rw [scaled_eq_apply, apply_mul, hk, Nat.mul_comm, Int.natCast_mul]

/-! ## Rounding up and down -/

theorem floor_toRat_eq_iff : ⌊toRat x⌋ = z ↔ z * one ≤ scaled x ∧ scaled x < (z + 1) * one := by
  rw [Int.floor_eq_iff, toRat, le_div_iff₀ ratCast_one_pos, div_lt_iff₀ ratCast_one_pos]
  constructor
  · rintro ⟨hlow, hhigh⟩
    exact ⟨by exact_mod_cast hlow, by exact_mod_cast hhigh⟩
  · rintro ⟨hlow, hhigh⟩
    exact ⟨by exact_mod_cast hlow, by exact_mod_cast hhigh⟩

/-- Of a negative number the whole part is cut off towards zero. -/
theorem scaled_wholePart_of_neg (h : x.isFinite = true) (hneg : scaled x < 0) :
    scaled x = -(magnitude x : Int) ∧
      scaled (wholePart x) = -((magnitude x / one : Nat) : Int) * one := by
  obtain ⟨-, hsign, hmagnitude⟩ := wholePart_spec h
  have negative : isNegative x = true := by
    by_contra hpos
    rw [scaled, if_neg hpos] at hneg
    omega
  rw [scaled, scaled, hsign, hmagnitude, if_pos negative, if_pos negative]
  push_cast
  exact ⟨rfl, (Int.neg_mul _ _).symm⟩

/-- What is left of a magnitude when its whole part is taken away. -/
theorem magnitude_div_mod (x : Float) :
    ((magnitude x / one : Nat) : Int) * one + ((magnitude x % one : Nat) : Int) = magnitude x ∧
      ((magnitude x % one : Nat) : Int) < one := by
  have hdiv := Nat.div_add_mod' (magnitude x) one
  have hmod := Nat.mod_lt (magnitude x) one_pos
  exact ⟨by exact_mod_cast hdiv, by exact_mod_cast hmod⟩

/-- **A number rounded up** is a number. -/
theorem scaled_ceil_eq (h : x.isFinite = true) :
    (ceil x).isFinite = true ∧ scaled (ceil x) = ⌈toRat x⌉ * one := by
  rcases lt_or_ge (scaled x) 0 with hneg | hnonneg
  · obtain ⟨hx, hwhole⟩ := scaled_wholePart_of_neg h hneg
    obtain ⟨hdiv, hmod⟩ := magnitude_div_mod x
    have hfinite := (wholePart_spec h).1
    have hnot : ¬ wholePart x < x := by
      rw [lt_iff_scaled hfinite h, hwhole, hx, Int.neg_mul]
      omega
    have hceil : ⌈toRat x⌉ = -((magnitude x / one : Nat) : Int) := by
      rw [ceil_toRat_eq_iff, hx, Int.sub_mul, Int.neg_mul]
      omega
    rw [ceil, if_neg hnot, hceil]
    exact ⟨hfinite, hwhole⟩
  · exact scaled_ceil h hnonneg

/-- **A number rounded down** is a number. -/
theorem scaled_floor_eq (h : x.isFinite = true) :
    (floor x).isFinite = true ∧ scaled (floor x) = ⌊toRat x⌋ * one := by
  have hfinite := (wholePart_spec h).1
  rcases lt_or_ge (scaled x) 0 with hneg | hnonneg
  · obtain ⟨hx, hwhole⟩ := scaled_wholePart_of_neg h hneg
    obtain ⟨hdiv, hmod⟩ := magnitude_div_mod x
    have hlt : x < wholePart x ↔ magnitude x % one ≠ 0 := by
      rw [lt_iff_scaled h hfinite, hwhole, hx, Int.neg_mul]
      omega
    by_cases hzero : magnitude x % one = 0
    · have hfloor : ⌊toRat x⌋ = -((magnitude x / one : Nat) : Int) := by
        rw [floor_toRat_eq_iff, hx, Int.add_mul, Int.neg_mul]
        omega
      rw [floor, if_neg (mt hlt.mp (not_not.mpr hzero)), hfloor]
      exact ⟨hfinite, hwhole⟩
    · have hfloor : ⌊toRat x⌋ = -((magnitude x / one : Nat) : Int) - 1 := by
        rw [floor_toRat_eq_iff, hx, Int.sub_add_cancel, Int.sub_mul, Int.neg_mul]
        omega
      have hdigits : (-((magnitude x / one : Nat) : Int) - 1).natAbs ≤ 2 * binade := by
        have := magnitude_div_one_lt hzero
        generalize magnitude x / one = digits at this ⊢
        omega
      have hnearest := nearest_sub hfinite isFinite_one
      rw [hwhole, scaled_one, ← sub_one_mul] at hnearest
      rw [floor, if_pos (hlt.mpr hzero), hfloor]
      exact hnearest.scaled_eq_intCast_mul_one hdigits
  · have hfloor : ⌊toRat x⌋ = scaled x / one := by
      have hdiv := Int.mul_ediv_add_emod (scaled x) one
      have hmod := Int.emod_nonneg (scaled x) natCast_one_pos.ne'
      have hlt := Int.emod_lt_of_pos (scaled x) natCast_one_pos
      rw [Int.mul_comm] at hdiv
      rw [floor_toRat_eq_iff, Int.add_mul]
      omega
    rw [floor_eq_wholePart h hnonneg, hfloor]
    exact ⟨hfinite, scaled_wholePart h hnonneg⟩

/-! ## To 64-bit integers and back -/

/-- **A whole number as a 64-bit integer** is cut off at the least and the greatest one. -/
theorem toInt64_eq (h : x.isFinite = true) (hz : scaled x = z * one) :
    toInt64 x = max (-2 ^ 63) (min z (2 ^ 63 - 1)) := by
  have hone := natCast_one_pos
  have hmagnitude : magnitude x / one = z.natAbs := by
    rw [← scaled_natAbs, hz, Int.natAbs_mul, Int.natAbs_natCast, Nat.mul_div_cancel _ one_pos]
  have hzero : (0.0 : Float).isFinite = true ∧ scaled 0.0 = 0 := by decide +kernel
  have hlt : x < 0.0 ↔ z < 0 := by
    rw [lt_iff_scaled h hzero.1, hzero.2, hz]
    exact ⟨fun hneg => neg_of_mul_neg_left hneg hone.le, fun hneg =>
      Int.mul_neg_of_neg_of_pos hneg hone⟩
  rw [toInt64]
  by_cases hneg : z < 0
  · obtain ⟨hfinite, hscaled⟩ := scaled_neg h
    have hnonneg : 0 ≤ scaled (-x) := by
      rw [hscaled, hz, ← Int.neg_mul]
      exact Int.mul_nonneg (by omega) hone.le
    have hsame : magnitude (-x) / one = z.natAbs := by
      rw [← scaled_natAbs, hscaled, Int.natAbs_neg, scaled_natAbs, hmagnitude]
    rw [if_pos (hlt.mpr hneg), toNat_toUInt64 hfinite hnonneg, hsame, signBit]
    omega
  · have hnonneg : 0 ≤ scaled x := by
      rw [hz]
      exact Int.mul_nonneg (by omega) hone.le
    rw [if_neg (mt hlt.mp hneg), toNat_toUInt64 h hnonneg, hmagnitude, signBit]
    omega

/-- The negative of what is nearest is nearest to the negative. -/
theorem Nearest.neg (h : Nearest x n) : Nearest (-x) (-n) := by
  obtain ⟨hpattern, hsign⟩ := neg_spec h.isNaN
  have flip : isNegative (-x) = !isNegative x := by
    rw [sign, sign] at hsign
    cases hx : isNegative x <;> cases hnx : isNegative (-x) <;> simp [hx, hnx] at hsign ⊢
  refine ⟨?_, fun hpos => ?_, fun hneg => ?_⟩
  · rw [hpattern, Int.natAbs_neg, h.pattern_eq]
  · rw [flip, h.negative (by omega), Bool.not_true]
  · rw [flip, h.positive (by omega), Bool.not_false]

theorem nearest_toFloat (m : UInt64) :
    m.toFloat.isFinite = true ∧ Nearest m.toFloat ((m.toNat : Int) * one) := by
  obtain ⟨d, hd, hone⟩ := exists_one_eq_pow
  have hnearest : Nearest m.toFloat ((m.toNat : Int) * one) := by
    have hexponent : (0 : Int) = (d : Int) - 1074 := by omega
    show Nearest (.ofModel (Float.Model.pack (normalize .binary64 (m.toNat : Int) 0 .positive))) _
    rw [hexponent, hone, Int.natCast_pow]
    exact nearest_normalize _ d
  have hbound : m.toNat * one ≤ units (infinitePattern - 1) + one := by
    have hle : m.toNat * one ≤ 2 ^ 64 * one := Nat.mul_le_mul_right one m.toNat_lt.le
    have hgap : widestGap ≤ (2 * binade - 1) * widestGap := Nat.le_mul_of_pos_left _ (by decide)
    rw [units_greatest]
    exact Nat.le_add_right_of_le (hle.trans (two_pow_mul_one_le_widestGap.trans hgap))
  refine ⟨isFinite_iff.mpr ?_, hnearest⟩
  rw [hnearest.pattern_eq, Int.natAbs_mul, Int.natAbs_natCast, Int.natAbs_natCast]
  exact rounded_lt hbound

/-- A 64-bit integer is positive just if the number that it is rounded to is. -/
theorem pos_toFloat_iff (m : UInt64) : 0.0 < m.toFloat ↔ 0 < m := by
  obtain ⟨hfinite, hnearest⟩ := nearest_toFloat m
  rw [pos_iff, UInt64.lt_iff_toNat_lt]
  rcases Nat.eq_zero_or_pos m.toNat with hzero | hpos
  · rw [hzero] at hnearest ⊢
    have hscaled := (hnearest.scaled_eq_mul_one (Nat.zero_le _)).2
    rw [hscaled, Int.natCast_zero, Int.zero_mul]
    exact iff_of_false (fun h => lt_irrefl _ h.2) (lt_irrefl _)
  · have hle : scaled 1.0 ≤ scaled m.toFloat := by
      refine hnearest.le_scaled hfinite ?_
      rw [scaled_one]
      exact le_mul_of_one_le_left natCast_one_pos.le (by omega)
    rw [scaled_one] at hle
    have := natCast_one_pos
    exact iff_of_true ⟨isNaN_of_isFinite hfinite, by omega⟩ hpos

/-- A 32-bit integer is positive just if it is a positive number. -/
theorem pos_toFloat_iff_of_count (n : UInt32) : 0.0 < n.toFloat ↔ 0 < n := by
  obtain ⟨hfinite, hscaled⟩ := scaled_toFloat n
  rw [pos_iff, hscaled, UInt32.lt_iff_toNat_lt, mul_pos_iff_of_pos_right natCast_one_pos,
    Int.natCast_pos]
  exact and_iff_right (isNaN_of_isFinite hfinite)

/-- **A 64-bit integer as a number** is rounded to the nearest one. -/
theorem nearest_ofInt (h : n.natAbs < 2 ^ 64) :
    (ofInt n).isFinite = true ∧ Nearest (ofInt n) (n * one) := by
  obtain ⟨hfinite, hnearest⟩ := nearest_toFloat (UInt64.ofNat n.natAbs)
  rw [UInt64.toNat_ofNat_of_lt' h] at hnearest
  rw [ofInt]
  by_cases hneg : n < 0
  · have hflipped := hnearest.neg
    rw [if_pos hneg]
    rw [← Int.neg_mul, show -(n.natAbs : Int) = n by omega] at hflipped
    exact ⟨(scaled_neg hfinite).1, hflipped⟩
  · rw [if_neg hneg]
    rw [show (n.natAbs : Int) = n by omega] at hnearest
    exact ⟨hfinite, hnearest⟩

end IncrementalGame.Binary64
