import IncrementalGame.Proofs.Binary64.Order

/-!
# Whole parts and fractions

The whole part of a finite number is computed on its units, and so it is exact.  What is left of a
number that is not negative when its whole part is taken away is exact as well, and lies below one
(`scaled_sub_floor`).  A number that is at most one can be added to any finite number that is not
negative, and the sum is finite (`isFinite_add`).
-/

namespace IncrementalGame.Binary64

open Float.Model Float.Model.UnpackedFloat

/-- Whether a number of units has no more digits than a number keeps. -/
def Fits (n : Nat) : Prop := ∃ m j, m < 2 * binade ∧ n = m * 2 ^ j

theorem natCast_one_pos : (0 : Int) < one := by
  have h := one_pos
  omega

theorem fits_units (k : Nat) : Fits (units k) :=
  ⟨significand k, k / binade - 1, significand_lt k, units_eq_significand k⟩

/-- What fits has a pattern. -/
theorem units_patternOfUnits {n : Nat} (h : Fits n) : units (patternOfUnits n) = n := by
  by_cases hlow : n < binade
  · rw [patternOfUnits, if_pos hlow, units, if_pos hlow]
  · obtain ⟨m, j, hm, rfl⟩ := h
    have hb : 0 < binade := by decide
    have hmpos : m ≠ 0 := by
      rintro rfl
      exact hlow (by rw [Nat.zero_mul]; exact hb)
    have hlog : m.log2 < 53 := (Nat.log2_lt hmpos).mpr hm
    have hlogn : 52 ≤ (m * 2 ^ j).log2 :=
      (Nat.le_log2 (Nat.mul_ne_zero hmpos (Nat.two_pow_pos j).ne')).mpr (not_lt.mp hlow)
    -- the digits kept, and the places given up
    obtain ⟨q, s, hq, hqlow, hqlt, hs⟩ : ∃ q s, m * 2 ^ j = q * 2 ^ s ∧ binade ≤ q ∧
        q < 2 * binade ∧ (m * 2 ^ j).log2 - 52 = s := by
      have hlogm := log2_mul_pow hmpos j
      refine ⟨m * 2 ^ (j - ((m * 2 ^ j).log2 - 52)), (m * 2 ^ j).log2 - 52, ?_, ?_, ?_, rfl⟩
      · rw [Nat.mul_assoc, ← Nat.pow_add, Nat.sub_add_cancel (by omega)]
      · have hself := Nat.log2_self_le hmpos
        refine le_trans ?_ (Nat.mul_le_mul_right _ hself)
        rw [← Nat.pow_add]
        show 2 ^ 52 ≤ _
        exact Nat.pow_le_pow_right Nat.two_pos (by omega)
      · have hself : m < 2 ^ (m.log2 + 1) := Nat.lt_log2_self
        refine lt_of_lt_of_le (Nat.mul_lt_mul_of_pos_right hself (Nat.two_pow_pos _)) ?_
        rw [← Nat.pow_add]
        show _ ≤ 2 ^ 53
        exact Nat.pow_le_pow_right Nat.two_pos (by omega)
    have hkept : (m * 2 ^ j) >>> s = q := by
      rw [hq, Nat.shiftRight_eq_div_pow, Nat.mul_div_cancel _ (Nat.two_pow_pos s)]
    have hdiv : ((s + 1) * binade + (q - binade)) / binade = s + 1 := by
      rw [Nat.add_comm, Nat.add_mul_div_right _ _ hb, Nat.div_eq_of_lt (by omega), Nat.zero_add]
    have hmod : ((s + 1) * binade + (q - binade)) % binade = q - binade := by
      rw [Nat.add_comm, Nat.add_mul_mod_self_right, Nat.mod_eq_of_lt (by omega)]
    have hhigh : ¬ (s + 1) * binade + (q - binade) < binade := by
      rw [Nat.add_mul]
      omega
    rw [patternOfUnits, if_neg hlow, hs, hkept, units, if_neg hhigh, hdiv, hmod,
      Nat.add_sub_cancel' hqlow, Nat.add_sub_cancel, Nat.shiftLeft_eq, hq]

/-- What fits is rounded to itself. -/
theorem units_rounded {n : Nat} (h : Fits n) (hle : n ≤ units infinitePattern) :
    units (rounded n) = n := by
  have hunits := units_patternOfUnits h
  have hpattern : patternOfUnits n ≤ infinitePattern := by
    rw [← hunits] at hle
    exact units_strictMono.le_iff_le.mp hle
  have hrounded := rounded_units hpattern
  rw [hunits] at hrounded
  rw [hrounded, hunits]

/-- **The number nearest to what fits is exact.** -/
theorem Nearest.scaled_eq {x : Float} {n : Int} (h : Nearest x n) (hfits : Fits n.natAbs)
    (hlt : n.natAbs < units infinitePattern) : x.isFinite = true ∧ scaled x = n := by
  have hunits := units_rounded hfits hlt.le
  have hmagnitude : magnitude x = n.natAbs := by rw [magnitude, h.pattern_eq, hunits]
  constructor
  · rw [isFinite_iff, h.pattern_eq]
    rw [← hunits] at hlt
    exact units_strictMono.lt_iff_lt.mp hlt
  · rcases lt_trichotomy n 0 with hneg | rfl | hpos
    · rw [scaled, h.negative hneg, if_pos rfl, hmagnitude]
      omega
    · rw [Int.natAbs_zero] at hmagnitude
      rw [scaled, hmagnitude]
      split <;> rfl
    · rw [scaled, h.positive hpos, if_neg Bool.false_ne_true, hmagnitude]
      omega

/-! ## Whole parts -/

/-- A number is made of a sign and a pattern. -/
theorem exists_of_pattern (s : Sign) {k : Nat} (h : k < infinitePattern) :
    ∃ x : Float, x.toBits.toNat = signOf s + k := by
  rcases Nat.eq_zero_or_pos k with rfl | hpos
  · exact ⟨.ofModel (Float.Model.pack (.zero s)), by cases s <;> decide⟩
  · have hm : 0 < significand k := by
      rw [significand]
      split
      · exact hpos
      · rw [binade]
        omega
    exact ⟨.ofModel (Float.Model.pack (.finite s (significand k)
      (((k / binade - 1 : Nat) : Int) - 1074) hm)), toNat_pack_finite s h hm⟩

theorem toBits_eq (x : Float) : x.toBits.toNat = signOf (sign x) + pattern x := by
  have hlt := x.toBits.toNat_lt
  rw [sign, isNegative, pattern, signBit]
  by_cases h : 0x8000000000000000 ≤ x.toBits.toNat
  · rw [if_pos (decide_eq_true h), signOf, signBit]
    omega
  · rw [if_neg (by rw [decide_eq_true_iff]; exact h), signOf]
    omega

/-- A finite number is made again from its bits. -/
theorem ofBits_toBits {x : Float} (h : x.isFinite = true) : Float.ofBits x.toBits = x := by
  have hlt := isFinite_iff.mp h
  refine ext_toBits (UInt64.toNat_inj.mp ?_)
  rw [toBits_eq x]
  show (UnpackedFloat.pack .binary64 x.toModel.unpack).toNat = _
  rcases Nat.eq_zero_or_pos (pattern x) with hzero | hpos
  · rw [unpack_of_zero hzero, hzero]
    cases sign x <;> decide
  · obtain ⟨hm, hunpack⟩ := unpack_of_finite hpos hlt
    rw [hunpack]
    exact toNat_pack_finite (sign x) hlt hm

/-- A sign and a pattern make the number that has them. -/
theorem ofPattern_spec (negative : Bool) {k : Nat} (h : k < infinitePattern) :
    (ofPattern negative k).isFinite = true ∧ isNegative (ofPattern negative k) = negative ∧
      pattern (ofPattern negative k) = k := by
  obtain ⟨x, hx⟩ := exists_of_pattern (if negative then .negative else .positive) h
  have hlt := x.toBits.toNat_lt
  have hbits : x.toBits.toNat = if negative then signBit + k else k := by
    rw [hx]
    cases negative with
    | true => rfl
    | false => exact Nat.zero_add k
  have hpattern : pattern x = k := by
    rw [infinitePattern] at h
    rw [pattern, hbits, signBit]
    split <;> omega
  have hsign : isNegative x = negative := by
    rw [infinitePattern] at h
    rw [isNegative, hbits]
    cases negative with
    | true => exact decide_eq_true (Nat.le_add_right _ _)
    | false => exact decide_eq_false (by rw [if_neg Bool.false_ne_true, signBit]; omega)
  have hfinite : x.isFinite = true := by
    rw [isFinite_iff, hpattern]
    exact h
  have hself : ofPattern negative k = x := by
    rw [ofPattern, ← hbits, UInt64.ofNat_toNat, ofBits_toBits hfinite]
  rw [hself]
  exact ⟨hfinite, hsign, hpattern⟩

section

variable {x : Float}

theorem scaled_natAbs (x : Float) : (scaled x).natAbs = magnitude x := by
  unfold scaled
  split
  · rw [Int.natAbs_neg, Int.natAbs_natCast]
  · exact Int.natAbs_natCast _

theorem magnitude_lt (h : x.isFinite = true) : magnitude x < units infinitePattern :=
  units_strictMono (isFinite_iff.mp h)

/-- Shifting places out and in again is rounding down. -/
theorem shiftRight_shiftLeft (n k : Nat) : (n >>> k) <<< k = n / 2 ^ k * 2 ^ k := by
  rw [Nat.shiftRight_eq_div_pow, Nat.shiftLeft_eq]

/-- Rounding down to a power of two takes no more digits. -/
theorem fits_div_mul {n : Nat} (h : Fits n) (k : Nat) : Fits (n / 2 ^ k * 2 ^ k) := by
  obtain ⟨m, j, hm, rfl⟩ := h
  rcases Nat.le_total k j with hle | hle
  · have hdvd : 2 ^ k ∣ m * 2 ^ j := Dvd.dvd.mul_left (Nat.pow_dvd_pow 2 hle) m
    rw [Nat.div_mul_cancel hdvd]
    exact ⟨m, j, hm, rfl⟩
  · obtain ⟨d, rfl⟩ := Nat.exists_eq_add_of_le hle
    refine ⟨m / 2 ^ d, j + d, lt_of_le_of_lt (Nat.div_le_self _ _) hm, ?_⟩
    rw [Nat.pow_add 2 j d, Nat.mul_comm m, Nat.mul_div_mul_left _ _ (Nat.two_pow_pos j)]

/-- What is left by rounding down to a power of two takes no more digits. -/
theorem fits_mod {n : Nat} (h : Fits n) (k : Nat) : Fits (n % 2 ^ k) := by
  obtain ⟨m, j, hm, rfl⟩ := h
  rcases Nat.le_total k j with hle | hle
  · have hdvd : 2 ^ k ∣ m * 2 ^ j := Dvd.dvd.mul_left (Nat.pow_dvd_pow 2 hle) m
    rw [Nat.mod_eq_zero_of_dvd hdvd]
    exact ⟨0, 0, by decide, rfl⟩
  · obtain ⟨d, rfl⟩ := Nat.exists_eq_add_of_le hle
    refine ⟨m % 2 ^ d, j, lt_of_le_of_lt (Nat.mod_le _ _) hm, ?_⟩
    rw [Nat.pow_add, Nat.mul_comm m, Nat.mul_mod_mul_left, Nat.mul_comm]

/-- The whole part of a number, which has the same sign, counts the whole ones. -/
theorem wholePart_spec (h : x.isFinite = true) :
    (wholePart x).isFinite = true ∧ isNegative (wholePart x) = isNegative x ∧
      magnitude (wholePart x) = magnitude x / one * one := by
  obtain ⟨d, hd, hone⟩ := exists_one_eq_pow
  have hwhole : (magnitude x >>> 1074) <<< 1074 = magnitude x / one * one := by
    rw [hone, ← hd, shiftRight_shiftLeft]
  have hunits : units (patternOfUnits (magnitude x / one * one)) = magnitude x / one * one := by
    rw [hone]
    exact units_patternOfUnits (fits_div_mul (fits_units (pattern x)) d)
  have hle : magnitude x / one * one ≤ magnitude x := Nat.div_mul_le_self _ _
  have hlt : patternOfUnits (magnitude x / one * one) < infinitePattern := by
    refine units_strictMono.lt_iff_lt.mp ?_
    rw [hunits]
    exact lt_of_le_of_lt hle (magnitude_lt h)
  obtain ⟨hfinite, hsign, hpattern⟩ := ofPattern_spec (isNegative x) hlt
  rw [wholePart, if_pos h, hwhole]
  exact ⟨hfinite, hsign, by rw [magnitude, hpattern, hunits]⟩

/-! ## Numbers that are not negative -/

theorem scaled_eq_magnitude (h : 0 ≤ scaled x) : scaled x = magnitude x := by
  rw [← scaled_natAbs]
  omega

theorem scaled_wholePart (h : x.isFinite = true) (hnonneg : 0 ≤ scaled x) :
    scaled (wholePart x) = scaled x / one * one := by
  obtain ⟨_, hsign, hmagnitude⟩ := wholePart_spec h
  rw [scaled, hsign, hmagnitude]
  rw [scaled] at hnonneg ⊢
  split
  next hneg =>
    rw [if_pos hneg] at hnonneg
    have hzero : magnitude x = 0 := by omega
    rw [hzero, Nat.zero_div, Nat.zero_mul, Int.natCast_zero, Int.neg_zero, Int.zero_ediv,
      Int.zero_mul]
  next => rw [Int.natCast_mul, Int.natCast_ediv]

theorem floor_eq_wholePart (h : x.isFinite = true) (hnonneg : 0 ≤ scaled x) :
    floor x = wholePart x := by
  have hle : scaled (wholePart x) ≤ scaled x := by
    rw [scaled_wholePart h hnonneg]
    exact Int.ediv_mul_le _ natCast_one_pos.ne'
  have hnot : ¬ x < wholePart x := by
    rw [lt_iff_scaled h (wholePart_spec h).1]
    omega
  exact if_neg hnot

/-- **What is left of a number without its whole part is exact.** -/
theorem scaled_sub_floor (h : x.isFinite = true) (hnonneg : 0 ≤ scaled x) :
    (x - floor x).isFinite = true ∧ scaled (x - floor x) = scaled x % one := by
  have hrest : scaled x - scaled (wholePart x) = scaled x % one := by
    rw [scaled_wholePart h hnonneg, Int.emod_def, Int.mul_comm]
  have hnatAbs : (scaled x % one).natAbs = magnitude x % one := by
    rw [scaled_eq_magnitude hnonneg, ← Int.natCast_emod, Int.natAbs_natCast]
  have hnearest := nearest_sub h (wholePart_spec h).1
  rw [hrest] at hnearest
  rw [floor_eq_wholePart h hnonneg]
  refine hnearest.scaled_eq ?_ ?_
  · rw [hnatAbs]
    obtain ⟨d, -, hone⟩ := exists_one_eq_pow
    rw [hone]
    exact fits_mod (fits_units (pattern x)) d
  · rw [hnatAbs]
    exact lt_of_le_of_lt (Nat.mod_le _ _) (magnitude_lt h)

/-! ## Gains -/

/-- The distance of two neighbours among the greatest numbers, in units. -/
def widestGap : Nat := 2 ^ 2045

theorem exists_widestGap_eq_pow : ∃ places, places = 2045 ∧ widestGap = 2 ^ places :=
  ⟨2045, rfl, rfl⟩

theorem widestGap_pos : 0 < widestGap := by
  obtain ⟨places, -, hgap⟩ := exists_widestGap_eq_pow
  rw [hgap]
  exact Nat.two_pow_pos places

/-- Between two such neighbours lies a midpoint. -/
theorem widestGap_eq_two_mul : widestGap = 2 * 2 ^ 2044 := by
  rw [widestGap, ← pow_succ']

theorem two_pow_mul_one_le_widestGap : 2 ^ 64 * one ≤ widestGap := by
  obtain ⟨d, hd, hone⟩ := exists_one_eq_pow
  obtain ⟨places, hplaces, hgap⟩ := exists_widestGap_eq_pow
  rw [hone, hgap, ← pow_add]
  exact Nat.pow_le_pow_right Nat.two_pos (by omega)

theorem units_greatest : units (infinitePattern - 1) = (2 * binade - 1) * widestGap := by
  rw [units_eq_significand, show significand (infinitePattern - 1) = 2 * binade - 1 by decide,
    show (infinitePattern - 1) / binade - 1 = 2045 by decide, widestGap]

theorem units_infinitePattern : units infinitePattern = 2 * binade * widestGap := by
  rw [units_eq_significand, show significand infinitePattern = binade by decide,
    show infinitePattern / binade - 1 = 2045 + 1 by decide, pow_succ', widestGap, mul_left_comm,
    mul_assoc]

/-- What lies below the midpoint under infinity is rounded to a finite number. -/
theorem rounded_lt_of_lt {n : Nat} (h : 2 * n < midpointBelow infinitePattern) :
    rounded n < infinitePattern := by
  obtain ⟨places, hplaces, hgap⟩ := exists_widestGap_eq_pow
  obtain ⟨half, hhalf⟩ : ∃ half, widestGap = 2 * half := ⟨_, widestGap_eq_two_mul⟩
  have hpos := widestGap_pos
  have hge : widestGap ≤ 2 * binade * widestGap := Nat.le_mul_of_pos_left _ (by decide)
  rw [midpointBelow, units_greatest, units_infinitePattern, Nat.sub_mul, Nat.one_mul] at h
  have hspare : spare n ≤ 2045 := by
    by_cases hn : n = 0
    · rw [hn, spare, Nat.log2_zero]
      omega
    · have hlt : n < 2 ^ (53 + places) := by
        rw [pow_add, ← hgap, show 2 ^ 53 = 2 * binade by decide]
        omega
      have hlog := (Nat.log2_lt hn).mpr hlt
      rw [spare]
      omega
  rw [rounded]
  refine lt_of_le_of_lt (Nat.min_le_right _ _) ?_
  rcases Nat.lt_or_eq_of_le hspare with hlow | hhigh
  · have hkept := halfEven_spare_le n
    have hplaces : spare n * binade ≤ 2044 * binade := Nat.mul_le_mul_right _ (by omega)
    exact lt_of_le_of_lt (Nat.add_le_add hplaces hkept) (by decide)
  · -- only in the highest binade a carry would be one too many
    have hle : n ≤ (2 * binade - 1) * widestGap + (half - 1) := by
      rw [Nat.sub_mul, Nat.one_mul]
      omega
    have hrest : 2 * (half - 1) < widestGap := by omega
    rw [hgap] at hle hrest
    have hkept : halfEven n places ≤ 2 * binade - 1 := halfEven_le_of_le hle hrest
    rw [hplaces] at hkept
    rw [hhigh]
    exact lt_of_le_of_lt (Nat.add_le_add_left hkept _) (by decide)

/-- No finite number is so great that one more makes it infinite. -/
theorem rounded_lt {n : Nat} (h : n ≤ units (infinitePattern - 1) + one) :
    rounded n < infinitePattern := by
  have hone := two_pow_mul_one_le_widestGap
  have hpos := one_pos
  have hge : widestGap ≤ 2 * binade * widestGap := Nat.le_mul_of_pos_left _ (by decide)
  refine rounded_lt_of_lt ?_
  rw [midpointBelow, units_infinitePattern]
  rw [units_greatest] at h ⊢
  rw [Nat.sub_mul, Nat.one_mul] at h ⊢
  omega

/-- The sum of a number that is at most one and a finite number is finite. -/
theorem isFinite_add {y : Float} (hx : x.isFinite = true) (hy : y.isFinite = true)
    (hxnonneg : 0 ≤ scaled x) (hxle : scaled x ≤ one) (hynonneg : 0 ≤ scaled y) :
    (x + y).isFinite = true ∧ 0 ≤ scaled (x + y) := by
  have hnearest := nearest_add hx hy
  have hyle : magnitude y ≤ units (infinitePattern - 1) := by
    have := isFinite_iff.mp hy
    exact units_strictMono.monotone (by omega)
  have hnatAbs : (scaled x + scaled y).natAbs ≤ units (infinitePattern - 1) + one := by
    rw [scaled_eq_magnitude hynonneg]
    omega
  refine ⟨isFinite_iff.mpr ?_, ?_⟩
  · rw [hnearest.pattern_eq]
    exact rounded_lt hnatAbs
  · rcases Int.lt_or_eq_of_le (Int.add_nonneg hxnonneg hynonneg) with hpos | hzero
    · rw [scaled, hnearest.positive hpos, if_neg Bool.false_ne_true]
      exact Int.natCast_nonneg _
    · have hpattern := hnearest.pattern_eq
      rw [← hzero, Int.natAbs_zero, rounded_zero] at hpattern
      rw [scaled_of_zero hpattern]

end

end IncrementalGame.Binary64
