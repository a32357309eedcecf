import IncrementalGame.Proofs.Binary64.Rounding

/-!
# Sums and differences of binary64 numbers

A finite number is a whole number of units (`scaled`), and the sum of two of them is the number
nearest to the sum of their units (`nearest_add`), the difference the one nearest to the difference
(`nearest_sub`).  A whole number of units that some finite number has is that number
(`rounded_units`).
-/

namespace IncrementalGame.Binary64

open Float.Model Float.Model.UnpackedFloat

/-- Whether a number is the one nearest to a whole number of units.  Zero may have either sign. -/
structure Nearest (x : Float) (n : Int) : Prop where
  pattern_eq : pattern x = rounded n.natAbs
  positive : 0 < n → isNegative x = false
  negative : n < 0 → isNegative x = true

theorem rounded_le (n : Nat) : rounded n ≤ infinitePattern := Nat.min_le_left _ _

theorem rounded_zero : rounded 0 = 0 := by decide

/-- The units of a pattern round to the pattern. -/
theorem rounded_units {k : Nat} (h : k ≤ infinitePattern) : rounded (units k) = k := by
  by_cases hlow : k < binade
  · have hspare : spare k = 0 := by
      rw [spare]
      by_cases hzero : k = 0
      · rw [hzero, Nat.log2_zero]
      · have hlog : k.log2 < 52 := (Nat.log2_lt hzero).mpr hlow
        omega
    rw [units, if_pos hlow, rounded, hspare, halfEven_zero, Nat.zero_mul, Nat.zero_add,
      Nat.min_eq_right h]
  · have hb : 0 < binade := by decide
    have hmod : k % binade < binade := Nat.mod_lt _ hb
    have hdiv := Nat.div_add_mod k binade
    have hquotient : 0 < k / binade := Nat.div_pos (by omega) hb
    have hlog : (binade + k % binade).log2 = 52 := by
      rw [Nat.log2_eq_iff (by omega)]
      rw [binade] at hmod ⊢
      omega
    have hspare : spare (units k) = k / binade - 1 := by
      rw [units_eq_significand, significand, if_neg hlow, spare, log2_mul_pow (by omega), hlog]
      omega
    have hkept : halfEven (units k) (k / binade - 1) = binade + k % binade := by
      rw [units_eq_significand, significand, if_neg hlow]
      have hexact := halfEven_mul_pow (binade + k % binade) (k / binade - 1) 0
      rw [Nat.add_zero] at hexact
      rw [hexact, halfEven_zero]
    rw [rounded, hspare, hkept, Nat.sub_mul, Nat.one_mul, Nat.mul_comm]
    have hle : binade ≤ binade * (k / binade) := Nat.le_mul_of_pos_right _ hquotient
    rw [Nat.min_eq_right (by omega)]
    omega

/-! ## What is packed -/

theorem nearest_of_pack {u : UnpackedFloat} (s : Sign) {n : Int}
    (h : (UnpackedFloat.pack .binary64 u).toNat = signOf s + rounded n.natAbs)
    (hpos : 0 < n → s = .positive) (hneg : n < 0 → s = .negative) :
    Nearest (.ofModel (Float.Model.pack u)) n := by
  have hbits : (Float.ofModel (Float.Model.pack u)).toBits.toNat =
      signOf s + rounded n.natAbs := h
  have hle := rounded_le n.natAbs
  rw [infinitePattern] at hle
  refine ⟨?_, ?_, ?_⟩
  · rw [pattern, hbits]
    cases s with
    | positive => rw [signOf, signBit]; omega
    | negative => rw [signOf, signBit]; omega
  · intro h
    rw [isNegative, hbits, hpos h, signOf, signBit]
    exact decide_eq_false (by omega)
  · intro h
    rw [isNegative, hbits, hneg h, signOf]
    exact decide_eq_true (by omega)

/-- What has a sign and a number of units and is normalized is the nearest number to them. -/
theorem nearest_normalize (m : Int) (j : Nat) :
    Nearest (.ofModel (Float.Model.pack
      (normalize .binary64 m ((j : Int) - 1074) .positive))) (m * 2 ^ j) := by
  have hpow : (0 : Int) < 2 ^ j := by positivity
  have hunits : (m * 2 ^ j).natAbs = m.natAbs * 2 ^ j := by
    rw [Int.natAbs_mul, Int.natAbs_pow]
    rfl
  rw [UnpackedFloat.normalize]
  rcases lt_trichotomy m 0 with h | rfl | h
  · rw [compare_lt_iff_lt.mpr h]
    refine nearest_of_pack .negative ?_ (fun hpos => ?_) (fun _ => rfl)
    · rw [hunits, show (-m).toNat = m.natAbs by omega]
      exact toNat_pack_round .negative (by omega) j
    · exact absurd hpos (Int.not_lt.mpr (Int.mul_nonpos_of_nonpos_of_nonneg h.le hpow.le))
  · refine nearest_of_pack .positive ?_ (fun _ => rfl) (fun hneg => ?_)
    · rw [Int.zero_mul, Int.natAbs_zero, rounded_zero]
      rfl
    · exact absurd hneg (by rw [Int.zero_mul]; decide)
  · rw [compare_gt_iff_gt.mpr h]
    refine nearest_of_pack .positive ?_ (fun _ => rfl) (fun hneg => ?_)
    · rw [hunits, show m.toNat = m.natAbs by omega]
      exact toNat_pack_round .positive (by omega) j
    · exact absurd hneg (Int.not_lt.mpr (Int.mul_pos h hpow).le)

/-- What is taken apart and packed again is the same. -/
theorem toNat_pack_finite (s : Sign) {k : Nat} (h : k < infinitePattern)
    (hm : 0 < significand k) :
    (UnpackedFloat.pack .binary64
      (.finite s (significand k) (((k / binade - 1 : Nat) : Int) - 1074) hm)).toNat =
      signOf s + k := by
  have hb : 0 < binade := by decide
  have hmod : k % binade < binade := Nat.mod_lt _ hb
  have hdiv := Nat.div_add_mod k binade
  by_cases hlow : k < binade
  · have hsignificand : significand k = k := if_pos hlow
    have hexponent : k / binade - 1 = 0 := by rw [Nat.div_eq_of_lt hlow]
    simp only [hsignificand, hexponent]
    exact toNat_pack_subnormal s hlow (by rw [← hsignificand]; exact hm)
  · have hsignificand : significand k = binade + k % binade := if_neg hlow
    have hquotient : 0 < k / binade := Nat.div_pos (by omega) hb
    have hle : binade ≤ binade * (k / binade) := Nat.le_mul_of_pos_right _ hquotient
    rw [toNat_pack_normal s (by omega) (by omega), hsignificand, Nat.sub_mul, Nat.one_mul,
      Nat.mul_comm, Nat.min_eq_right (by omega)]
    omega

/-! ## Numbers taken apart -/

section

variable {x : Float}

theorem scaled_eq_apply (x : Float) : scaled x = (sign x).apply (magnitude x) := by
  rw [scaled, sign]
  split <;> rfl

theorem scaled_of_zero (h : pattern x = 0) : scaled x = 0 := by
  rw [scaled, magnitude, h]
  split <;> rfl

/-- The lower of two exponents. -/
theorem min_exponent (i j : Nat) :
    min ((i : Int) - 1074) ((j : Int) - 1074) = ((min i j : Nat) : Int) - 1074 := by omega

theorem apply_neg (s : Sign) (n : Int) : (-s).apply n = -s.apply n := by
  cases s with
  | positive => rfl
  | negative => exact (Int.neg_neg n).symm

theorem apply_mul (s : Sign) (m n : Int) : s.apply m * n = s.apply (m * n) := by
  cases s with
  | positive => rfl
  | negative => exact Int.neg_mul m n

theorem natAbs_apply (s : Sign) (n : Nat) : (s.apply (n : Int)).natAbs = n := by
  cases s with
  | positive => exact Int.natAbs_natCast n
  | negative => exact (Int.natAbs_neg _).trans (Int.natAbs_natCast n)

/-- A finite number other than zero, packed with a sign. -/
theorem nearest_pack_finite (s : Sign) (h : pattern x < infinitePattern)
    (hm : 0 < significand (pattern x)) :
    Nearest (.ofModel (Float.Model.pack (.finite s (significand (pattern x))
      (((pattern x / binade - 1 : Nat) : Int) - 1074) hm))) (s.apply (magnitude x)) := by
  refine nearest_of_pack s ?_ (fun hpos => ?_) (fun hneg => ?_)
  · rw [natAbs_apply, magnitude, rounded_units h.le]
    exact toNat_pack_finite s h hm
  · cases s with
    | positive => rfl
    | negative => exact absurd hpos (by rw [Sign.apply]; omega)
  · cases s with
    | positive => exact absurd hneg (by rw [Sign.apply]; omega)
    | negative => rfl

theorem nearest_pack_zero (s : Sign) :
    Nearest (.ofModel (Float.Model.pack (.zero s))) 0 := by
  refine nearest_of_pack s ?_ (fun h => absurd h (by decide)) (fun h => absurd h (by decide))
  rw [Int.natAbs_zero, rounded_zero]
  cases s <;> decide

/-- A significand with digits for a lower exponent has as many units. -/
theorem scaled_eq_mul_pow {i : Nat} (h : i ≤ pattern x / binade - 1) :
    scaled x = (sign x).apply (decreaseExponent (significand (pattern x))
      (((pattern x / binade - 1 : Nat) : Int) - 1074) ((i : Int) - 1074)).1 * 2 ^ i := by
  have hamount : (((pattern x / binade - 1 : Nat) : Int) - 1074 - ((i : Int) - 1074)).toNat =
      pattern x / binade - 1 - i := by omega
  have hpow : 2 ^ (pattern x / binade - 1 - i) * 2 ^ i = 2 ^ (pattern x / binade - 1) := by
    rw [← Nat.pow_add, Nat.sub_add_cancel h]
  rw [scaled_eq_apply, apply_mul, decreaseExponent, hamount, magnitude, units_eq_significand,
    ← hpow, Nat.shiftLeft_eq, ← Nat.mul_assoc]
  push_cast
  rfl

end

/-! ## Sums and differences -/

section

variable {x y : Float}

/-- The sum of two finite numbers is the number nearest to the sum of their units. -/
theorem nearest_add (hx : x.isFinite = true) (hy : y.isFinite = true) :
    Nearest (x + y) (scaled x + scaled y) := by
  have hxlt := isFinite_iff.mp hx
  have hylt := isFinite_iff.mp hy
  show Nearest (.ofModel (Float.Model.pack
    (UnpackedFloat.add .binary64 x.toModel.unpack y.toModel.unpack))) _
  rcases Nat.eq_zero_or_pos (pattern x) with hxzero | hxpos
  · rw [unpack_of_zero hxzero, scaled_of_zero hxzero, Int.zero_add]
    rcases Nat.eq_zero_or_pos (pattern y) with hyzero | hypos
    · rw [unpack_of_zero hyzero, scaled_of_zero hyzero, UnpackedFloat.add]
      split <;> exact nearest_pack_zero _
    · obtain ⟨hm, hunpack⟩ := unpack_of_finite hypos hylt
      rw [hunpack, scaled_eq_apply]
      exact nearest_pack_finite (sign y) hylt hm
  · obtain ⟨hm, hunpack⟩ := unpack_of_finite hxpos hxlt
    rcases Nat.eq_zero_or_pos (pattern y) with hyzero | hypos
    · rw [hunpack, unpack_of_zero hyzero, scaled_of_zero hyzero, Int.add_zero, scaled_eq_apply]
      exact nearest_pack_finite (sign x) hxlt hm
    · obtain ⟨hm', hunpack'⟩ := unpack_of_finite hypos hylt
      rw [hunpack, hunpack', UnpackedFloat.add, min_exponent,
        scaled_eq_mul_pow (Nat.min_le_left _ (pattern y / binade - 1)),
        scaled_eq_mul_pow (Nat.min_le_right (pattern x / binade - 1) _), ← Int.add_mul]
      exact nearest_normalize _ _

/-- The difference of two finite numbers is the number nearest to the difference of their units. -/
theorem nearest_sub (hx : x.isFinite = true) (hy : y.isFinite = true) :
    Nearest (x - y) (scaled x - scaled y) := by
  have hxlt := isFinite_iff.mp hx
  have hylt := isFinite_iff.mp hy
  show Nearest (.ofModel (Float.Model.pack
    (UnpackedFloat.sub .binary64 x.toModel.unpack y.toModel.unpack))) _
  rcases Nat.eq_zero_or_pos (pattern x) with hxzero | hxpos
  · rw [unpack_of_zero hxzero, scaled_of_zero hxzero, Int.zero_sub]
    rcases Nat.eq_zero_or_pos (pattern y) with hyzero | hypos
    · rw [unpack_of_zero hyzero, scaled_of_zero hyzero, UnpackedFloat.sub]
      split <;> exact nearest_pack_zero _
    · obtain ⟨hm, hunpack⟩ := unpack_of_finite hypos hylt
      rw [hunpack, scaled_eq_apply, ← apply_neg]
      exact nearest_pack_finite (-sign y) hylt hm
  · obtain ⟨hm, hunpack⟩ := unpack_of_finite hxpos hxlt
    rcases Nat.eq_zero_or_pos (pattern y) with hyzero | hypos
    · rw [hunpack, unpack_of_zero hyzero, scaled_of_zero hyzero, Int.sub_zero, scaled_eq_apply]
      exact nearest_pack_finite (sign x) hxlt hm
    · obtain ⟨hm', hunpack'⟩ := unpack_of_finite hypos hylt
      rw [hunpack, hunpack', UnpackedFloat.sub, min_exponent,
        scaled_eq_mul_pow (Nat.min_le_left _ (pattern y / binade - 1)),
        scaled_eq_mul_pow (Nat.min_le_right (pattern x / binade - 1) _), ← Int.sub_mul]
      exact nearest_normalize _ _

end

end IncrementalGame.Binary64
