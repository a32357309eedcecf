import IncrementalGame.Proofs.Binary64.Whole

/-!
# Products of binary64 numbers

The product of two finite numbers has zeros behind the last unit as soon as it is a whole number of
units, as it is when one of the two is a whole number.  Then it is the number nearest to these units
(`nearest_mul`), which is to say that no other number is nearer (`Nearest.natAbs_sub_le`), and the
difference is at most one part in `2 ^ 53` (`Nearest.mul_natAbs_sub_le`).  And a product is finite
only if its factors are (`isFinite_of_mul`).
-/

namespace IncrementalGame.Binary64

open Float.Model Float.Model.UnpackedFloat

/-! ## No other number is nearer -/

/-- The digits kept, behind the places given up; there may have been a carry. -/
theorem units_mul_add {places r : Nat} (h : places ≠ 0 → binade ≤ r) (hle : r ≤ 2 * binade) :
    units (places * binade + r) = r * 2 ^ places := by
  have hb : 0 < binade := by decide
  rcases Nat.lt_or_ge r binade with hlow | hhigh
  · obtain rfl : places = 0 := by_contra fun hne => Nat.not_le.mpr hlow (h hne)
    rw [Nat.zero_mul, Nat.zero_add, units, if_pos hlow, Nat.pow_zero, Nat.mul_one]
  · -- one more place is given up with the carry
    obtain ⟨carry, rest, hrest, hsplit, hdigits⟩ : ∃ carry rest, rest < binade ∧
        places * binade + r = rest + (places + carry + 1) * binade ∧
        (binade + rest) * 2 ^ carry = r := by
      rcases Nat.lt_or_eq_of_le hle with hlt | rfl
      · refine ⟨0, r - binade, by omega, ?_, by rw [Nat.pow_zero]; omega⟩
        rw [Nat.add_zero, Nat.succ_mul]
        omega
      · refine ⟨1, 0, hb, ?_, by rw [Nat.pow_one, Nat.add_zero, Nat.mul_comm]⟩
        ring
    have hdiv : (rest + (places + carry + 1) * binade) / binade = places + carry + 1 := by
      rw [Nat.add_mul_div_right _ _ hb, Nat.div_eq_of_lt hrest, Nat.zero_add]
    have hmod : (rest + (places + carry + 1) * binade) % binade = rest := by
      rw [Nat.add_mul_mod_self_right, Nat.mod_eq_of_lt hrest]
    have hnot : ¬rest + (places + carry + 1) * binade < binade := by
      rw [Nat.succ_mul]
      omega
    rw [hsplit, units, if_neg hnot, hdiv, hmod, Nat.add_sub_cancel, Nat.shiftLeft_eq, ← hdigits,
      Nat.mul_assoc, ← Nat.pow_add, Nat.add_comm carry]

/-- What gives up fewer places lies below all that gives up more. -/
theorem units_lt_of_places {k places : Nat} (h : k / binade - 1 < places) :
    units k < binade * 2 ^ places := by
  have hpow : 2 ^ (k / binade - 1 + 1) ≤ 2 ^ places := Nat.pow_le_pow_right Nat.two_pos h
  rw [units_eq_significand]
  refine lt_of_lt_of_le (Nat.mul_lt_mul_of_pos_right (significand_lt k) (Nat.two_pow_pos _)) ?_
  rw [Nat.mul_comm 2, Nat.mul_assoc, ← Nat.pow_succ']
  exact Nat.mul_le_mul_left _ hpow

theorem units_rounded_eq {n : Nat} (h : rounded n < infinitePattern) :
    units (rounded n) = halfEven n (spare n) * 2 ^ spare n := by
  have hpattern : rounded n = spare n * binade + halfEven n (spare n) := by
    rw [rounded] at h ⊢
    omega
  rw [hpattern]
  exact units_mul_add le_halfEven_spare (halfEven_spare_le n)

/-- **No pattern is nearer** than the one that a number of units is rounded to. -/
theorem natAbs_units_rounded_sub_le {n : Nat} (h : rounded n < infinitePattern) (k : Nat) :
    ((units (rounded n) : Int) - n).natAbs ≤ ((units k : Int) - n).natAbs := by
  rw [units_rounded_eq h]
  rcases Nat.lt_or_ge (k / binade - 1) (spare n) with hlow | hhigh
  · -- what gives up fewer places lies below the binade of `n`
    have hbelow := units_lt_of_places hlow
    have hwithin := binade_mul_le (n := n) (by omega)
    have hnearest := natAbs_halfEven_sub_le n (spare n) binade
    omega
  · have hplaces : units k = significand k * 2 ^ (k / binade - 1 - spare n) * 2 ^ spare n := by
      rw [units_eq_significand, Nat.mul_assoc, ← Nat.pow_add, Nat.sub_add_cancel hhigh]
    rw [hplaces]
    exact natAbs_halfEven_sub_le n (spare n) _

/-- Rounding changes a number of units by at most one part in `2 ^ 53`. -/
theorem mul_natAbs_units_rounded_sub_le {n : Nat} (h : rounded n < infinitePattern) :
    2 * binade * ((units (rounded n) : Int) - n).natAbs ≤ n := by
  have hhalf := two_mul_natAbs_halfEven_sub_le n (spare n)
  rw [units_rounded_eq h]
  by_cases hspare : spare n = 0
  · have hexact : ((halfEven n (spare n) * 2 ^ spare n : Nat) - n : Int).natAbs = 0 := by
      rw [hspare] at hhalf ⊢
      omega
    rw [hexact, Nat.mul_zero]
    exact Nat.zero_le n
  · refine le_trans ?_ (binade_mul_le hspare)
    rw [Nat.mul_comm 2, Nat.mul_assoc]
    exact Nat.mul_le_mul_left _ hhalf

section

variable {x : Float} {n : Int}

/-- What is nearest to a number of units has its sign. -/
theorem Nearest.scaled_eq_units (h : Nearest x n) :
    scaled x = if n < 0 then -(units (rounded n.natAbs) : Int) else units (rounded n.natAbs) := by
  rcases lt_trichotomy n 0 with hneg | rfl | hpos
  · rw [scaled, h.negative hneg, if_pos rfl, if_pos hneg, magnitude, h.pattern_eq]
  · rw [scaled_of_zero (h.pattern_eq.trans rounded_zero)]
    rfl
  · rw [scaled, h.positive hpos, if_neg Bool.false_ne_true, if_neg (by omega), magnitude,
      h.pattern_eq]

theorem Nearest.rounded_lt (h : Nearest x n) (hx : x.isFinite = true) :
    rounded n.natAbs < infinitePattern := by
  rw [← h.pattern_eq]
  exact isFinite_iff.mp hx

/-- **No number is nearer** than the one that is nearest. -/
theorem Nearest.natAbs_sub_le (h : Nearest x n) (hx : x.isFinite = true) (y : Float) :
    (scaled x - n).natAbs ≤ (scaled y - n).natAbs := by
  have hnearest := natAbs_units_rounded_sub_le (h.rounded_lt hx) (pattern y)
  rw [h.scaled_eq_units, scaled, magnitude]
  split <;> split <;> omega

/-- What is nearest to a number of units differs from it by at most one part in `2 ^ 53`. -/
theorem Nearest.mul_natAbs_sub_le (h : Nearest x n) (hx : x.isFinite = true) :
    2 * binade * (scaled x - n).natAbs ≤ n.natAbs := by
  have hpart := mul_natAbs_units_rounded_sub_le (h.rounded_lt hx)
  have hsame : (scaled x - n).natAbs =
      ((units (rounded n.natAbs) : Int) - n.natAbs).natAbs := by
    rw [h.scaled_eq_units]
    split <;> omega
  rw [hsame]
  exact hpart

end

/-! ## Products -/

theorem apply_mul_apply (s t : Sign) (m n : Int) :
    s.apply m * t.apply n = (s * t).apply (m * n) := by
  cases s <;> cases t
  · exact Int.neg_mul_neg m n
  · exact Int.neg_mul m n
  · exact Int.mul_neg m n
  · rfl

/-- The sign of a whole number of ones is that of their number. -/
theorem sign_eq_of_apply_eq {s : Sign} {a : Nat} {n : Int} (h : s.apply (a : Int) = n * one) :
    (0 < n → s = .positive) ∧ (n < 0 → s = .negative) := by
  cases s with
  | positive =>
    refine ⟨fun _ => rfl, fun hneg => ?_⟩
    have hlt := Int.mul_neg_of_neg_of_pos hneg natCast_one_pos
    rw [← h, Sign.apply] at hlt
    omega
  | negative =>
    refine ⟨fun hpos => ?_, fun _ => rfl⟩
    have hlt := Int.mul_pos hpos natCast_one_pos
    rw [← h, Sign.apply] at hlt
    omega

/-- Only in the lowest binade there are fewer than 53 digits. -/
theorem binade_le_significand {k : Nat} (h : 0 < k / binade - 1) : binade ≤ significand k := by
  have hnot : ¬k < binade := fun hlt => by rw [Nat.div_eq_of_lt hlt] at h; omega
  rw [significand, if_neg hnot]
  omega

/-- The places before the last unit of a product are all given up: where there are any, one of the
factors has 53 digits. -/
theorem places_le_spare {j k n d : Nat} (hj : 0 < significand j) (hk : 0 < significand k)
    (hunits : significand j * significand k * 2 ^ (j / binade - 1 + (k / binade - 1)) = n * 2 ^ d) :
    j / binade - 1 + (k / binade - 1) ≤ d + spare n := by
  have hpos : 0 < significand j * significand k := Nat.mul_pos hj hk
  have hn : n ≠ 0 := by
    rintro rfl
    rw [Nat.zero_mul] at hunits
    exact (Nat.mul_pos hpos (Nat.two_pow_pos _)).ne' hunits
  have hlog : (significand j * significand k).log2 + (j / binade - 1 + (k / binade - 1)) =
      n.log2 + d := by rw [← log2_mul_pow hpos.ne', ← log2_mul_pow hn, hunits]
  rcases Nat.eq_zero_or_pos (j / binade - 1 + (k / binade - 1)) with hnone | hsome
  · omega
  · have hdigits : binade ≤ significand j * significand k := by
      rcases Nat.eq_zero_or_pos (j / binade - 1) with hzero | hplaces
      · exact le_trans (binade_le_significand (by omega)) (Nat.le_mul_of_pos_left _ hj)
      · exact le_trans (binade_le_significand hplaces) (Nat.le_mul_of_pos_right _ hk)
    have hlow := (Nat.le_log2 hpos.ne').mpr (show 2 ^ 52 ≤ _ from hdigits)
    rw [spare]
    omega

/-- **The product of two finite numbers is the number nearest to it**, if it is a whole number of
units. -/
theorem nearest_mul {x y : Float} (hx : x.isFinite = true) (hy : y.isFinite = true) {n : Int}
    (hn : scaled x * scaled y = n * one) : Nearest (x * y) n := by
  have hxlt := isFinite_iff.mp hx
  have hylt := isFinite_iff.mp hy
  have hzero : scaled x = 0 ∨ scaled y = 0 → n = 0 := by
    intro h
    rw [Int.mul_eq_zero.mpr h] at hn
    exact (Int.mul_eq_zero.mp hn.symm).resolve_right natCast_one_pos.ne'
  show Nearest (.ofModel (Float.Model.pack
    (UnpackedFloat.mul .binary64 x.toModel.unpack y.toModel.unpack))) _
  rcases Nat.eq_zero_or_pos (pattern x) with hxzero | hxpos
  · rw [hzero (.inl (scaled_of_zero hxzero)), unpack_of_zero hxzero]
    rcases Nat.eq_zero_or_pos (pattern y) with hyzero | hypos
    · rw [unpack_of_zero hyzero]
      exact nearest_pack_zero _
    · obtain ⟨hm, hunpack⟩ := unpack_of_finite hypos hylt
      rw [hunpack]
      exact nearest_pack_zero _
  · obtain ⟨hm, hunpack⟩ := unpack_of_finite hxpos hxlt
    rcases Nat.eq_zero_or_pos (pattern y) with hyzero | hypos
    · rw [hzero (.inr (scaled_of_zero hyzero)), hunpack, unpack_of_zero hyzero]
      exact nearest_pack_zero _
    · obtain ⟨hm', hunpack'⟩ := unpack_of_finite hypos hylt
      obtain ⟨d, hd, hone⟩ := exists_one_eq_pow
      rw [scaled_eq_apply, scaled_eq_apply, apply_mul_apply, ← Int.natCast_mul] at hn
      obtain ⟨hpositive, hnegative⟩ := sign_eq_of_apply_eq hn
      have hunits : significand (pattern x) * significand (pattern y) *
          2 ^ (pattern x / binade - 1 + (pattern y / binade - 1)) = n.natAbs * 2 ^ d := by
        have hnatAbs := congrArg Int.natAbs hn
        rw [natAbs_apply, Int.natAbs_mul, Int.natAbs_natCast, magnitude, magnitude,
          units_eq_significand, units_eq_significand] at hnatAbs
        rw [← hone, ← hnatAbs, Nat.pow_add]
        ring
      have hexponent : ((pattern x / binade - 1 : Nat) : Int) - 1074 +
          (((pattern y / binade - 1 : Nat) : Int) - 1074) =
          ((pattern x / binade - 1 + (pattern y / binade - 1) : Nat) : Int) - d - 1074 := by omega
      refine nearest_of_pack (sign x * sign y) ?_ hpositive hnegative
      rw [hunpack, hunpack', UnpackedFloat.mul, hexponent]
      exact toNat_pack_roundWithAccuracy _ (Nat.mul_pos hm hm') hunits
        (places_le_spare hm hm' hunits)

/-! ## Finite products -/

/-- What is not finite has no finite multiple. -/
theorem isFinite_of_mul {x y : Float} (h : (x * y).isFinite = true) : x.isFinite = true := by
  have hproduct : (Float.ofModel (Float.Model.pack
    (UnpackedFloat.mul .binary64 x.toModel.unpack y.toModel.unpack))).isFinite = true := h
  have hnan : (Float.ofModel (Float.Model.pack .notANumber)).isFinite = false := by decide
  have hinfinity : ∀ s, (Float.ofModel (Float.Model.pack (.infinity s))).isFinite = false := by
    intro s
    cases s <;> decide
  have hofNan : ∀ u, UnpackedFloat.mul .binary64 .notANumber u = .notANumber := by
    intro u
    cases u <;> rfl
  have hofInfinity : ∀ s u, UnpackedFloat.mul .binary64 (.infinity s) u = .notANumber ∨
      ∃ t, UnpackedFloat.mul .binary64 (.infinity s) u = .infinity t := by
    intro s u
    cases u with
    | notANumber | zero => exact .inl rfl
    | infinity | finite => exact .inr ⟨_, rfl⟩
  by_contra hx
  rcases Nat.lt_or_eq_of_le (Nat.not_lt.mp (mt isFinite_iff.mpr hx)) with hgt | heq
  · rw [unpack_of_nan hgt, hofNan, hnan] at hproduct
    exact absurd hproduct (by decide)
  · rw [unpack_of_infinite heq.symm] at hproduct
    rcases hofInfinity (sign x) y.toModel.unpack with hmul | ⟨t, hmul⟩
    · rw [hmul, hnan] at hproduct
      exact absurd hproduct (by decide)
    · rw [hmul, hinfinity] at hproduct
      exact absurd hproduct (by decide)

end IncrementalGame.Binary64
