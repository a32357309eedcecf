import IncrementalGame.Proofs.Binary64.Midpoint
import IncrementalGame.Proofs.Binary64.Sum

/-!
# The order of binary64 numbers

Finite numbers are compared by their exponents first and by their significands then, which is how
their patterns are ordered, and so are their units: comparing two finite numbers is comparing
whole numbers (`compare_unpack`, `lt_iff_scaled`).
-/

namespace IncrementalGame.Binary64

open Float.Model Float.Model.UnpackedFloat

/-- Patterns are ordered by exponents and then by significands. -/
theorem lex_of_lt {j k : Nat} (h : j < k) :
    j / binade - 1 < k / binade - 1 ∨
      j / binade - 1 = k / binade - 1 ∧ significand j < significand k := by
  have hj := Nat.div_add_mod j binade
  have hk := Nat.div_add_mod k binade
  have hjmod : j % binade < binade := Nat.mod_lt _ (by decide)
  have hkmod : k % binade < binade := Nat.mod_lt _ (by decide)
  rw [significand, significand]
  rw [binade] at *
  split <;> split <;> omega

theorem compare_pattern (j k : Nat) :
    (compare ((j / binade - 1 : Nat) - 1074 : Int) ((k / binade - 1 : Nat) - 1074)).then
      (compare (significand j) (significand k)) = compare j k := by
  rcases lt_trichotomy j k with h | rfl | h
  · rw [compare_lt_iff_lt.mpr h]
    rcases lex_of_lt h with he | ⟨he, hm⟩
    · rw [compare_lt_iff_lt.mpr (by omega)]
      rfl
    · rw [he, compare_eq_iff_eq.mpr rfl, compare_lt_iff_lt.mpr hm]
      rfl
  · simp
  · rw [compare_gt_iff_gt.mpr h]
    rcases lex_of_lt h with he | ⟨he, hm⟩
    · rw [compare_gt_iff_gt.mpr (by omega)]
      rfl
    · rw [he, compare_eq_iff_eq.mpr rfl, compare_gt_iff_gt.mpr hm]
      rfl

theorem compare_units (j k : Nat) : compare (units j : Int) (units k) = compare j k := by
  rcases lt_trichotomy j k with h | rfl | h
  · rw [compare_lt_iff_lt.mpr h, compare_lt_iff_lt]
    exact_mod_cast units_strictMono h
  · simp
  · rw [compare_gt_iff_gt.mpr h, compare_gt_iff_gt]
    exact_mod_cast units_strictMono h

theorem compare_neg_units (j k : Nat) :
    compare (-(units j : Int)) (-(units k : Int)) = (compare j k).swap := by
  rw [← compare_units, Int.compare_swap]
  rcases lt_trichotomy (units j : Int) (units k) with h | h | h
  · rw [compare_gt_iff_gt.mpr h, compare_gt_iff_gt]
    omega
  · simp [h]
  · rw [compare_lt_iff_lt.mpr h, compare_lt_iff_lt]
    omega

section

variable {x y : Float}

/-- **Comparing two finite numbers is comparing their units.** -/
theorem compare_unpack (hx : x.isFinite = true) (hy : y.isFinite = true) :
    x.toModel.unpack.compare y.toModel.unpack = some (compare (scaled x) (scaled y)) := by
  have hxlt := isFinite_iff.mp hx
  have hylt := isFinite_iff.mp hy
  rcases Nat.eq_zero_or_pos (pattern x) with hxzero | hxpos
  · rw [unpack_of_zero hxzero, scaled_of_zero hxzero]
    rcases Nat.eq_zero_or_pos (pattern y) with hyzero | hypos
    · rw [unpack_of_zero hyzero, scaled_of_zero hyzero]
      rfl
    · obtain ⟨hm, hunpack⟩ := unpack_of_finite hypos hylt
      have hpos := units_pos hypos
      rw [hunpack, scaled_eq_apply, magnitude]
      cases sign y with
      | positive => rw [compare_lt_iff_lt.mpr (by rw [Sign.apply]; omega)]; rfl
      | negative => rw [compare_gt_iff_gt.mpr (by rw [Sign.apply]; omega)]; rfl
  · obtain ⟨hm, hunpack⟩ := unpack_of_finite hxpos hxlt
    have hpos := units_pos hxpos
    rcases Nat.eq_zero_or_pos (pattern y) with hyzero | hypos
    · rw [hunpack, unpack_of_zero hyzero, scaled_of_zero hyzero, scaled_eq_apply, magnitude]
      cases sign x with
      | positive => rw [compare_gt_iff_gt.mpr (by rw [Sign.apply]; omega)]; rfl
      | negative => rw [compare_lt_iff_lt.mpr (by rw [Sign.apply]; omega)]; rfl
    · obtain ⟨hm', hunpack'⟩ := unpack_of_finite hypos hylt
      have hpos' := units_pos hypos
      rw [hunpack, hunpack', scaled_eq_apply, scaled_eq_apply, magnitude, magnitude]
      cases sign x with
      | positive =>
        cases sign y with
        | positive =>
          rw [Sign.apply, Sign.apply, compare_units, ← compare_pattern]
          rfl
        | negative =>
          rw [compare_gt_iff_gt.mpr (by rw [Sign.apply, Sign.apply]; omega)]
          rfl
      | negative =>
        cases sign y with
        | positive =>
          rw [compare_lt_iff_lt.mpr (by rw [Sign.apply, Sign.apply]; omega)]
          rfl
        | negative =>
          rw [Sign.apply, Sign.apply, compare_neg_units, ← compare_pattern]
          rfl

theorem lt_iff_scaled (hx : x.isFinite = true) (hy : y.isFinite = true) :
    x < y ↔ scaled x < scaled y := by
  show decide (x.toModel < y.toModel) = true ↔ _
  rw [decide_eq_true_iff]
  show (x.toModel.unpack.compare y.toModel.unpack == some .lt) = true ↔ _
  rw [beq_iff_eq, compare_unpack hx hy, Option.some_inj, compare_lt_iff_lt]

end

end IncrementalGame.Binary64
