import Mathlib
import IncrementalGame.Binary64.Basic

/-!
# What a pattern says of its number

The operations of arithmetic are defined on numbers taken apart into a sign, a significand and an
exponent.  This file takes a number apart along its pattern, and reads the classes of numbers off
the pattern alone.

* `unpack_of_finite`, `unpack_of_zero`, `unpack_of_infinite`, `unpack_of_nan` --- the number of a
  pattern taken apart; the significand and the exponent of a finite one multiply to its `units`
  (`units_eq_significand`).
* `isFinite_iff`, `isInf_iff`, `isNaN_iff` --- the classes as intervals of patterns.
* `eq_of_pattern`, `eq_of_isNaN` --- a number is its sign and its pattern, and only one value is no
  number.
-/

namespace IncrementalGame.Binary64

open Float.Model Float.Model.UnpackedFloat

/-- Numbers with the same bits are the same. -/
theorem ext_toBits {x y : Float} (h : x.toBits = y.toBits) : x = y := by
  obtain ⟨⟨a, ha⟩⟩ := x
  obtain ⟨⟨b, hb⟩⟩ := y
  have h' : a = b := h
  subst h'
  rfl

variable (x : Float)

theorem pattern_lt : pattern x < signBit := Nat.mod_lt _ (by decide)

/-- The sign as the unpacked form has it. -/
def sign : Sign := if isNegative x then .negative else .positive

/-- The digits of the magnitude of a pattern, the leading one included. -/
def significand (k : Nat) : Nat := if k < binade then k else binade + k % binade

theorem units_eq_significand (k : Nat) : units k = significand k * 2 ^ (k / binade - 1) := by
  by_cases h : k < binade
  · have h0 : k / binade - 1 = 0 := by rw [binade] at h ⊢; omega
    rw [units, if_pos h, significand, if_pos h, h0, Nat.pow_zero, Nat.mul_one]
  · rw [units, if_neg h, significand, if_neg h, Nat.shiftLeft_eq]

/-- A significand has at most 53 digits. -/
theorem significand_lt (k : Nat) : significand k < 2 * binade := by
  have hmod : k % binade < binade := Nat.mod_lt _ (by decide)
  rw [significand]
  split <;> omega

/-- The exponent field. -/
theorem toNat_unpackExponent :
    (@unpackExponent .binary64 x.toBits.toBitVec).toNat = pattern x / binade := by
  have := x.toBits.toNat_lt
  simp only [unpackExponent, BitVec.toNat_cast, BitVec.extractLsb_toNat, UInt64.toNat_toBitVec,
    Nat.shiftRight_eq_div_pow, pattern, signBit, binade]
  omega

/-- The fraction field. -/
theorem toNat_unpackMantissa :
    (@unpackMantissa .binary64 x.toBits.toBitVec).toNat = pattern x % binade := by
  have := x.toBits.toNat_lt
  simp only [unpackMantissa, BitVec.toNat_cast, BitVec.extractLsb_toNat, UInt64.toNat_toBitVec,
    Nat.shiftRight_eq_div_pow, pattern, signBit, binade]
  omega

/-- The sign field. -/
theorem ofBitVec_unpackSign :
    Sign.ofBitVec (@unpackSign .binary64 x.toBits.toBitVec) = sign x := by
  have hx := x.toBits.toNat_lt
  have h : (@unpackSign .binary64 x.toBits.toBitVec).toNat =
      x.toBits.toNat / 2 ^ 63 := by
    simp only [unpackSign, BitVec.toNat_cast, BitVec.extractLsb_toNat, UInt64.toNat_toBitVec,
      Nat.shiftRight_eq_div_pow]
    omega
  have hzero : @unpackSign .binary64 x.toBits.toBitVec = 0#1 ↔
      ¬signBit ≤ x.toBits.toNat := by
    rw [← BitVec.toNat_inj, h, signBit]
    simp only [BitVec.toNat_ofNat]
    omega
  by_cases hs : signBit ≤ x.toBits.toNat
  · rw [Sign.ofBitVec, if_neg (mt hzero.mp (not_not.mpr hs)), sign, isNegative,
      if_pos (decide_eq_true hs)]
  · rw [Sign.ofBitVec, if_pos (hzero.mpr hs), sign, isNegative, if_neg (by simpa using hs)]

theorem unpackExponent_eq_ones_iff :
    @unpackExponent .binary64 x.toBits.toBitVec = -1#_ ↔ infinitePattern ≤ pattern x := by
  have h := pattern_lt x
  have ones : (-1#(Format.binary64.exponentBits)).toNat = 2047 := by decide
  rw [← BitVec.toNat_inj, toNat_unpackExponent, ones, binade, infinitePattern]
  rw [signBit] at h
  omega

theorem unpackExponent_eq_zero_iff :
    @unpackExponent .binary64 x.toBits.toBitVec = 0#_ ↔ pattern x < binade := by
  have zero : (0#(Format.binary64.exponentBits)).toNat = 0 := by decide
  rw [← BitVec.toNat_inj, toNat_unpackExponent, zero, binade]
  omega

theorem unpackMantissa_eq_zero_iff :
    @unpackMantissa .binary64 x.toBits.toBitVec = 0#_ ↔ pattern x % binade = 0 := by
  rw [← BitVec.toNat_inj, toNat_unpackMantissa]
  rfl

variable {x}

theorem unpack_of_infinite (h : pattern x = infinitePattern) :
    x.toModel.unpack = .infinity (sign x) := by
  have he := (unpackExponent_eq_ones_iff x).mpr h.ge
  have hm := (unpackMantissa_eq_zero_iff x).mpr (by rw [h]; rfl)
  show UnpackedFloat.unpack .binary64 x.toBits.toBitVec = _
  rw [UnpackedFloat.unpack, if_pos he, if_pos hm, ofBitVec_unpackSign]

theorem unpack_of_nan (h : infinitePattern < pattern x) : x.toModel.unpack = .notANumber := by
  have hlt := pattern_lt x
  have he := (unpackExponent_eq_ones_iff x).mpr h.le
  have hm : pattern x % binade ≠ 0 := by
    rw [infinitePattern] at h
    rw [signBit] at hlt
    rw [binade]
    omega
  show UnpackedFloat.unpack .binary64 x.toBits.toBitVec = _
  rw [UnpackedFloat.unpack, if_pos he, if_neg (mt (unpackMantissa_eq_zero_iff x).mp hm)]

theorem unpack_of_zero (h : pattern x = 0) : x.toModel.unpack = .zero (sign x) := by
  have he := mt (unpackExponent_eq_ones_iff x).mp (by rw [h]; decide)
  have hz := (unpackExponent_eq_zero_iff x).mpr (by rw [h]; decide)
  have hm := (unpackMantissa_eq_zero_iff x).mpr (by rw [h]; rfl)
  show UnpackedFloat.unpack .binary64 x.toBits.toBitVec = _
  rw [UnpackedFloat.unpack, if_neg he, if_pos hz, dif_pos hm, ofBitVec_unpackSign]

theorem unpack_of_finite (hpos : 0 < pattern x) (h : pattern x < infinitePattern) :
    ∃ hm, x.toModel.unpack = .finite (sign x) (significand (pattern x))
      ((pattern x / binade - 1 : Nat) - 1074) hm := by
  have he := mt (unpackExponent_eq_ones_iff x).mp (by omega)
  by_cases hz : pattern x < binade
  · have hz' := (unpackExponent_eq_zero_iff x).mpr hz
    have hm := mt (unpackMantissa_eq_zero_iff x).mp (by rw [Nat.mod_eq_of_lt hz]; omega)
    refine ⟨by rw [significand, if_pos hz]; exact hpos, ?_⟩
    show UnpackedFloat.unpack .binary64 x.toBits.toBitVec = _
    rw [UnpackedFloat.unpack, if_neg he, if_pos hz', dif_neg hm, ofBitVec_unpackSign]
    have h0 : pattern x / binade = 0 := Nat.div_eq_of_lt hz
    simp only [toNat_unpackMantissa, toNat_unpackExponent, h0, significand, if_pos hz,
      Nat.mod_eq_of_lt hz]
    rfl
  · have hz' := mt (unpackExponent_eq_zero_iff x).mp hz
    refine ⟨by rw [significand, if_neg hz, binade]; omega, ?_⟩
    show UnpackedFloat.unpack .binary64 x.toBits.toBitVec = _
    rw [UnpackedFloat.unpack, if_neg he, if_neg hz', ofBitVec_unpackSign]
    have hs : (1#1 ++ @unpackMantissa .binary64 x.toBits.toBitVec).toNat =
        significand (pattern x) := by
      have hlt : pattern x % binade < 2 ^ 52 := Nat.mod_lt _ (by decide)
      have hor := Nat.shiftLeft_add_eq_or_of_lt hlt 1
      rw [BitVec.toNat_append, toNat_unpackMantissa, significand, if_neg hz]
      exact hor.symm
    have hexp : ((pattern x / binade : Nat) : Int) - (Format.binary64.exponentBias +
        Format.binary64.mantissaBitsWithoutImplicit : Nat) =
        (pattern x / binade - 1 : Nat) - 1074 := by
      have : (Format.binary64.exponentBias + Format.binary64.mantissaBitsWithoutImplicit) = 1075 := by
        decide
      rw [this, binade]
      rw [binade] at hz
      omega
    simp only [hs, toNat_unpackExponent]
    congr 1

theorem isNaN_iff : x.isNaN = true ↔ infinitePattern < pattern x := by
  show x.toModel.unpack.isNaN = true ↔ _
  rcases lt_trichotomy (pattern x) infinitePattern with h | h | h
  · rcases Nat.eq_zero_or_pos (pattern x) with h0 | hpos
    · simp [unpack_of_zero h0, UnpackedFloat.isNaN, h.le]
    · obtain ⟨hm, hu⟩ := unpack_of_finite hpos h
      simp [hu, UnpackedFloat.isNaN, h.le]
  · simp [unpack_of_infinite h, UnpackedFloat.isNaN, h]
  · simp [unpack_of_nan h, UnpackedFloat.isNaN, h]

theorem isInf_iff : x.isInf = true ↔ pattern x = infinitePattern := by
  show x.toModel.unpack.isInf = true ↔ _
  rcases lt_trichotomy (pattern x) infinitePattern with h | h | h
  · rcases Nat.eq_zero_or_pos (pattern x) with h0 | hpos
    · simp [unpack_of_zero h0, UnpackedFloat.isInf, h.ne]
    · obtain ⟨hm, hu⟩ := unpack_of_finite hpos h
      simp [hu, UnpackedFloat.isInf, h.ne]
  · simp [unpack_of_infinite h, UnpackedFloat.isInf, h]
  · simp [unpack_of_nan h, UnpackedFloat.isInf, h.ne']

theorem isFinite_iff : x.isFinite = true ↔ pattern x < infinitePattern := by
  show x.toModel.unpack.isFinite = true ↔ _
  rcases lt_trichotomy (pattern x) infinitePattern with h | h | h
  · rcases Nat.eq_zero_or_pos (pattern x) with h0 | hpos
    · simp [unpack_of_zero h0, UnpackedFloat.isFinite, h]
    · obtain ⟨hm, hu⟩ := unpack_of_finite hpos h
      simp [hu, UnpackedFloat.isFinite, h]
  · simp [unpack_of_infinite h, UnpackedFloat.isFinite, h]
  · simp [unpack_of_nan h, UnpackedFloat.isFinite, h.le]

/-- There is one value that is no number. -/
theorem eq_of_isNaN {y : Float} (hx : x.isNaN = true) (hy : y.isNaN = true) : x = y := by
  have canonical : ∀ {z : Float}, z.isNaN = true →
      z.toBits.toBitVec = packedNaN .binary64 := fun {z} hz => by
    have h := isNaN_iff.mp hz
    have hlt := pattern_lt z
    refine z.toModel.valid.eq_packedNaN ((unpackExponent_eq_ones_iff z).mpr h.le)
      (mt (unpackMantissa_eq_zero_iff z).mp ?_)
    rw [infinitePattern] at h
    rw [signBit] at hlt
    rw [binade]
    omega
  exact ext_toBits (UInt64.toBitVec_inj.mp ((canonical hx).trans (canonical hy).symm))

/-- A number is its sign and its pattern. -/
theorem eq_of_pattern {y : Float} (hs : isNegative x = isNegative y)
    (hp : pattern x = pattern y) : x = y := by
  have hx := x.toBits.toNat_lt
  have hy := y.toBits.toNat_lt
  refine ext_toBits (UInt64.toNat_inj.mp ?_)
  rw [isNegative, isNegative, decide_eq_decide, signBit] at hs
  rw [pattern, pattern, signBit] at hp
  omega

end IncrementalGame.Binary64
