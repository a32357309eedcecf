import IncrementalGame.Proofs.Binary64.Whole

/-!
# Comparisons, infinity and what is no number

Of two numbers one is less than the other or not; the comparison fails, in either direction, only
where one of them is no number (`le_eq_not_lt`).  Numbers, infinite ones included, are compared as
their units are (`lt_iff_isNaN_and_scaled`).  The difference of two numbers is a number unless they
are the same infinity (`isNaN_sub`).  The absolute value and the negative of a number have its
pattern (`abs_spec`, `neg_spec`).
-/

namespace IncrementalGame.Binary64

open Float.Model Float.Model.UnpackedFloat

/-! ## Numbers taken apart -/

theorem compare_swap (u v : UnpackedFloat) : v.compare u = (u.compare v).map Ordering.swap := by
  have turn (e e' : Int) (m m' : Nat) : (compare e' e).then (compare m' m) =
      ((compare e e').then (compare m m')).swap := by
    rw [Ordering.swap_then, Int.compare_swap, Nat.compare_swap]
  cases u with
  | notANumber => cases v <;> rfl
  | infinity s =>
    cases v with
    | notANumber => cases s <;> rfl
    | infinity s' | zero s' | finite s' => cases s <;> cases s' <;> rfl
  | zero s =>
    cases v with
    | notANumber => rfl
    | infinity s' | zero s' | finite s' => cases s <;> cases s' <;> rfl
  | finite s m e =>
    cases v with
    | notANumber => cases s <;> rfl
    | infinity s' | zero s' => cases s <;> cases s' <;> rfl
    | finite s' m' e' =>
      cases s with
      | positive =>
        cases s' with
        | positive => exact congrArg some (turn e e' m m')
        | negative => rfl
      | negative =>
        cases s' with
        | positive => rfl
        | negative => exact congrArg some (congrArg Ordering.swap (turn e e' m m'))

theorem compare_eq_none_iff (u v : UnpackedFloat) :
    u.compare v = none ↔ u.isNaN = true ∨ v.isNaN = true := by
  cases u with
  | notANumber => simp [UnpackedFloat.compare, UnpackedFloat.isNaN]
  | infinity s =>
    cases v with
    | notANumber => cases s <;> simp [UnpackedFloat.compare, UnpackedFloat.isNaN]
    | infinity s' | zero s' | finite s' =>
      cases s <;> cases s' <;> simp [UnpackedFloat.compare, UnpackedFloat.isNaN]
  | zero s | finite s =>
    cases v with
    | notANumber => cases s <;> simp [UnpackedFloat.compare, UnpackedFloat.isNaN]
    | infinity s' | zero s' | finite s' =>
      cases s <;> cases s' <;> simp [UnpackedFloat.compare, UnpackedFloat.isNaN]

variable {x y : Float}

/-! ## Classes -/

theorem unpack_of_isNaN (h : x.isNaN = true) : x.toModel.unpack = .notANumber :=
  unpack_of_nan (isNaN_iff.mp h)

theorem unpack_of_isInf (h : x.isInf = true) : x.toModel.unpack = .infinity (sign x) :=
  unpack_of_infinite (isInf_iff.mp h)

theorem isNaN_of_isFinite (h : x.isFinite = true) : x.isNaN = false := by
  rw [Bool.eq_false_iff, ne_eq, isNaN_iff]
  exact Nat.not_lt.mpr (isFinite_iff.mp h).le

theorem isInf_of_isFinite (h : x.isFinite = true) : x.isInf = false := by
  rw [Bool.eq_false_iff, ne_eq, isInf_iff]
  exact (isFinite_iff.mp h).ne

/-- A value is finite, infinite or no number. -/
theorem isFinite_or (x : Float) : x.isFinite = true ∨ x.isInf = true ∨ x.isNaN = true := by
  rw [isFinite_iff, isInf_iff, isNaN_iff]
  exact lt_trichotomy _ _

theorem isNaN_of_isInf (h : x.isInf = true) : x.isNaN = false := by
  rw [Bool.eq_false_iff, ne_eq, isNaN_iff]
  exact Nat.not_lt.mpr (isInf_iff.mp h).le

/-! ## Units -/

/-- An infinite number is compared with a finite one by its sign. -/
theorem compare_infinity (s : Sign) {u : UnpackedFloat} (number : u.isNaN = false)
    (bounded : u.isInf = false) :
    (UnpackedFloat.infinity s).compare u = some (match s with
      | .positive => .gt
      | .negative => .lt) := by
  cases u with
  | notANumber => cases number
  | infinity => cases bounded
  | zero | finite => cases s <;> rfl

theorem scaled_of_isInf (h : x.isInf = true) :
    scaled x = (sign x).apply (units infinitePattern) := by
  rw [scaled_eq_apply, magnitude, isInf_iff.mp h]

theorem compare_unpack_of_isInf (hx : x.isInf = true) (hy : y.isFinite = true) :
    x.toModel.unpack.compare y.toModel.unpack = some (compare (scaled x) (scaled y)) := by
  have hlt := magnitude_lt hy
  have habs := scaled_natAbs y
  rw [unpack_of_isInf hx, compare_infinity _ (isNaN_of_isFinite hy) (isInf_of_isFinite hy),
    scaled_of_isInf hx]
  cases sign x with
  | positive => rw [compare_gt_iff_gt.mpr (by rw [Sign.apply]; omega)]
  | negative => rw [compare_lt_iff_lt.mpr (by rw [Sign.apply]; omega)]

/-- **Comparing two numbers is comparing their units**, infinite ones included. -/
theorem compare_unpack_number (hx : x.isNaN = false) (hy : y.isNaN = false) :
    x.toModel.unpack.compare y.toModel.unpack = some (compare (scaled x) (scaled y)) := by
  rw [Bool.eq_false_iff] at hx hy
  have finite_or_infinite : ∀ z : Float, z.isNaN ≠ true → z.isFinite = true ∨ z.isInf = true :=
    fun z hz => (isFinite_or z).imp_right fun h => h.resolve_right hz
  rcases finite_or_infinite x hx with hx | hx
  · rcases finite_or_infinite y hy with hy | hy
    · exact compare_unpack hx hy
    · rw [compare_swap, compare_unpack_of_isInf hy hx, Option.map_some, Int.compare_swap]
  · rcases finite_or_infinite y hy with hy | hy
    · exact compare_unpack_of_isInf hx hy
    · have hpos : 0 < units infinitePattern := units_pos (by decide)
      rw [unpack_of_isInf hx, unpack_of_isInf hy, scaled_of_isInf hx, scaled_of_isInf hy]
      cases sign x with
      | positive =>
        cases sign y with
        | positive => rw [compare_eq_iff_eq.mpr rfl]; rfl
        | negative => rw [compare_gt_iff_gt.mpr (by rw [Sign.apply, Sign.apply]; omega)]; rfl
      | negative =>
        cases sign y with
        | positive => rw [compare_lt_iff_lt.mpr (by rw [Sign.apply, Sign.apply]; omega)]; rfl
        | negative => rw [compare_eq_iff_eq.mpr rfl]; rfl

/-! ## Comparing -/

theorem decide_lt_eq (x y : Float) :
    decide (x < y) = (x.toModel.unpack.compare y.toModel.unpack == some .lt) := by
  show decide (decide (x.toModel < y.toModel) = true) = _
  rw [Bool.decide_eq_true]
  exact Bool.decide_eq_true

theorem decide_le_eq (x y : Float) :
    decide (x ≤ y) = (x.toModel.unpack.compare y.toModel.unpack).any (·.isLE) := by
  show decide (decide (x.toModel ≤ y.toModel) = true) = _
  rw [Bool.decide_eq_true]
  exact Bool.decide_eq_true

/-- What is no number is compared with nothing. -/
theorem not_lt_of_isNaN (h : x.isNaN = true ∨ y.isNaN = true) : decide (x < y) = false := by
  rw [decide_lt_eq, (compare_eq_none_iff _ _).mpr h]
  rfl

theorem not_le_of_isNaN (h : x.isNaN = true ∨ y.isNaN = true) : decide (x ≤ y) = false := by
  rw [decide_le_eq, (compare_eq_none_iff _ _).mpr h]
  rfl

/-- Of two numbers, one is at most the other just if the other is not less than it. -/
theorem le_eq_not_lt (hx : x.isNaN = false) (hy : y.isNaN = false) :
    decide (x ≤ y) = !decide (y < x) := by
  rw [decide_le_eq, decide_lt_eq, compare_unpack_number hx hy, compare_unpack_number hy hx,
    ← Int.compare_swap]
  cases compare (scaled y) (scaled x) <;> rfl

theorem le_iff_scaled (hx : x.isFinite = true) (hy : y.isFinite = true) :
    x ≤ y ↔ scaled x ≤ scaled y := by
  rw [← decide_eq_true_iff (p := x ≤ y), decide_le_eq, compare_unpack hx hy, Option.any_some,
    Ordering.isLE_iff_ne_gt, compare_gt_iff_gt, not_lt]

theorem beq_iff_scaled (hx : x.isFinite = true) (hy : y.isFinite = true) :
    (x == y) = true ↔ scaled x = scaled y := by
  show (x.toModel.unpack.compare y.toModel.unpack == some .eq) = true ↔ _
  rw [beq_iff_eq, compare_unpack hx hy, Option.some_inj, compare_eq_iff_eq]

/-- What is less than something else is a number below a number. -/
theorem lt_iff_isNaN_and_scaled :
    x < y ↔ x.isNaN = false ∧ y.isNaN = false ∧ scaled x < scaled y := by
  by_cases number : x.isNaN = false ∧ y.isNaN = false
  · rw [← decide_eq_true_iff (p := x < y), decide_lt_eq, compare_unpack_number number.1 number.2,
      beq_iff_eq, Option.some_inj, compare_lt_iff_lt]
    exact ⟨fun h => ⟨number.1, number.2, h⟩, fun h => h.2.2⟩
  · refine ⟨fun h => ?_, fun h => absurd ⟨h.1, h.2.1⟩ number⟩
    rw [not_and_or, Bool.not_eq_false, Bool.not_eq_false] at number
    rw [← decide_eq_true_iff (p := x < y), not_lt_of_isNaN number] at h
    cases h

theorem pos_iff : 0.0 < x ↔ x.isNaN = false ∧ 0 < scaled x := by
  have zero : (0.0 : Float).isNaN = false ∧ scaled 0.0 = 0 := by decide +kernel
  rw [lt_iff_isNaN_and_scaled, zero.2]
  exact ⟨fun h => h.2, fun h => ⟨zero.1, h⟩⟩

/-- The greater of two values is positive just if one of them is. -/
theorem pos_greater_iff : 0.0 < greater x y ↔ 0.0 < x ∨ 0.0 < y := by
  rw [pos_iff, pos_iff, pos_iff, greater]
  split
  next nan => simp only [nan, Bool.true_eq_false, false_and, false_or]
  next number =>
    split
    next nan => simp only [nan, Bool.true_eq_false, false_and, or_false]
    next number' =>
      rw [Bool.not_eq_true] at number number'
      split
      next less =>
        have less := (lt_iff_isNaN_and_scaled.mp less).2.2
        simp only [number, number', true_and]
        omega
      next not_less =>
        have ge : ¬scaled x < scaled y := fun less =>
          not_less (lt_iff_isNaN_and_scaled.mpr ⟨number, number', less⟩)
        simp only [number, number', true_and]
        omega

/-! ## Signs -/

/-- A number taken apart, with another sign. -/
def withSign (s : Sign) : UnpackedFloat → UnpackedFloat
  | .notANumber => .notANumber
  | .infinity _ => .infinity s
  | .zero _ => .zero s
  | .finite _ m e hm => .finite s m e hm

theorem abs_eq_withSign (u : UnpackedFloat) : u.abs = withSign .positive u := by
  cases u <;> rfl

theorem neg_unpack (x : Float) : x.toModel.unpack.neg = withSign (-sign x) x.toModel.unpack := by
  rcases lt_trichotomy (pattern x) infinitePattern with h | h | h
  · rcases Nat.eq_zero_or_pos (pattern x) with hzero | hpos
    · rw [unpack_of_zero hzero]
      rfl
    · obtain ⟨hm, hunpack⟩ := unpack_of_finite hpos h
      rw [hunpack]
      rfl
  · rw [unpack_of_infinite h]
    rfl
  · rw [unpack_of_nan h]
    rfl

/-- A number with another sign has the same pattern. -/
theorem toNat_pack_withSign (h : x.isNaN = false) (s : Sign) :
    (UnpackedFloat.pack .binary64 (withSign s x.toModel.unpack)).toNat = signOf s + pattern x := by
  rcases isFinite_or x with finite | infinite | nan
  · have hlt := isFinite_iff.mp finite
    rcases Nat.eq_zero_or_pos (pattern x) with hzero | hpos
    · rw [unpack_of_zero hzero, hzero, withSign]
      cases s <;> decide
    · obtain ⟨hm, hunpack⟩ := unpack_of_finite hpos hlt
      rw [hunpack]
      exact toNat_pack_finite s hlt hm
  · rw [unpack_of_isInf infinite, isInf_iff.mp infinite, withSign]
    cases s <;> decide
  · rw [h] at nan
    cases nan

/-- What has the same bits but for the sign has the same pattern and this sign. -/
theorem pattern_of_bits {s : Sign} {k : Nat} (h : x.toBits.toNat = signOf s + k)
    (hk : k < signBit) : pattern x = k ∧ sign x = s := by
  rw [sign, isNegative, pattern, h]
  cases s with
  | positive =>
    rw [signOf, Nat.zero_add, Nat.mod_eq_of_lt hk, decide_eq_false (Nat.not_le.mpr hk)]
    exact ⟨rfl, rfl⟩
  | negative =>
    rw [signOf, Nat.add_mod_left, Nat.mod_eq_of_lt hk, decide_eq_true (Nat.le_add_right _ _)]
    exact ⟨rfl, rfl⟩

theorem abs_spec (h : x.isNaN = false) : pattern x.abs = pattern x ∧ sign x.abs = .positive := by
  have bits : x.abs.toBits.toNat = signOf .positive + pattern x := by
    show (UnpackedFloat.pack .binary64 x.toModel.unpack.abs).toNat = _
    rw [abs_eq_withSign, toNat_pack_withSign h]
  exact pattern_of_bits bits (pattern_lt x)

theorem neg_spec (h : x.isNaN = false) : pattern (-x) = pattern x ∧ sign (-x) = -sign x := by
  have bits : (-x).toBits.toNat = signOf (-sign x) + pattern x := by
    show (UnpackedFloat.pack .binary64 x.toModel.unpack.neg).toNat = _
    rw [neg_unpack, toNat_pack_withSign h]
  exact pattern_of_bits bits (pattern_lt x)

theorem isNaN_abs (x : Float) : x.abs.isNaN = x.isNaN := by
  cases h : x.isNaN with
  | false =>
    rw [Bool.eq_false_iff, ne_eq, isNaN_iff, (abs_spec h).1, ← isNaN_iff, h]
    exact Bool.false_ne_true
  | true =>
    show (Float.ofModel (Float.Model.pack x.toModel.unpack.abs)).isNaN = true
    rw [unpack_of_isNaN h]
    decide

/-- The negative of a finite number. -/
theorem scaled_neg (h : x.isFinite = true) : (-x).isFinite = true ∧ scaled (-x) = -scaled x := by
  obtain ⟨hpattern, hsign⟩ := neg_spec (isNaN_of_isFinite h)
  refine ⟨isFinite_iff.mpr (hpattern ▸ isFinite_iff.mp h), ?_⟩
  rw [scaled_eq_apply, scaled_eq_apply, hsign, apply_neg, magnitude, magnitude, hpattern]

/-! ## Differences -/

/-- Whether two values have a difference: both are numbers, and not the same infinity. -/
def Commensurable (x y : Float) : Prop :=
  x.isNaN = false ∧ y.isNaN = false ∧ (x.isInf = true → x ≠ y)

/-- The nearest number to a whole number of units is a number. -/
theorem Nearest.isNaN {n : Int} (h : Nearest x n) : x.isNaN = false := by
  rw [Bool.eq_false_iff, ne_eq, isNaN_iff, h.pattern_eq]
  exact Nat.not_lt.mpr (rounded_le _)

theorem isNaN_pack_infinity (s : Sign) :
    (Float.ofModel (Float.Model.pack (.infinity s))).isNaN = false := by
  cases s <;> decide

/-- Infinite numbers are the same just if they have one sign. -/
theorem eq_iff_sign (hx : x.isInf = true) (hy : y.isInf = true) : x = y ↔ sign x = sign y := by
  refine ⟨fun h => h ▸ rfl, fun h => eq_of_pattern ?_ ?_⟩
  · rw [sign, sign] at h
    cases hn : isNegative x <;> cases hn' : isNegative y <;> simp [hn, hn'] at h ⊢
  · rw [isInf_iff.mp hx, isInf_iff.mp hy]

theorem infinity_sub (s : Sign) {u : UnpackedFloat} (number : u.isNaN = false)
    (bounded : u.isInf = false) : UnpackedFloat.sub .binary64 (.infinity s) u = .infinity s := by
  cases u with
  | notANumber => cases number
  | infinity => cases bounded
  | zero | finite => rfl

theorem sub_infinity (s : Sign) {u : UnpackedFloat} (number : u.isNaN = false)
    (bounded : u.isInf = false) : UnpackedFloat.sub .binary64 u (.infinity s) = .infinity (-s) := by
  cases u with
  | notANumber => cases number
  | infinity => cases bounded
  | zero | finite => rfl

theorem isNaN_sub_of_isInf (hx : x.isInf = true) (hy : y.isInf = true) :
    (x - y).isNaN = true ↔ x = y := by
  show (Float.ofModel (Float.Model.pack
    (UnpackedFloat.sub .binary64 x.toModel.unpack y.toModel.unpack))).isNaN = true ↔ _
  rw [eq_iff_sign hx hy, unpack_of_isInf hx, unpack_of_isInf hy, UnpackedFloat.sub]
  cases sign x with
  | positive =>
    cases sign y with
    | positive => exact iff_of_true (by decide) rfl
    | negative => exact iff_of_false (by decide) fun h => by cases h
  | negative =>
    cases sign y with
    | positive => exact iff_of_false (by decide) fun h => by cases h
    | negative => exact iff_of_true (by decide) rfl

/-- **Two values have a difference** just if it is a number. -/
theorem isNaN_sub (x y : Float) : (x - y).isNaN = false ↔ Commensurable x y := by
  have unpacked : x - y = .ofModel (Float.Model.pack
    (UnpackedFloat.sub .binary64 x.toModel.unpack y.toModel.unpack)) := rfl
  have nan : (Float.ofModel (Float.Model.pack .notANumber)).isNaN = true := by decide
  rcases isFinite_or x with hx | hx | hx
  case inr.inr =>
    rw [unpacked, unpack_of_isNaN hx, UnpackedFloat.sub, nan]
    exact iff_of_false (by decide) fun h => Bool.eq_false_iff.mp h.1 hx
  all_goals rcases isFinite_or y with hy | hy | hy
  case inl.inr.inr | inr.inl.inr.inr =>
    have sub : UnpackedFloat.sub .binary64 x.toModel.unpack .notANumber = .notANumber := by
      cases x.toModel.unpack <;> rfl
    rw [unpacked, unpack_of_isNaN hy, sub, nan]
    exact iff_of_false (by decide) fun h => Bool.eq_false_iff.mp h.2.1 hy
  case inl.inl =>
    refine iff_of_true (nearest_sub hx hy).isNaN ⟨isNaN_of_isFinite hx, isNaN_of_isFinite hy, ?_⟩
    exact fun h => absurd h (Bool.eq_false_iff.mp (isInf_of_isFinite hx))
  case inl.inr.inl =>
    rw [unpacked, unpack_of_isInf hy, sub_infinity _ (isNaN_of_isFinite hx) (isInf_of_isFinite hx)]
    refine iff_of_true (isNaN_pack_infinity _) ⟨isNaN_of_isFinite hx, isNaN_of_isInf hy, ?_⟩
    exact fun h => absurd h (Bool.eq_false_iff.mp (isInf_of_isFinite hx))
  case inr.inl.inl =>
    rw [unpacked, unpack_of_isInf hx, infinity_sub _ (isNaN_of_isFinite hy) (isInf_of_isFinite hy)]
    refine iff_of_true (isNaN_pack_infinity _) ⟨isNaN_of_isInf hx, isNaN_of_isFinite hy, ?_⟩
    rintro h rfl
    exact absurd h (Bool.eq_false_iff.mp (isInf_of_isFinite hy))
  case inr.inl.inr.inl =>
    rw [← Bool.not_eq_true, isNaN_sub_of_isInf hx hy]
    exact ⟨fun h => ⟨isNaN_of_isInf hx, isNaN_of_isInf hy, fun _ => h⟩, fun h => h.2.2 hx⟩

end IncrementalGame.Binary64
