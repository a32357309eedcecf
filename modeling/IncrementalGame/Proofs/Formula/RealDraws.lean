import IncrementalGame.Proofs.Binary64.Overflow
import IncrementalGame.Proofs.Formula.Breaks
import IncrementalGame.Proofs.Formula.Draws

/-!
# Real numbers that formulas draw

`frandom(a, b)` takes two finite bounds in order.  Where they hardly differ the lower one is the
result.  Otherwise a share of their distance is added to the lower bound, and the result lies
between the bounds (`tryReal_mem`): a share is not negative, so that rounding the sum does not lead
below the lower bound, and a sum that reaches the upper bound is rejected.

The share is one of a number only if the distance is finite.  That both bounds are finite does not
make it so: from `overflow` on it is not, and then there is nothing to draw from
(`exists_unbounded_draw`).
-/

namespace IncrementalGame.Formula

open Binary64 (epsilon magnitude one overflow scaled toRat)
open IncrementalGame.Random (Generator)

/-! ## Shares of a distance -/

theorem isFinite_epsilon : epsilon.isFinite = true := by decide

/-- The tolerance in units. -/
def tolerance : Nat := 2 ^ 1022

theorem scaled_epsilon : scaled epsilon = tolerance := by decide +kernel

theorem exists_tolerance_eq_pow : ∃ places, places = 1022 ∧ tolerance = 2 ^ places :=
  ⟨1022, rfl, rfl⟩

theorem tolerance_pos : 0 < tolerance := by
  obtain ⟨places, -, htolerance⟩ := exists_tolerance_eq_pow
  rw [htolerance]
  exact Nat.two_pow_pos places

/-- The product of the tolerance and a number of `2 ^ 970` units has `2 ^ 918` units. -/
theorem tolerance_mul : tolerance * 2 ^ 970 = 2 ^ 918 * one := by
  obtain ⟨d, hd, hone⟩ := Binary64.exists_one_eq_pow
  obtain ⟨places, hplaces, htolerance⟩ := exists_tolerance_eq_pow
  rw [hone, htolerance, ← pow_add, ← pow_add, hd, hplaces]

theorem tolerance_le_widestGap : tolerance ≤ Binary64.widestGap := by
  obtain ⟨gap, hgap, hwidest⟩ := Binary64.exists_widestGap_eq_pow
  obtain ⟨places, hplaces, htolerance⟩ := exists_tolerance_eq_pow
  rw [hwidest, htolerance]
  exact Nat.pow_le_pow_right Nat.two_pos (by omega)

/-- The fraction of a word is a multiple of the tolerance below one. -/
theorem scaled_fraction (word : UInt64) :
    ((word >>> 12).toFloat * epsilon).isFinite = true ∧
      ∃ n : Nat, n < 2 ^ 52 ∧ scaled ((word >>> 12).toFloat * epsilon) = (n * tolerance : Nat) := by
  obtain ⟨n, hn⟩ : ∃ n, n = (word >>> 12).toNat := ⟨_, rfl⟩
  have hlt : n < 2 ^ 52 := by
    have hshift : (word >>> 12).toNat = word.toNat / 2 ^ 12 := by
      rw [UInt64.toNat_shiftRight, Nat.shiftRight_eq_div_pow]
      rfl
    have hword := word.toNat_lt
    omega
  obtain ⟨hfinite, hnearest⟩ := Binary64.nearest_toFloat (word >>> 12)
  rw [← hn] at hnearest
  obtain ⟨hfinite, hwhole⟩ := hnearest.scaled_eq_mul_one (by rw [Binary64.binade]; omega)
  have hproduct := Binary64.nearest_mul (n := ((n * tolerance : Nat) : Int)) hfinite isFinite_epsilon
    (by rw [hwhole, scaled_epsilon, Int.natCast_mul]; ring)
  have hlow : n < 2 * Binary64.binade := by
    rw [Binary64.binade]
    omega
  obtain ⟨hbounded, hexact⟩ := hproduct.scaled_eq
    (by rw [Int.natAbs_natCast, tolerance]; exact ⟨n, 1022, hlow, rfl⟩)
    (by
      rw [Int.natAbs_natCast, Binary64.units_infinitePattern]
      exact Nat.mul_lt_mul_of_lt_of_le hlow tolerance_le_widestGap Binary64.widestGap_pos)
  exact ⟨hbounded, n, hlt, hexact⟩

/-- A significand before fewer than `k` places is less than one digit before them. -/
theorem mul_two_pow_lt {m j k : Nat} (hm : m < 2 ^ 53) (hjk : j < k) :
    m * 2 ^ j < 2 ^ (52 + k) :=
  calc m * 2 ^ j < 2 ^ 53 * 2 ^ j := Nat.mul_lt_mul_of_pos_right hm (Nat.two_pow_pos j)
    _ = 2 ^ (53 + j) := (pow_add 2 53 j).symm
    _ ≤ 2 ^ (52 + k) := Nat.pow_le_pow_right Nat.two_pos (by omega)

/-- What is at least the tolerance is a multiple of one part in `2 ^ 104`. -/
theorem exists_scaled_eq_mul {x : Float} (h : scaled epsilon ≤ scaled x) :
    ∃ k : Nat, scaled x = (k * 2 ^ 970 : Nat) := by
  have hpos : 0 ≤ scaled x := le_trans (by rw [scaled_epsilon]; exact Int.natCast_nonneg _) h
  rw [scaled_epsilon, Binary64.scaled_eq_magnitude hpos, Int.ofNat_le, magnitude,
    Binary64.units_eq_significand] at h
  have hplaces : 970 ≤ Binary64.pattern x / Binary64.binade - 1 := by
    by_contra hlow
    have hlt := mul_two_pow_lt (Binary64.significand_lt (Binary64.pattern x)) (not_le.mp hlow)
    obtain ⟨places, hplaces, htolerance⟩ := exists_tolerance_eq_pow
    rw [show 52 + 970 = places by omega, ← htolerance] at hlt
    exact absurd h (not_le.mpr hlt)
  obtain ⟨places, hsplit⟩ := Nat.exists_eq_add_of_le' hplaces
  refine ⟨Binary64.significand (Binary64.pattern x) * 2 ^ places, ?_⟩
  rw [Binary64.scaled_eq_magnitude hpos, magnitude, Binary64.units_eq_significand, hsplit,
    pow_add 2 places, Nat.mul_assoc]

section

variable {low high : Float}

/-- A share of a distance is a number, and not negative. -/
theorem scaled_share {distance : Float} (hfinite : distance.isFinite = true)
    (far : scaled epsilon ≤ scaled distance) (word : UInt64) :
    ((word >>> 12).toFloat * epsilon * distance).isFinite = true ∧
      0 ≤ scaled ((word >>> 12).toFloat * epsilon * distance) := by
  obtain ⟨hfraction, n, hn, hscaled⟩ := scaled_fraction word
  obtain ⟨k, hk⟩ := exists_scaled_eq_mul far
  have hproduct : scaled ((word >>> 12).toFloat * epsilon) * scaled distance =
      ((n * k * 2 ^ 918 : Nat) : Int) * one := by
    rw [hscaled, hk, ← Int.natCast_mul, ← Int.natCast_mul, Nat.mul_mul_mul_comm, tolerance_mul,
      Nat.mul_assoc (n * k)]
  have hnearest := Binary64.nearest_mul hfraction hfinite hproduct
  refine ⟨hnearest.isFinite_of_le hfinite ?_, ?_⟩
  · have hpower : 2 ^ 970 = 2 ^ 52 * 2 ^ 918 := by rw [← Nat.pow_add]
    rw [Int.natAbs_natCast, ← Binary64.scaled_natAbs, hk, Int.natAbs_natCast, Nat.mul_comm n,
      Nat.mul_assoc, hpower]
    exact Nat.mul_le_mul_left k (Nat.mul_le_mul_right _ hn.le)
  · rw [hnearest.scaled_eq_units, if_neg (by omega)]
    exact Int.natCast_nonneg _

/-- What is added to the lower bound and stays below the upper one does not lead below the lower
one. -/
theorem le_add_of_lt {x : Float} (hlow : low.isFinite = true) (hhigh : high.isFinite = true)
    (hx : x.isFinite = true) (hnonneg : 0 ≤ scaled x) (below : x + low < high) :
    low ≤ x + low := by
  have hnearest := Binary64.nearest_add hx hlow
  have hlt := (Binary64.lt_iff_isNaN_and_scaled.mp below).2.2
  have hfinite : (x + low).isFinite = true := by
    by_cases hneg : scaled x + scaled low < 0
    · -- The sum of a share and a negative number is no greater in amount than that number.
      refine hnearest.isFinite_of_le hlow ?_
      rw [← Binary64.scaled_natAbs]
      omega
    · rcases Binary64.isFinite_or (x + low) with hfinite | hinf | hnan
      · exact hfinite
      · rw [hnearest.scaled_eq_units, if_neg hneg, ← hnearest.pattern_eq,
          Binary64.isInf_iff.mp hinf] at hlt
        have hbound := Binary64.magnitude_lt hhigh
        rw [← Binary64.scaled_natAbs] at hbound
        omega
      · exact absurd (hnearest.isNaN.symm.trans hnan) Bool.false_ne_true
  rw [Binary64.le_iff_scaled hlow hfinite]
  exact hnearest.le_scaled hfinite (by omega)

/-- **A real number drawn between two bounds** lies between them, and is not the upper one. -/
theorem tryReal_mem (hlow : low.isFinite = true) (hhigh : high.isFinite = true)
    (ordered : low < high) (hfinite : (high - low).isFinite = true)
    (far : scaled epsilon ≤ scaled (high - low)) (tries : Nat) (g : Generator) :
    low ≤ (Generator.tryReal low high tries g).1 ∧
      (Generator.tryReal low high tries g).1 < high := by
  induction tries generalizing g with
  | zero =>
    rw [Generator.tryReal, Binary64.le_iff_scaled hlow hlow]
    exact ⟨le_rfl, ordered⟩
  | succ tries ih =>
    rw [Generator.tryReal]
    simp only
    split
    next below =>
      obtain ⟨hshare, hnonneg⟩ := scaled_share hfinite far g.next.1
      exact ⟨le_add_of_lt hlow hhigh hshare hnonneg below, below⟩
    next => exact ih g.next.2

end

/-! ## Accepted bounds -/

namespace Builtin

section

variable {function : String} {args : List Value} {low high : Float}

theorem ordered_of_bounds (h : bounds function args = .ok (low, high)) :
    low.isFinite = true ∧ high.isFinite = true ∧ scaled low ≤ scaled high := by
  rw [bounds] at h
  split at h
  next => exact absurd h (by simp)
  next l u _ =>
    split at h
    next => exact absurd h (by simp)
    next accepted =>
      obtain ⟨rfl, rfl⟩ := Prod.mk.inj (Except.ok.inj h)
      simp only [Bool.or_eq_true, decide_eq_true_eq, Bool.not_eq_true', not_or,
        Bool.not_eq_false] at accepted
      obtain ⟨⟨hlt, hl⟩, hu⟩ := accepted
      rw [Binary64.lt_iff_scaled hu hl] at hlt
      exact ⟨hl, hu, not_lt.mp hlt⟩

/-- Bounds that do not hardly differ are strictly in order. -/
theorem lt_of_far (hlow : low.isFinite = true) (hhigh : high.isFinite = true)
    (ordered : scaled low ≤ scaled high) (far : ¬(high - low).abs < epsilon) : low < high := by
  rw [Binary64.lt_iff_scaled hlow hhigh]
  refine lt_of_le_of_ne ordered fun heq => far ?_
  have hnearest := Binary64.nearest_sub hhigh hlow
  rw [heq, Int.sub_self] at hnearest
  have hpattern : Binary64.pattern (high - low).abs = 0 := by
    rw [(Binary64.abs_spec hnearest.isNaN).1, hnearest.pattern_eq]
    exact Binary64.rounded_zero
  have hfinite : (high - low).abs.isFinite = true := by
    rw [Binary64.isFinite_iff, hpattern]
    decide
  rw [Binary64.lt_iff_scaled hfinite isFinite_epsilon, Binary64.scaled_of_zero hpattern,
    scaled_epsilon]
  exact_mod_cast tolerance_pos

/-- The distance of such bounds is at least the tolerance, if it is finite. -/
theorem scaled_epsilon_le (hlow : low.isFinite = true) (hhigh : high.isFinite = true)
    (ordered : scaled low ≤ scaled high) (far : ¬(high - low).abs < epsilon)
    (hfinite : (high - low).isFinite = true) : scaled epsilon ≤ scaled (high - low) := by
  have hnearest := Binary64.nearest_sub hhigh hlow
  obtain ⟨hpattern, hsign⟩ := Binary64.abs_spec hnearest.isNaN
  have habs : (high - low).abs.isFinite = true := by
    rw [Binary64.isFinite_iff, hpattern]
    exact Binary64.isFinite_iff.mp hfinite
  have hsame : scaled (high - low).abs = scaled (high - low) := by
    rw [hnearest.scaled_eq_units, if_neg (by omega), ← hnearest.pattern_eq,
      Binary64.scaled_eq_apply, hsign, magnitude, hpattern]
    rfl
  rw [Binary64.lt_iff_scaled habs isFinite_epsilon, hsame] at far
  exact not_lt.mp far

/-- Bounds whose distance is not finite differ by more than the tolerance. -/
theorem far_of_not_isFinite (hlow : low.isFinite = true) (hhigh : high.isFinite = true)
    (infinite : (high - low).isFinite = false) : ¬(high - low).abs < epsilon := by
  intro near
  have hnearest := Binary64.nearest_sub hhigh hlow
  obtain ⟨hpattern, hsign⟩ := Binary64.abs_spec hnearest.isNaN
  have habs : Binary64.pattern (high - low).abs = Binary64.infinitePattern := by
    rw [hpattern]
    rcases Binary64.isFinite_or (high - low) with hfinite | hinf | hnan
    · exact absurd (infinite.symm.trans hfinite) Bool.false_ne_true
    · exact Binary64.isInf_iff.mp hinf
    · exact absurd (hnearest.isNaN.symm.trans hnan) Bool.false_ne_true
  have hlt := (Binary64.lt_iff_isNaN_and_scaled.mp near).2.2
  have hbound := Binary64.magnitude_lt isFinite_epsilon
  rw [← Binary64.scaled_natAbs] at hbound
  rw [Binary64.scaled_eq_apply, hsign, magnitude, habs] at hlt
  change (Binary64.units Binary64.infinitePattern : Int) < _ at hlt
  omega

/-- What a real draw between two bounds comes to, starting from a generator. -/
structure RealDraw (low high : Float) (g : Generator)
    (outcome : Except EvalError Value × Generator) : Prop where
  /-- The bounds are finite. -/
  finite : low.isFinite = true ∧ high.isFinite = true
  /-- Where they hardly differ, the lower one is the result and nothing is drawn. -/
  near : (high - low).abs < epsilon → outcome = (.ok (.number low), g)
  /-- Otherwise they are strictly in order. -/
  ordered : ¬(high - low).abs < epsilon → low < high
  /-- A distance below `overflow` is finite, and a number is drawn between the bounds. -/
  drawn : ¬(high - low).abs < epsilon → toRat high - toRat low < overflow →
    (high - low).isFinite = true ∧
      ∃ x g', outcome = (.ok (.number x), g') ∧ low ≤ x ∧ x < high
  /-- Any other distance is not finite, and there is no draw. -/
  unbounded : overflow ≤ toRat high - toRat low →
    (high - low).isFinite = false ∧ ¬(high - low).abs < epsilon ∧
      outcome = (.error .unboundedDraw, g)

/-- The distance of two bounds in order is finite just if it is not too great. -/
theorem isFinite_distance_iff (hlow : low.isFinite = true) (hhigh : high.isFinite = true)
    (ordered : scaled low ≤ scaled high) :
    (high - low).isFinite = true ↔ toRat high - toRat low < overflow := by
  rw [Binary64.isFinite_sub_iff hhigh hlow,
    abs_of_nonneg (sub_nonneg.mpr (Binary64.toRat_le_toRat_iff.mpr ordered))]

/-- Whether some arguments are accepted as the bounds of a real draw. -/
def Accepted (args : List Value) (low high : Float) : Prop :=
  randomReal.arity.accepts args.length = true ∧ bounds randomReal.name args = .ok (low, high)

instance (args : List Value) (low high : Float) : Decidable (Accepted args low high) :=
  inferInstanceAs (Decidable (_ ∧ _))

theorem apply_of_accepted (h : Accepted args low high) (vars : Variables) (g : Generator) :
    randomReal.apply vars args g = (drawReal low high >>= fun x => pure (.number x)) g := by
  have hbounds : Drawing.ofExcept (bounds randomReal.name args) g = (.ok (low, high), g) := by
    rw [h.2]
    rfl
  rw [apply, if_pos h.1, run, Fallible.bind_ok _ hbounds]

theorem drawReal_of_near (near : (high - low).abs < epsilon) (g : Generator) :
    drawReal low high g = (.ok low, g) := by
  rw [drawReal, if_pos near]
  rfl

theorem drawReal_of_finite (far : ¬(high - low).abs < epsilon)
    (finite : (high - low).isFinite = true) (g : Generator) :
    drawReal low high g = (.ok (g.real low high).1, (g.real low high).2) := by
  rw [drawReal, if_neg far, if_pos finite]
  rfl

theorem drawReal_of_infinite (far : ¬(high - low).abs < epsilon)
    (infinite : (high - low).isFinite = false) (g : Generator) :
    drawReal low high g = (.error .unboundedDraw, g) := by
  rw [drawReal, if_neg far, if_neg (by rw [infinite]; exact Bool.false_ne_true)]
  rfl

/-- **A real draw between accepted bounds.** -/
theorem realDraw_apply (h : Accepted args low high) (vars : Variables) (g : Generator) :
    RealDraw low high g (randomReal.apply vars args g) := by
  obtain ⟨hlow, hhigh, ordered⟩ := ordered_of_bounds h.2
  rw [apply_of_accepted h]
  refine ⟨⟨hlow, hhigh⟩, fun near => ?_, lt_of_far hlow hhigh ordered, fun far bounded => ?_,
    fun unbounded => ?_⟩
  · rw [Fallible.bind_ok _ (drawReal_of_near near g)]
    rfl
  · have finite := (isFinite_distance_iff hlow hhigh ordered).mpr bounded
    obtain ⟨hle, hlt⟩ := tryReal_mem hlow hhigh (lt_of_far hlow hhigh ordered far) finite
      (scaled_epsilon_le hlow hhigh ordered far finite) Random.maxTries g
    refine ⟨finite, (g.real low high).1, (g.real low high).2, ?_, hle, hlt⟩
    rw [Fallible.bind_ok _ (drawReal_of_finite far finite g)]
    rfl
  · have infinite : (high - low).isFinite = false := by
      rw [← Bool.not_eq_true, isFinite_distance_iff hlow hhigh ordered]
      exact not_lt.mpr unbounded
    have far := far_of_not_isFinite hlow hhigh infinite
    refine ⟨infinite, far, ?_⟩
    rw [Fallible.bind_error _ (drawReal_of_infinite far infinite g)]

/-- What is not accepted is refused for another reason. -/
theorem exists_accepted_of_unbounded {vars : Variables} {g : Generator}
    (h : (randomReal.apply vars args g).1 = .error .unboundedDraw) :
    ∃ low high, Accepted args low high := by
  rw [apply] at h
  split at h
  next count =>
    cases hbounds : bounds randomReal.name args with
    | ok pair => exact ⟨pair.1, pair.2, count, hbounds⟩
    | error e =>
      have hrefused : Drawing.ofExcept (bounds randomReal.name args) g = (.error e, g) := by
        rw [hbounds]
        rfl
      rw [run, Fallible.bind_error _ hrefused] at h
      have hgoes := brokenOff_bounds randomReal.name args
      rw [hbounds, Except.error.inj h] at hgoes
      exact absurd hgoes (by decide)
  next => exact absurd (Except.error.inj h) (by simp)

end

end Builtin

/-- **`frandom(a, b)` draws a number between its bounds** unless they are too far apart, and only
then there is no draw for it. -/
theorem Expr.eval_frandom {vars : Variables} {args : List Expr} {values : List Value}
    {g g₁ : Generator} (hargs : evalAll vars args g = (.ok values, g₁)) :
    (∀ low high, Builtin.Accepted values low high →
      Builtin.RealDraw low high g₁ ((Expr.call "frandom" args).eval vars g)) ∧
    (((Expr.call "frandom" args).eval vars g).1 = .error .unboundedDraw ↔
      ∃ low high, Builtin.Accepted values low high ∧ overflow ≤ toRat high - toRat low) := by
  have name : Builtin.ofName? "frandom" = some .randomReal := by decide
  have happly : (Expr.call "frandom" args).eval vars g =
      Builtin.randomReal.apply vars values g₁ := by
    rw [eval, name]
    simp only
    rw [Fallible.bind_ok _ hargs]
  rw [happly]
  refine ⟨fun low high h => Builtin.realDraw_apply h vars g₁, fun h => ?_, ?_⟩
  · obtain ⟨low, high, accepted⟩ := Builtin.exists_accepted_of_unbounded h
    refine ⟨low, high, accepted, ?_⟩
    by_contra hlt
    have draw := Builtin.realDraw_apply accepted vars g₁
    by_cases near : (high - low).abs < epsilon
    · rw [draw.near near] at h
      cases h
    · obtain ⟨-, x, g', hx, -⟩ := draw.drawn near (not_le.mp hlt)
      rw [hx] at h
      cases h
  · rintro ⟨low, high, accepted, unbounded⟩
    rw [((Builtin.realDraw_apply accepted vars g₁).unbounded unbounded).2.2]

/-- A throw between two and five. -/
theorem Expr.eval_frandom_of_dart :
    ∃ x g, (Expr.call "frandom" [.number 2.0, .number 5.0]).eval KeyMap.empty (Generator.ofSeed 0) =
      (.ok (.number x), g) ∧ 2.0 ≤ x ∧ x < 5.0 := by
  have accepted : Builtin.Accepted [.number 2.0, .number 5.0] 2.0 5.0 := by decide
  have far : ¬((5.0 : Float) - 2.0).abs < epsilon := by decide
  have evaluated : evalAll KeyMap.empty [.number 2.0, .number 5.0] (Generator.ofSeed 0) =
      (.ok [.number 2.0, .number 5.0], Generator.ofSeed 0) := rfl
  obtain ⟨draw, -⟩ := Expr.eval_frandom evaluated
  have bounded := (Builtin.isFinite_distance_iff (draw 2.0 5.0 accepted).finite.1
    (draw 2.0 5.0 accepted).finite.2 (by decide +kernel)).mp (by decide)
  obtain ⟨-, x, g, hx, hle, hlt⟩ := (draw 2.0 5.0 accepted).drawn far bounded
  exact ⟨x, g, hx, hle, hlt⟩

/-- From `-b` to `b` for `b = 10 ^ 308`, which are accepted as bounds, there is no draw. -/
theorem exists_unbounded_draw :
    Builtin.Accepted [.number (-1e308), .number 1e308] (-1e308) 1e308 ∧
      ¬((1e308 : Float) - -1e308).abs < epsilon ∧ ((1e308 : Float) - -1e308).isFinite = false ∧
      (evaluateFresh "frandom(0 - b, b)" ⟨[("b", 1e308)], List.pairwise_singleton _ _⟩
        (Generator.ofSeed 0)).1 = .error .unboundedDraw := by
  decide +kernel

end IncrementalGame.Formula
