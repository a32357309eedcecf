import IncrementalGame.Formula.Eval
import IncrementalGame.Proofs.Binary64.Integers
import IncrementalGame.Proofs.Fallible
import IncrementalGame.Proofs.Random.Ranges

/-!
# Integers that formulas draw

`random(a, b)` rounds its bounds inward, draws a 64-bit integer between them and gives it back as a
number.  Each of these steps may move the result, and yet it stays between the bounds whenever there
is an integer of at most `2 ^ 63` in amount there (`drawInteger_spec`): the bounds that are rounded
are numbers, so that rounding what lies between them does not leave them; and the one integer that
is cut off although it is a bound, `2 ^ 63`, comes back from the rounding.  Bounds that are beyond
`2 ^ 63` altogether give `2 ^ 63` (`exists_drawn_below`).
-/

namespace IncrementalGame.Formula

open Binary64 (isWhole ofInt one scaled toRat)
open IncrementalGame.Random (Generator)

/-- An integer, cut off at the least and the greatest of 64 bits. -/
def cutOff (z : Int) : Int := max (-2 ^ 63) (min z (2 ^ 63 - 1))

namespace Builtin

section

variable {low high : Float}

theorem floor_lt_ceil_iff (hlow : low.isFinite = true) (hhigh : high.isFinite = true) :
    Binary64.floor high < Binary64.ceil low ↔ ⌊toRat high⌋ < ⌈toRat low⌉ := by
  obtain ⟨hceil, hscaled⟩ := Binary64.scaled_ceil_eq hlow
  obtain ⟨hfloor, hscaled'⟩ := Binary64.scaled_floor_eq hhigh
  rw [Binary64.lt_iff_scaled hfloor hceil, hscaled, hscaled']
  exact Int.mul_lt_mul_right Binary64.natCast_one_pos

/-- Without an integer between them the lower bound is rounded up. -/
theorem drawInteger_of_lt (hlow : low.isFinite = true) (hhigh : high.isFinite = true)
    (crossing : ⌊toRat high⌋ < ⌈toRat low⌉) (g : Generator) :
    drawInteger low high g = (.ok (Binary64.ceil low), g) := by
  rw [drawInteger, if_pos ((floor_lt_ceil_iff hlow hhigh).mpr crossing)]
  rfl

/-- Otherwise an integer is drawn between the rounded bounds, which are cut off. -/
theorem drawInteger_of_le (hlow : low.isFinite = true) (hhigh : high.isFinite = true)
    (room : ⌈toRat low⌉ ≤ ⌊toRat high⌋) (g : Generator) :
    ∃ n g', drawInteger low high g = (.ok (ofInt n), g') ∧
      cutOff ⌈toRat low⌉ ≤ n ∧ n ≤ cutOff ⌊toRat high⌋ := by
  obtain ⟨hceil, hscaled⟩ := Binary64.scaled_ceil_eq hlow
  obtain ⟨hfloor, hscaled'⟩ := Binary64.scaled_floor_eq hhigh
  have ordered : cutOff ⌈toRat low⌉ ≤ cutOff ⌊toRat high⌋ := by
    rw [cutOff, cutOff]
    omega
  have least : -2 ^ 63 ≤ cutOff ⌈toRat low⌉ := le_max_left _ _
  have greatest : cutOff ⌊toRat high⌋ ≤ 2 ^ 63 - 1 := by
    rw [cutOff]
    omega
  have between := Generator.integer_mem least greatest ordered g
  refine ⟨_, (g.integer (cutOff ⌈toRat low⌉) (cutOff ⌊toRat high⌋)).2, ?_, between⟩
  rw [drawInteger, if_neg (mt (floor_lt_ceil_iff hlow hhigh).mp (Int.not_lt.mpr room)),
    Binary64.toInt64_eq hceil hscaled, Binary64.toInt64_eq hfloor hscaled']
  rfl

/-- An integer that is drawn between the bounds is so as a number. -/
theorem ofInt_mem (hlow : low.isFinite = true) (hhigh : high.isFinite = true) {n : Int}
    (bounded : n.natAbs < 2 ^ 64) (hle : toRat low ≤ n) (hge : n ≤ toRat high) :
    low ≤ ofInt n ∧ ofInt n ≤ high := by
  obtain ⟨hfinite, hnearest⟩ := Binary64.nearest_ofInt bounded
  rw [Binary64.le_iff_scaled hlow hfinite, Binary64.le_iff_scaled hfinite hhigh]
  rw [toRat, div_le_iff₀ Binary64.ratCast_one_pos] at hle
  rw [toRat, le_div_iff₀ Binary64.ratCast_one_pos] at hge
  exact ⟨hnearest.le_scaled hfinite (by exact_mod_cast hle),
    hnearest.scaled_le hfinite (by exact_mod_cast hge)⟩

/-- The greatest 64-bit integer as a number is one more. -/
theorem scaled_ofInt_greatest :
    (ofInt (2 ^ 63 - 1)).isFinite = true ∧ scaled (ofInt (2 ^ 63 - 1)) = (2 ^ 63 : Int) * one := by
  decide +kernel

theorem scaled_ofInt_least : scaled (ofInt (-2 ^ 63)) = (-2 ^ 63 : Int) * one := by
  decide +kernel

/-- Bounds that are far enough from zero are integers, so there is one between them. -/
theorem ceil_le_floor_of_large (ordered : toRat low ≤ toRat high)
    (large : 2 ^ 52 ≤ |toRat low| ∨ 2 ^ 52 ≤ |toRat high|) : ⌈toRat low⌉ ≤ ⌊toRat high⌋ := by
  rcases large with h | h
  · obtain ⟨k, hk⟩ := Binary64.exists_toRat_eq_intCast h
    rw [hk] at ordered ⊢
    rw [Int.ceil_intCast]
    exact Int.le_floor.mpr ordered
  · obtain ⟨k, hk⟩ := Binary64.exists_toRat_eq_intCast h
    rw [hk] at ordered ⊢
    rw [Int.floor_intCast]
    exact Int.ceil_le.mpr ordered

/-- The result of a draw between two finite bounds. -/
structure Drawn (low high x : Float) : Prop where
  /-- It is an integer. -/
  whole : isWhole x = true
  /-- It lies between the bounds, if an integer of at most `2 ^ 63` in amount does. -/
  between : ∀ k : Int, |k| ≤ 2 ^ 63 → toRat low ≤ k → k ≤ toRat high → low ≤ x ∧ x ≤ high
  /-- Above `2 ^ 63` it is cut off. -/
  above : 2 ^ 63 < toRat low → toRat x = 2 ^ 63
  /-- Below `-2 ^ 63` it is cut off. -/
  below : toRat high < -2 ^ 63 → toRat x = -2 ^ 63

theorem drawn_of_lt (hlow : low.isFinite = true) (ordered : toRat low ≤ toRat high)
    (crossing : ⌊toRat high⌋ < ⌈toRat low⌉) : Drawn low high (Binary64.ceil low) := by
  obtain ⟨hfinite, hscaled⟩ := Binary64.scaled_ceil_eq hlow
  have small {P : Prop} (large : 2 ^ 52 ≤ |toRat low| ∨ 2 ^ 52 ≤ |toRat high|) : P :=
    absurd (ceil_le_floor_of_large ordered large) (Int.not_le.mpr crossing)
  refine ⟨Binary64.isWhole_iff.mpr ⟨hfinite, _, hscaled⟩, fun k _ hle hge => ?_, fun h => ?_,
    fun h => ?_⟩
  · have := Int.ceil_le.mpr hle
    have := Int.le_floor.mpr hge
    omega
  · refine small (.inl (le_trans ?_ (le_abs_self _)))
    linarith
  · refine small (.inr (le_trans ?_ (neg_le_abs _)))
    linarith

theorem drawn_of_le (hlow : low.isFinite = true) (hhigh : high.isFinite = true)
    (room : ⌈toRat low⌉ ≤ ⌊toRat high⌋) {n : Int} (hle : cutOff ⌈toRat low⌉ ≤ n)
    (hge : n ≤ cutOff ⌊toRat high⌋) : Drawn low high (ofInt n) := by
  rw [cutOff] at hle hge
  have bounded : n.natAbs < 2 ^ 64 := by omega
  obtain ⟨hfinite, hnearest⟩ := Binary64.nearest_ofInt bounded
  refine ⟨Binary64.isWhole_iff.mpr ⟨hfinite, hnearest.exists_scaled_eq_mul_one hfinite⟩,
    fun k hk hlowk hhighk => ?_, fun h => ?_, fun h => ?_⟩
  · obtain ⟨least, greatest⟩ := abs_le.mp hk
    have hceil := Int.ceil_le.mpr hlowk
    have hfloor := Int.le_floor.mpr hhighk
    by_cases inside : ⌈toRat low⌉ ≤ n
    · exact ofInt_mem hlow hhigh bounded (Int.ceil_le.mp inside) (Int.le_floor.mp (by omega))
    · -- The bound itself is cut off, and comes back from the rounding.
      obtain ⟨rfl, rfl⟩ : n = 2 ^ 63 - 1 ∧ k = 2 ^ 63 := by omega
      obtain ⟨hx, hscaled⟩ := scaled_ofInt_greatest
      have hsame := Binary64.toRat_of_scaled hscaled
      rw [← hsame] at hlowk hhighk
      rw [Binary64.le_iff_scaled hlow hx, Binary64.le_iff_scaled hx hhigh,
        ← Binary64.toRat_le_toRat_iff, ← Binary64.toRat_le_toRat_iff]
      exact ⟨hlowk, hhighk⟩
  · have hceil : 2 ^ 63 < ⌈toRat low⌉ := Int.lt_ceil.mpr (by exact_mod_cast h)
    obtain rfl : n = 2 ^ 63 - 1 := by omega
    rw [Binary64.toRat_of_scaled scaled_ofInt_greatest.2]
    norm_num
  · have hfloor : ⌊toRat high⌋ < -2 ^ 63 := Int.floor_lt.mpr (by exact_mod_cast h)
    obtain rfl : n = -2 ^ 63 := by omega
    rw [Binary64.toRat_of_scaled scaled_ofInt_least]
    norm_num

/-- **An integer is drawn between two finite bounds**, as far as 64 bits reach. -/
theorem drawInteger_spec (hlow : low.isFinite = true) (hhigh : high.isFinite = true)
    (ordered : low ≤ high) (g : Generator) :
    ∃ x g', drawInteger low high g = (.ok x, g') ∧ Drawn low high x := by
  rw [Binary64.le_iff_scaled hlow hhigh, ← Binary64.toRat_le_toRat_iff] at ordered
  rcases lt_or_ge ⌊toRat high⌋ ⌈toRat low⌉ with crossing | room
  · exact ⟨_, g, drawInteger_of_lt hlow hhigh crossing g, drawn_of_lt hlow ordered crossing⟩
  · obtain ⟨n, g', drawn, hle, hge⟩ := drawInteger_of_le hlow hhigh room g
    exact ⟨ofInt n, g', drawn, drawn_of_le hlow hhigh room hle hge⟩

/-- The bounds of a draw, if they are finite and in order. -/
theorem bounds_pair {u v : Value} (hu : u.toNumber? = some low) (hv : v.toNumber? = some high)
    (hlow : low.isFinite = true) (hhigh : high.isFinite = true) (ordered : low ≤ high)
    (function : String) : bounds function [u, v] = .ok (low, high) := by
  have pair : boundPair function [u, v] = .ok (low, high) := by
    rw [boundPair, Value.asNumber, Value.asNumber, hu, hv]
    rfl
  have accepted : ¬ (high < low || !low.isFinite || !high.isFinite) = true := by
    rw [hlow, hhigh]
    rw [Binary64.le_iff_scaled hlow hhigh] at ordered
    simpa [Binary64.lt_iff_scaled hhigh hlow] using ordered
  simp only [bounds, pair, if_neg accepted]

end

end Builtin

/-- **`random(a, b)` draws an integer between its bounds** whenever there is one of at most `2 ^ 63`
in amount; beyond that it is cut off. -/
theorem Expr.eval_random {vars : Variables} {a b : Expr} {u v : Value} {low high : Float}
    {g g₁ g₂ : Generator} (ha : a.eval vars g = (.ok u, g₁)) (hb : b.eval vars g₁ = (.ok v, g₂))
    (hu : u.toNumber? = some low) (hv : v.toNumber? = some high) (hlow : low.isFinite = true)
    (hhigh : high.isFinite = true) (ordered : low ≤ high) :
    ∃ x g₃, (Expr.call "random" [a, b]).eval vars g = (.ok (.number x), g₃) ∧
      Builtin.Drawn low high x := by
  obtain ⟨x, g₃, drawn, spec⟩ := Builtin.drawInteger_spec hlow hhigh ordered g₂
  have name : Builtin.ofName? "random" = some .randomInteger := by decide
  have second : evalAll vars [b] g₁ = (.ok [v], g₂) := by
    rw [evalAll, Fallible.bind_ok _ hb, evalAll]
    rfl
  have arguments : evalAll vars [a, b] g = (.ok [u, v], g₂) := by
    rw [evalAll, Fallible.bind_ok _ ha, Fallible.bind_ok _ second]
    rfl
  have bounded : Drawing.ofExcept (Builtin.bounds Builtin.randomInteger.name [u, v]) g₂ =
      (.ok (low, high), g₂) := by
    rw [Builtin.bounds_pair hu hv hlow hhigh ordered]
    rfl
  refine ⟨x, g₃, ?_, spec⟩
  have count : Builtin.randomInteger.arity.accepts [u, v].length = true := rfl
  rw [eval, name]
  simp only
  rw [Fallible.bind_ok _ arguments, Builtin.apply, if_pos count, Builtin.run,
    Fallible.bind_ok _ bounded]
  simp only
  rw [Fallible.bind_ok _ drawn]
  rfl

/-- A throw between three and six. -/
theorem Expr.eval_random_of_throw :
    ∃ x g, (Expr.call "random" [.number 3.0, .number 6.0]).eval KeyMap.empty (Generator.ofSeed 0) =
      (.ok (.number x), g) ∧ isWhole x = true ∧ 3.0 ≤ x ∧ x ≤ 6.0 := by
  have hlow : toRat 3.0 = 3 := by
    have scaled_low : scaled 3.0 = (3 : Int) * one := by decide +kernel
    exact Binary64.toRat_of_scaled scaled_low
  have hhigh : toRat 6.0 = 6 := by
    have scaled_high : scaled 6.0 = (6 : Int) * one := by decide +kernel
    exact Binary64.toRat_of_scaled scaled_high
  obtain ⟨x, g, drawn, spec⟩ := Expr.eval_random (a := .number 3.0) (b := .number 6.0)
    (u := .number 3.0) (v := .number 6.0) (g := Generator.ofSeed 0) rfl rfl rfl rfl (by decide)
    (by decide) (by decide)
  refine ⟨x, g, drawn, spec.whole, spec.between 4 ?_ ?_ ?_⟩
  · norm_num
  · rw [hlow]
    norm_num
  · rw [hhigh]
    norm_num

/-- Between `10 ^ 19` and `10 ^ 19` the draw is cut off at `2 ^ 63`, which is less. -/
theorem exists_drawn_below :
    isWhole 1e19 = true ∧ (9223372036854775808.0 : Float) < 1e19 ∧
      (evaluateFresh "random(10000000000000000000, 10000000000000000000)" KeyMap.empty
        (Generator.ofSeed 0)).1.toOption = some 9223372036854775808.0 := by
  decide +kernel

end IncrementalGame.Formula
