import Mathlib.Tactic
import IncrementalGame.Random.Draw

/-!
# The range of a drawn integer

An integer that is drawn between two bounds lies between them, whatever the generator is
(`integer_mem`): each try gives the lower bound and a share of the range, and should all of them be
rejected, the lower bound itself is the result.  Only where the range is that of all 64-bit integers
is there no share to compute, and then every word stands for one of them.
-/

namespace IncrementalGame.Random.Generator

/-- A word in two's complement is a 64-bit integer. -/
theorem signed_mem (word : UInt64) : -2 ^ 63 ≤ signed word ∧ signed word ≤ 2 ^ 63 - 1 := by
  have hlt := word.toNat_lt
  have hsize : UInt64.size = 2 ^ 64 := rfl
  rw [signed]
  split <;> omega

/-- A try gives one of the `range` integers from the lower bound on. -/
theorem tryInteger_mem (low : Int) {range : Nat} (zone : Nat) (positive : 0 < range) (tries : Nat)
    (g : Generator) :
    low ≤ (tryInteger low range zone tries g).1 ∧
      (tryInteger low range zone tries g).1 < low + range := by
  induction tries generalizing g with
  | zero =>
    rw [tryInteger]
    omega
  | succ tries ih =>
    rw [tryInteger]
    have share : g.next.1.toNat * range / UInt64.size < range := by
      refine Nat.div_lt_of_lt_mul ?_
      exact Nat.mul_lt_mul_of_pos_right g.next.1.toNat_lt positive
    simp only
    split
    · generalize g.next.1.toNat * range / UInt64.size = part at share ⊢
      omega
    · exact ih g.next.2

/-- **An integer drawn between two bounds** lies between them. -/
theorem integer_mem {low high : Int} (least : -2 ^ 63 ≤ low) (greatest : high ≤ 2 ^ 63 - 1)
    (ordered : low ≤ high) (g : Generator) :
    low ≤ (g.integer low high).1 ∧ (g.integer low high).1 ≤ high := by
  have hsize : UInt64.size = 2 ^ 64 := rfl
  rw [integer]
  by_cases all : high - low + 1 = 2 ^ 64
  · have range : ((high - low + 1) % (UInt64.size : Int)).toNat = 0 := by
      rw [all, hsize]
      rfl
    have word := signed_mem g.next.1
    simp only [if_pos range]
    omega
  · have range : ((high - low + 1) % (UInt64.size : Int)).toNat = (high - low + 1).toNat := by
      rw [hsize]
      omega
    simp only [range, if_neg (show (high - low + 1).toNat ≠ 0 by omega)]
    have drawn := tryInteger_mem low ((high - low + 1).toNat <<<
      (63 - (high - low + 1).toNat.log2) - 1) (show 0 < (high - low + 1).toNat by omega) maxTries g
    omega

end IncrementalGame.Random.Generator
