/-!
# Counters that stop at their ends

Balances, counts and times are whole numbers of 64 or 32 bits.  Adding to one stops at the greatest
number it can hold, and taking from one stops at zero, so neither ever wraps around.

Each operation is the one on natural numbers, cut off at the end: `toNat_add64`, `toNat_sub64`,
`toNat_add32`.
-/

namespace IncrementalGame.Saturating

/-- A natural number as a 64-bit one, the greatest of them if it is too great. -/
def clamp64 (n : Nat) : UInt64 := UInt64.ofNat (min n (UInt64.size - 1))

/-- A natural number as a 32-bit one, the greatest of them if it is too great. -/
def clamp32 (n : Nat) : UInt32 := UInt32.ofNat (min n (UInt32.size - 1))

/-- The sum, or the greatest number. -/
def add64 (a b : UInt64) : UInt64 := clamp64 (a.toNat + b.toNat)

/-- The difference, or zero. -/
def sub64 (a b : UInt64) : UInt64 := clamp64 (a.toNat - b.toNat)

/-- The sum, or the greatest number. -/
def add32 (a b : UInt32) : UInt32 := clamp32 (a.toNat + b.toNat)

/-- The greater of two numbers. -/
def max64 (a b : UInt64) : UInt64 := if a < b then b else a

@[simp] theorem toNat_clamp64 (n : Nat) : (clamp64 n).toNat = min n (UInt64.size - 1) := by
  rw [clamp64, UInt64.toNat_ofNat', UInt64.size]
  omega

@[simp] theorem toNat_clamp32 (n : Nat) : (clamp32 n).toNat = min n (UInt32.size - 1) := by
  rw [clamp32, UInt32.toNat_ofNat', UInt32.size]
  omega

theorem toNat_add64 (a b : UInt64) :
    (add64 a b).toNat = min (a.toNat + b.toNat) (UInt64.size - 1) :=
  toNat_clamp64 _

theorem toNat_sub64 (a b : UInt64) : (sub64 a b).toNat = a.toNat - b.toNat := by
  have := a.toNat_lt
  rw [sub64, toNat_clamp64, UInt64.size]
  omega

theorem toNat_add32 (a b : UInt32) :
    (add32 a b).toNat = min (a.toNat + b.toNat) (UInt32.size - 1) :=
  toNat_clamp32 _

theorem toNat_max64 (a b : UInt64) : (max64 a b).toNat = max a.toNat b.toNat := by
  rw [max64]
  split
  next h => have := UInt64.lt_iff_toNat_lt.1 h; omega
  next h => have := mt UInt64.lt_iff_toNat_lt.2 h; omega

end IncrementalGame.Saturating
