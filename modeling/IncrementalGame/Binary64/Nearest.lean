import IncrementalGame.Binary64.Basic

/-!
# The binary64 number nearest to a fraction

Between two neighbouring magnitudes the rounding changes at their midpoint, and a fraction on the
midpoint goes to the one of the two with the even pattern.  So pattern `k` collects the fractions
from the midpoint below it to the midpoint above it, both ends included exactly when `k` is even.

The midpoint below `k` is `(units (k - 1) + units k) / 2` multiples of `2 ^ -1074`, that is
`units (k - 1) + units k` multiples of `2 ^ -1075`, and comparing it with `num / den` takes one
multiplication of natural numbers on each side.  `reaches k` makes that comparison, and
`nearestPattern` is the greatest pattern that the fraction reaches, found bit by bit.

The same description serves the other direction: a decimal reads back as the number of pattern `k`
exactly if `roundsTo k` holds of it, which is what the shortest digits are searched with.
-/

namespace IncrementalGame.Binary64

/-- Whether `num / den` lies at or above the lower end of what rounds to pattern `k`. -/
def reaches (k num den : Nat) : Bool :=
  let low := (units (k - 1) + units k) * den
  let point := num <<< 1075
  if k % 2 = 0 then decide (low ≤ point) else decide (low < point)

/-- Whether `num / den` is among the fractions that round to pattern `k`. -/
def roundsTo (k num den : Nat) : Bool := reaches k num den && !reaches (k + 1) num den

/-- The greatest number below `start + 2 ^ bits` that passes a test which `start` passes, if no
number that passes lies above one that fails. -/
def greatest (test : Nat → Bool) (start : Nat) : Nat → Nat
  | 0 => start
  | bits + 1 =>
    if test (start + Nat.pow 2 bits) then greatest test (start + Nat.pow 2 bits) bits
    else greatest test start bits

/-- The pattern nearest to `num / den`; what lies too high for a finite number is infinity. -/
def nearestPattern (num den : Nat) : Nat :=
  Nat.min infinitePattern (greatest (reaches · num den) 0 63)

end IncrementalGame.Binary64
