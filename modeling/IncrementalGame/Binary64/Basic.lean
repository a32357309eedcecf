/-!
# Binary64 numbers as whole multiples of the least one

A finite binary64 number is a whole multiple of `2 ^ -1074`, the least positive one.  Everything
this library needs to know about such a number beyond the four operations of arithmetic --- its
whole part, a remainder, its decimal digits, which number a decimal rounds to --- is a statement
about that multiple, so it is computed on natural numbers and not with further floating operations.

* `pattern x` is the bit pattern of `x` without its sign.  Patterns number the magnitudes in
  ascending order: `0` is zero, `infinitePattern` is infinity, and what lies above is no number.
* `units k` is the magnitude of pattern `k`, counted in `2 ^ -1074`.
* `patternOfUnits` goes back, for a magnitude that has a pattern (`units_patternOfUnits`).
* `wholePart`, `floor`, `ceil`, `round` and `remainder` are exact: their results are always
  representable, so nothing is rounded.
-/

namespace IncrementalGame.Binary64

/-- The number of patterns with one exponent, `2 ^ 52`. -/
def binade : Nat := 0x10000000000000

/-- The sign bit, `2 ^ 63`. -/
def signBit : Nat := 0x8000000000000000

/-- The pattern of infinity: all exponent bits set, no fraction bit. -/
def infinitePattern : Nat := 0x7ff0000000000000

/-- The bit pattern of a number, without its sign. -/
def pattern (x : Float) : Nat := x.toBits.toNat % signBit

/-- Whether the sign bit is set; the negative zero has it set too. -/
def isNegative (x : Float) : Bool := decide (signBit ≤ x.toBits.toNat)

/-- The number of a sign and a pattern. -/
def ofPattern (negative : Bool) (k : Nat) : Float :=
  Float.ofBits (UInt64.ofNat (if negative then signBit + k else k))

/-- The magnitude of a pattern in multiples of `2 ^ -1074`: in the lowest binade the pattern itself,
and above it a fraction with a leading one, scaled by the exponent field. -/
def units (k : Nat) : Nat :=
  if k < binade then k else (binade + k % binade) <<< (k / binade - 1)

/-- The pattern of the greatest magnitude that is at most `n` multiples of `2 ^ -1074`. -/
def patternOfUnits (n : Nat) : Nat :=
  if n < binade then n
  else (n.log2 - 52 + 1) * binade + (n >>> (n.log2 - 52) - binade)

/-- The magnitude of a finite number in multiples of `2 ^ -1074`. -/
def magnitude (x : Float) : Nat := units (pattern x)

/-- The signed value of a finite number in multiples of `2 ^ -1074`. -/
def scaled (x : Float) : Int := if isNegative x then -(magnitude x : Int) else magnitude x

/-- One, in multiples of `2 ^ -1074`. -/
def one : Nat := Nat.pow 2 1074

/-! ## Whole parts -/

/-- The number without its fraction: the sign stays, so `-0.5` gives the negative zero. -/
def wholePart (x : Float) : Float :=
  if x.isFinite then
    ofPattern (isNegative x) (patternOfUnits ((magnitude x >>> 1074) <<< 1074))
  else x

/-- The greatest whole number that is at most `x`. -/
def floor (x : Float) : Float :=
  let whole := wholePart x
  if x < whole then whole - 1.0 else whole

/-- The least whole number that is at least `x`. -/
def ceil (x : Float) : Float :=
  let whole := wholePart x
  if whole < x then whole + 1.0 else whole

/-- The nearest whole number; a half goes away from zero. -/
def round (x : Float) : Float :=
  let whole := wholePart x
  if (x - whole).abs < 0.5 then whole
  else if isNegative x then whole - 1.0
  else if x.isFinite then whole + 1.0
  else x

/-- Whether a number has no fraction. -/
def isWhole (x : Float) : Bool := x.isFinite && magnitude x % one == 0

/-! ## Remainders -/

/-- No number at all. -/
def notANumber : Float := 0.0 / 0.0

/-- What is left of `x` after taking away as many whole `y` as fit; it has the sign of `x`. -/
def remainder (x y : Float) : Float :=
  if x.isNaN || y.isNaN || x.isInf || y == 0.0 then notANumber
  else if y.isInf then x
  else ofPattern (isNegative x) (patternOfUnits (magnitude x % magnitude y))

/-! ## Integers -/

/-- The whole part as an integer between `-2 ^ 63` and `2 ^ 63 - 1`; what lies outside goes to the
nearer end, and what is no number to zero. -/
def toInt64 (x : Float) : Int :=
  if x < 0.0 then -(min (-x).toUInt64.toNat signBit : Nat)
  else (min x.toUInt64.toNat (signBit - 1) : Nat)

/-- The nearest number to an integer between `-2 ^ 64` and `2 ^ 64`. -/
def ofInt (n : Int) : Float :=
  if n < 0 then -(UInt64.ofNat n.natAbs).toFloat else (UInt64.ofNat n.natAbs).toFloat

/-- The nearest number to a natural number below `2 ^ 64`. -/
def ofNat (n : Nat) : Float := (UInt64.ofNat n).toFloat

/-- The smaller of two numbers; where one of them is no number, the other. -/
def lesser (x y : Float) : Float :=
  if x.isNaN then y else if y.isNaN then x else if y < x then y else x

/-- The greater of two numbers; where one of them is no number, the other. -/
def greater (x y : Float) : Float :=
  if x.isNaN then y else if y.isNaN then x else if x < y then y else x

/-- The distance from one to the next greater number. -/
def epsilon : Float := ofPattern false 0x3cb0000000000000

end IncrementalGame.Binary64
