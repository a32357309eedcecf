import IncrementalGame.Binary64.Nearest

/-!
# Decimals and binary64 numbers

A `Decimal` is a coefficient times a power of ten.  `Decimal.toPattern` rounds it to the nearest
binary64 magnitude, and `shortest` goes back: among the decimals that round to a given pattern it
finds one with the fewest digits and, of those, the nearest, where a tie goes as a `Tie` says.

A number with `n` digits nearest to a value is one of the two neighbours of the value on the grid of
`n`-digit numbers, so for each `n` two candidates are enough; seventeen digits always suffice, and
the exact expansion stands behind them, so that every result reads back by the way it was found.
-/

namespace IncrementalGame.Binary64

/-- The value `coefficient * 10 ^ exponent`. -/
structure Decimal where
  /-- The digits, read as one whole number. -/
  coefficient : Nat
  /-- The power of ten that scales them. -/
  exponent : Int
  deriving DecidableEq, Inhabited

namespace Decimal

/-- The numerator of the value as a fraction. -/
def num (d : Decimal) : Nat := d.coefficient * Nat.pow 10 d.exponent.toNat

/-- The denominator of the value as a fraction. -/
def den (d : Decimal) : Nat := Nat.pow 10 (-d.exponent).toNat

/-- Whether the value is so high that it is above every finite number whatever its digits. -/
def isHuge (d : Decimal) : Bool := d.coefficient != 0 && decide (400 < d.exponent)

/-- Whether the value is zero, or so low that it rounds to zero whatever its digits. -/
def isTiny (d : Decimal) : Bool :=
  d.coefficient == 0 || decide ((d.coefficient.log2 : Int) + 1 + 3 * d.exponent < -1100)

/-- The pattern of the nearest number. -/
def toPattern (d : Decimal) : Nat :=
  if d.isHuge then infinitePattern
  else if d.isTiny then 0
  else nearestPattern d.num d.den

/-- The nearest number, with a sign. -/
def toFloat (d : Decimal) (negative : Bool) : Float := ofPattern negative d.toPattern

/-- Drops the zeros at the end of the coefficient. -/
def normalize (d : Decimal) : Decimal := go d.coefficient.log2 d
where
  /-- Drops at most as many zeros as the first argument says. -/
  go : Nat → Decimal → Decimal
    | 0, d => d
    | steps + 1, d =>
      if d.coefficient % 10 = 0 then go steps ⟨d.coefficient / 10, d.exponent + 1⟩ else d

end Decimal

/-- Which of two neighbours on a grid a point halfway between them goes to. -/
inductive Tie where
  /-- The upper one. -/
  | up
  /-- The one whose last digit is even. -/
  | even
  deriving DecidableEq, Inhabited

/-- Whether a point halfway between `low` and its successor goes to the successor. -/
def Tie.goesUp (tie : Tie) (low : Nat) : Bool :=
  match tie with
  | up => true
  | even => low % 2 == 1

/-- The exponent of the leading decimal digit of a positive magnitude. -/
def leadingExponent (magnitude : Nat) : Int :=
  let guess := (((magnitude.log2 : Int) - 1074) * 30103).fdiv 100000
  let next := guess + 1
  if Nat.pow 10 next.toNat * one ≤ magnitude * Nat.pow 10 (-next).toNat then next else guess

/-- The decimals on the grid of `10 ^ exponent` next to a magnitude, the nearer one first. -/
def neighbours (tie : Tie) (magnitude : Nat) (exponent : Int) : List Decimal :=
  let point := magnitude * Nat.pow 10 (-exponent).toNat
  let step := Nat.pow 10 exponent.toNat * one
  let low := point / step
  let isUpper := match compare ((2 * low + 1) * step) (2 * point) with
    | .lt => true
    | .eq => tie.goesUp low
    | .gt => false
  if isUpper then [⟨low + 1, exponent⟩, ⟨low, exponent⟩]
  else [⟨low, exponent⟩, ⟨low + 1, exponent⟩]

/-- The decimals tried for a magnitude, those with the fewest digits first. -/
def candidates (tie : Tie) (magnitude : Nat) : List Decimal :=
  let lead := leadingExponent magnitude
  (List.range 17).flatMap fun (n : Nat) => neighbours tie magnitude (lead - n)

/-- The exact value of a magnitude. -/
def exact (magnitude : Nat) : Decimal := ⟨magnitude * Nat.pow 5 1074, -1074⟩

/-- The shortest decimal that reads back as the finite number of pattern `k`.  Whole numbers below
`2 ^ 53` are their own digits. -/
def shortest (tie : Tie) (k : Nat) : Decimal :=
  let u := units k
  if u % one = 0 ∧ u < 2 * binade * one then ⟨u / one, 0⟩
  else
    match (candidates tie u).find? (fun d => roundsTo k d.num d.den) with
    | some d => d.normalize
    | none => exact u

end IncrementalGame.Binary64
