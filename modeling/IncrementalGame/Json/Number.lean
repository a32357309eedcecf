import IncrementalGame.Json.Document

/-!
# JSON numbers

What the text of a JSON number means.  A number without point and exponent is an integer if it fits
into one of the two 64-bit ranges; `-0` is the negative zero, and any other number is a binary64
number.

Such a number is read fast and not always as the nearest one.  Its digits are taken from the front
as long as they make a number below `2 ^ 64`; the others are left out, and those before the point
count as places.  What was taken is rounded, and then multiplied or divided by a power of ten and
rounded again, so the result may be a neighbour of the nearest number.  Where the digits make a
number up to `2 ^ 53` and the power is at most `10 ^ 22`, both are exact, and the result is the
nearest number.
-/

namespace IncrementalGame

/-- A JSON number. -/
inductive Number where
  /-- An integer between `-2 ^ 63` and `2 ^ 64 - 1`. -/
  | int (n : Int)
  /-- Any other number. -/
  | real (x : Float)
  deriving Inhabited

namespace Number

/-- The nearest binary64 number. -/
def toFloat : Number → Float
  | int n => Binary64.ofInt n
  | real x => x

/-- The text of a number; there is none for what is no finite number, which is written as null. -/
def render : Number → String
  | int n => toString n
  | real x => if x.isFinite then Binary64.marked .even x else "null"

end Number

/-! ## Scaling -/

namespace Binary64

/-- The number nearest to `10 ^ k`. -/
def powerOfTen (k : Nat) : Float := Decimal.toFloat ⟨1, k⟩ false

/-- The greatest power of ten that is finite. -/
def greatestPower : Nat := 308

/-- About `x * 10 ^ e` for `x` below `2 ^ 64`: one product or quotient by a power of ten, or two
quotients if one power is not enough, and zero if two are not.  Too great a product is none. -/
def scale (x : Float) (e : Int) : Option Float :=
  if e < -(2 * greatestPower) then some 0.0
  else if e < -greatestPower then
    some (x / powerOfTen greatestPower / powerOfTen (-e - greatestPower).toNat)
  else if e < 0 then some (x / powerOfTen (-e).toNat)
  else if e ≤ greatestPower then
    let y := x * powerOfTen e.toNat
    if y.isInf then none else some y
  else if x == 0.0 then some x
  else none

end Binary64

/-! ## Reading -/

namespace Literal

/-- Takes digits behind those of `n` as long as they make a number below `2 ^ 64`, and gives the
number and the digits left out. -/
def leading (n : Nat) : List Char → Nat × List Char
  | [] => (n, [])
  | c :: rest =>
    if n * 10 + digitValue c < UInt64.size then leading (n * 10 + digitValue c) rest
    else (n, c :: rest)

/-- The number made of the digits taken, and the power of ten that belongs to it.  A digit behind the
point is taken whenever it fits, even if one before the point was left out. -/
def taken (n : Numeral) : Nat × Int :=
  let (whole, placesLeft) := leading 0 n.whole
  let (coefficient, leftOut) := leading whole n.fraction
  (coefficient,
    n.exponent + placesLeft.length - (n.fraction.length - leftOut.length : Nat))

/-- The binary64 number that a literal writes, unless it is too great. -/
def toFloat? (l : Literal) : Option Float :=
  let (coefficient, exponent) := taken l.numeral
  (Binary64.scale (Binary64.ofNat coefficient) exponent).map fun x => if l.negative then -x else x

/-- The integer that a literal writes, if it writes one: without a point, an exponent or a sign
before zero, and in one of the two 64-bit ranges. -/
def toInt? (l : Literal) : Option Int :=
  let n := valueOf l.numeral.whole
  if !l.isWhole then none
  else if l.negative then if 0 < n ∧ n ≤ 0x8000000000000000 then some (-n) else none
  else if n < UInt64.size then some n
  else none

/-- The number that a literal writes, unless it is too great. -/
def toNumber? (l : Literal) : Option Number :=
  match l.toInt? with
  | some n => some (.int n)
  | none => l.toFloat?.map .real

end Literal

end IncrementalGame
