import IncrementalGame.Binary64.Decimal

/-!
# Binary64 numbers as text

Two written forms are in use, and both carry the shortest digits that read back.

* `plain` is positional at every size and has no point unless there is a fraction: `10`, `0.1`,
  `1000000000000000000000`, `-0`.  Messages are written in it.
* `marked` always shows that it is no integer: it keeps `.0`, and from `10 ^ 16` on and below
  `10 ^ -4` it has an exponent: `2.0`, `1e16`, `1.5e-7`.  Token names in syntax errors and
  snapshots are written in it.

In messages a tie between two decimals goes up, and in snapshots to the even one.

`Numeral` is the unsigned text of a number taken apart, digits before and after the point and
exponent, and its value is the decimal it denotes.
-/

namespace IncrementalGame

/-- The decimal digits of a natural number. -/
def digitsOf (n : Nat) : List Char := Nat.toDigits 10 n

/-- The value of a digit. -/
def digitValue (c : Char) : Nat := c.toNat - '0'.toNat

/-- Whether a character is one of the ten digits. -/
def isDigit (c : Char) : Bool := decide ('0' ≤ c ∧ c ≤ '9')

/-- The number that a row of digits denotes. -/
def valueOf (digits : List Char) : Nat := digits.foldl (fun n c => n * 10 + digitValue c) 0

/-- The text of a number without its sign: digits before and after the point, and the exponent. -/
structure Numeral where
  /-- The digits before the point. -/
  whole : List Char
  /-- The digits after the point. -/
  fraction : List Char
  /-- The power of ten written behind them. -/
  exponent : Int
  deriving DecidableEq, Inhabited

/-- The decimal that a numeral denotes. -/
def Numeral.value (n : Numeral) : Binary64.Decimal :=
  ⟨valueOf (n.whole ++ n.fraction), n.exponent - n.fraction.length⟩

namespace Binary64

/-- The digits of a decimal with a point where it belongs, and none in a whole number. -/
def Decimal.positional (d : Decimal) : List Char :=
  let digits := digitsOf d.coefficient
  let places := (-d.exponent).toNat
  if places = 0 then digits ++ List.replicate d.exponent.toNat '0'
  else if places < digits.length then
    digits.take (digits.length - places) ++ '.' :: digits.drop (digits.length - places)
  else '0' :: '.' :: List.replicate (places - digits.length) '0' ++ digits

/-- The digits of a decimal with a point behind the first one, and an exponent. -/
def Decimal.scientific (d : Decimal) : List Char :=
  let digits := digitsOf d.coefficient
  let exponent := d.exponent + (digits.length - 1 : Nat)
  let sign := if exponent < 0 then ['-'] else []
  digits.take 1 ++ (if digits.length = 1 then [] else '.' :: digits.drop 1) ++
    'e' :: sign ++ digitsOf exponent.natAbs

/-- The sign of a number as it is written. -/
def signText (x : Float) : List Char := if isNegative x then ['-'] else []

/-- The positional text of a number, without a point where there is no fraction. -/
def plain (x : Float) : String :=
  if x.isNaN then "NaN"
  else
    String.ofList (signText x ++
      if x.isInf then "inf".toList else (shortest .up (pattern x)).positional)

/-- The text of a number that shows it is no integer. -/
def marked (tie : Tie) (x : Float) : String :=
  if x.isNaN then "NaN"
  else if x.isInf then String.ofList (signText x ++ "inf".toList)
  else
    let d := shortest tie (pattern x)
    String.ofList (signText x ++
      if x != 0.0 && (x.abs < 1e-4 || 1e16 ≤ x.abs) then d.scientific
      else if d.exponent < 0 then d.positional
      else d.positional ++ ['.', '0'])

/-! ## Reading -/

/-- The exponent at the end of a numeral: nothing, or a letter, a sign and digits. -/
def exponentOf? : List Char → Option Int
  | [] => some 0
  | c :: rest =>
    if c = 'e' ∨ c = 'E' then
      let (negative, ds) := match rest with
        | '-' :: ds => (true, ds)
        | '+' :: ds => (false, ds)
        | ds => (false, ds)
      if ds ≠ [] ∧ ds.all isDigit then some (if negative then -(valueOf ds : Int) else valueOf ds)
      else none
    else none

/-- A numeral without its sign: digits, of which there is at least one, a point somewhere among
them or none, and an exponent or none. -/
def numeralOf? (s : List Char) : Option Numeral :=
  let whole := s.takeWhile isDigit
  let (fraction, rest) := match s.dropWhile isDigit with
    | '.' :: rest => (rest.takeWhile isDigit, rest.dropWhile isDigit)
    | rest => ([], rest)
  if whole ++ fraction = [] then none
  else (exponentOf? rest).map fun e => ⟨whole, fraction, e⟩

/-- The words for numbers that no digits denote; capitals do not matter. -/
def wordOf? (negative : Bool) (s : List Char) : Option Float :=
  match String.ofList (s.map Char.toLower) with
  | "inf" | "infinity" => some (ofPattern negative infinitePattern)
  | "nan" => some notANumber
  | _ => none

/-- Reads a number, with a sign or without: the nearest binary64 number to a numeral, infinity, or
no number. -/
def ofText? (s : List Char) : Option Float :=
  let (negative, rest) := match s with
    | '-' :: rest => (true, rest)
    | '+' :: rest => (false, rest)
    | s => (false, s)
  match numeralOf? rest with
  | some n => some (n.value.toFloat negative)
  | none => wordOf? negative rest

/-- Two numbers are the same if their bits are; there is one value that is no number. -/
def same (x y : Float) : Bool := x.toBits == y.toBits

end Binary64

end IncrementalGame
