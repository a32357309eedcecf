import IncrementalGame.Formula.Value
import IncrementalGame.KeyMap
import IncrementalGame.Random.Draw

/-!
# The functions of formulas

The functions that a formula may call, with the number of arguments each takes and whether its
result hangs on chance.  `Builtin.apply` is their meaning: from checked arguments, a snapshot of
variables and a generator to a value or an error, and the generator behind it.

The number of arguments is checked first, then each argument in turn, and nothing is drawn before
all of them are right.
-/

namespace IncrementalGame.Formula

open IncrementalGame.Random (Generator)

/-- The variables that a formula sees. -/
abbrev Variables := KeyMap Float

/-- A computation that may draw, and may fail or be broken off; what it has drawn stays drawn then. -/
abbrev Drawing (α : Type) := ExceptT EvalError (StateM Generator) α

/-- A result that nothing was drawn for. -/
def Drawing.ofExcept {α : Type} (e : Except EvalError α) : Drawing α := fun g => (e, g)

/-- A result that was drawn. -/
def Drawing.ofDraw {α : Type} (draw : Generator → α × Generator) : Drawing α := fun g =>
  let (x, g) := draw g
  (.ok x, g)

/-- How many arguments a function takes. -/
inductive Arity where
  | exactly (n : Nat)
  | between (low high : Nat)
  | atLeast (n : Nat)
  deriving DecidableEq, Inhabited

namespace Arity

/-- Whether so many arguments are right. -/
def accepts : Arity → Nat → Bool
  | exactly n, count => count == n
  | between low high, count => decide (low ≤ count ∧ count ≤ high)
  | atLeast n, count => decide (n ≤ count)

/-- The fewest arguments. -/
def least : Arity → Nat
  | exactly n => n
  | between low _ => low
  | atLeast n => n

/-- The most arguments, if there is a limit. -/
def most : Arity → Option Nat
  | exactly n => some n
  | between _ high => some high
  | atLeast _ => none

/-- The wording of an arity. -/
def describe : Arity → String
  | exactly n => toString n
  | between low high => toString low ++ " or " ++ toString high
  | atLeast n => "at least " ++ toString n

end Arity

/-- A function that formulas may call. -/
inductive Builtin where
  | isPresent | isAbsent
  | randomInteger | randomReal | chance
  | min | max | floor | ceil | round | randomRound | pow
  | and | or
  deriving DecidableEq, Inhabited

namespace Builtin

/-- All functions. -/
def all : List Builtin :=
  [isPresent, isAbsent, randomInteger, randomReal, chance, min, max, floor, ceil, round,
    randomRound, pow, and, or]

/-- The name under which a function is called. -/
def name : Builtin → String
  | isPresent => "have"
  | isAbsent => "no"
  | randomInteger => "random"
  | randomReal => "frandom"
  | chance => "chance"
  | min => "min"
  | max => "max"
  | floor => "floor"
  | ceil => "ceil"
  | round => "round"
  | randomRound => "roundr"
  | pow => "pow"
  | and => "and"
  | or => "or"

/-- The function of a name. -/
def ofName? (name : String) : Option Builtin := all.find? (fun b => b.name == name)

/-- How many arguments a function takes. -/
def arity : Builtin → Arity
  | randomInteger | randomReal => .between 1 2
  | min | max | pow => .exactly 2
  | and | or => .atLeast 2
  | _ => .exactly 1

/-- Whether a result hangs on chance. -/
def isRandom : Builtin → Bool
  | randomInteger | randomReal | chance | randomRound => true
  | _ => false

/-- Whether a name is that of a function whose result hangs on chance. -/
def isRandomName (name : String) : Bool := (ofName? name).any isRandom

/-- The arguments of a function as numbers. -/
def numbers (function : String) : List Value → Except EvalError (List Float)
  | [] => .ok []
  | v :: rest => do
    let x ← v.asNumber function
    let xs ← numbers function rest
    return x :: xs

/-- The arguments of a function as truth values; nothing else counts as one here. -/
def bools (function : String) : List Value → Except EvalError (List Bool)
  | [] => .ok []
  | .bool b :: rest => do
    let bs ← bools function rest
    return b :: bs
  | _ :: _ => .error (.argument function .boolean)

/-- The two arguments of a draw, of which the first may be left out and is zero then. -/
def boundPair (function : String) : List Value → Except EvalError (Float × Float)
  | [] => .error (.arity function "1 or 2" 0)
  | [high] => do
    let high ← high.asNumber function
    return (0.0, high)
  | low :: high :: _ => do
    let low ← low.asNumber function
    let high ← high.asNumber function
    return (low, high)

/-- The bounds of a draw: finite numbers, the lower one not above the upper one. -/
def bounds (function : String) (args : List Value) : Except EvalError (Float × Float) :=
  match boundPair function args with
  | .error e => .error e
  | .ok (low, high) =>
    if high < low || !low.isFinite || !high.isFinite then .error (.argument function .bounds)
    else .ok (low, high)

/-- Whether a key is present among the variables: it is listed with a positive number. -/
def present (vars : Variables) (key : String) : Bool :=
  match vars.get? key with
  | some x => decide (0.0 < x)
  | none => false

/-- A key given to a function as a text. -/
def keyOf (function : String) : List Value → Except EvalError String
  | .text key :: _ => .ok key
  | _ => .error (.argument function .text)

/-- An integer between two bounds, rounded inward; where no integer lies between them, the lower
bound rounded up. -/
def drawInteger (low high : Float) : Drawing Float :=
  let low := Binary64.ceil low
  let high := Binary64.floor high
  if high < low then pure low
  else do
    let n ← Drawing.ofDraw (·.integer (Binary64.toInt64 low) (Binary64.toInt64 high))
    return Binary64.ofInt n

/-- A number between two bounds; where they hardly differ, the lower one.  Where their distance is
not finite there is no draw, and the computation is broken off before anything is drawn. -/
def drawReal (low high : Float) : Drawing Float :=
  if (high - low).abs < Binary64.epsilon then pure low
  else if (high - low).isFinite then Drawing.ofDraw (·.real low high)
  else throw .unboundedDraw

/-- A number rounded up with the probability of its fraction, and down otherwise. -/
def drawRound (x : Float) : Drawing Float :=
  let fraction := x - Binary64.floor x
  if fraction == 0.0 then pure x
  else do
    let roll ← Drawing.ofDraw (·.unit)
    return if roll < fraction then Binary64.ceil x else Binary64.floor x

/-- A function of one number. -/
def unaryNumber (f : Builtin) (args : List Value) (g : Float → Drawing Value) : Drawing Value := do
  match ← Drawing.ofExcept (numbers f.name args) with
  | x :: _ => g x
  | [] => throw (.arity f.name f.arity.describe 0)

/-- A function of two numbers. -/
def binaryNumber (f : Builtin) (args : List Value) (g : Float → Float → Float) : Drawing Value := do
  match ← Drawing.ofExcept (numbers f.name args) with
  | x :: y :: _ => return .number (g x y)
  | _ => throw (.arity f.name f.arity.describe args.length)

/-- The meaning of a function on arguments of the right number. -/
def run (f : Builtin) (vars : Variables) (args : List Value) : Drawing Value :=
  match f with
  | isPresent => do
    let key ← Drawing.ofExcept (keyOf f.name args)
    return .bool (present vars key)
  | isAbsent => do
    let key ← Drawing.ofExcept (keyOf f.name args)
    return .bool (!present vars key)
  | randomInteger => do
    let (low, high) ← Drawing.ofExcept (bounds f.name args)
    return .number (← drawInteger low high)
  | randomReal => do
    let (low, high) ← Drawing.ofExcept (bounds f.name args)
    return .number (← drawReal low high)
  | chance => unaryNumber f args fun p => do return .bool (← Drawing.ofDraw (·.percent p))
  | min => binaryNumber f args Binary64.lesser
  | max => binaryNumber f args Binary64.greater
  | floor => unaryNumber f args fun x => return .number (Binary64.floor x)
  | ceil => unaryNumber f args fun x => return .number (Binary64.ceil x)
  | round => unaryNumber f args fun x => return .number (Binary64.round x)
  | randomRound => unaryNumber f args fun x => do return .number (← drawRound x)
  | pow => binaryNumber f args Float.pow
  | and => do
    let bs ← Drawing.ofExcept (bools f.name args)
    return .bool (bs.all id)
  | or => do
    let bs ← Drawing.ofExcept (bools f.name args)
    return .bool (bs.any id)

/-- The meaning of a function. -/
def apply (f : Builtin) (vars : Variables) (args : List Value) : Drawing Value :=
  if f.arity.accepts args.length then f.run vars args
  else throw (.arity f.name f.arity.describe args.length)

end Builtin

end IncrementalGame.Formula
