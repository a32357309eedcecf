import IncrementalGame.Formula.Error

/-!
# Values inside a formula

Formulas compute with numbers, truth values and texts.  Where a number is needed a truth value
counts as one or zero, and where a truth value is needed every number but zero counts as true; a
text is neither.  A whole formula may amount to a finite number or to a truth value.
-/

namespace IncrementalGame.Formula

/-- A value inside a formula. -/
inductive Value where
  | number (x : Float)
  | bool (b : Bool)
  | text (s : String)
  deriving DecidableEq, Inhabited

/-- One for true, zero for false. -/
def numberOf (b : Bool) : Float := if b then 1.0 else 0.0

namespace Value

/-- The number that a value counts as. -/
def toNumber? : Value → Option Float
  | number x => some x
  | bool b => some (numberOf b)
  | text _ => none

/-- The truth value that a value counts as. -/
def toBool? : Value → Option Bool
  | number x => some (x != 0.0)
  | bool b => some b
  | text _ => none

/-- What a value is called in messages. -/
def kind : Value → String
  | number _ => "numeric"
  | bool _ => "boolean"
  | text _ => "string"

/-- The number under an operator or in an argument. -/
def asNumber (function : String) (v : Value) : Except EvalError Float :=
  match v.toNumber? with
  | some x => .ok x
  | none => .error (.argument function .numeric)

/-- The truth value under an operator. -/
def asBool (operator : String) (v : Value) : Except EvalError Bool :=
  match v.toBool? with
  | some b => .ok b
  | none => .error (.argument (operator ++ " (" ++ v.kind ++ " operand)") .boolean)

/-- What a whole formula amounts to. -/
def result : Value → Except EvalError Float
  | number x => if x.isFinite then .ok x else .error (.result .notFinite)
  | bool b => .ok (numberOf b)
  | text _ => .error (.result .text)

end Value

end IncrementalGame.Formula
