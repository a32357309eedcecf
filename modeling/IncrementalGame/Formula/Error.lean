import IncrementalGame.Formula.Parser
import IncrementalGame.Formula.Conditional

/-!
# Why a formula has no value

The causes for which a formula has no value, and their wording.  `Fault` says why a text is no
formula; the other causes arise while a tree is evaluated.

One of them is no answer.  A real draw between bounds that are too far apart breaks off the
computation, and all that waits for it: nobody who has asked goes on (`brokenOff`).
-/

namespace IncrementalGame.Formula

/-- The wording of what is missing. -/
def Missing.describe : Missing → String
  | colon => "':' in ternary"
  | closing => "')'"
  | argumentEnd => "',' or ')' in argument list"

/-- The wording of a fault. -/
def Fault.describe : Fault → String
  | unexpectedCharacter c => "unexpected character '" ++ String.singleton c ++ "'"
  | unterminatedText => "unterminated string"
  | malformedNumber spelling => "malformed number '" ++ spelling ++ "'"
  | unexpectedToken token => "unexpected token " ++ token.describe
  | unexpectedEnd => "unexpected end of formula"
  | missing what => "expected " ++ what.describe
  | tooManyTokens => "formula longer than " ++ toString maxTokens ++ " tokens"
  | tooDeep => "formula nested deeper than " ++ toString maxDepth ++ " levels"
  | bareCondition => "if condition must be parenthesised"
  | unbalancedCondition => "invalid if statement: mismatched parentheses"

/-- What a function or an operator expects of its arguments. -/
inductive Expectation where
  | numeric
  | boolean
  | text
  | bounds
  deriving DecidableEq, Inhabited

/-- The wording of an expectation. -/
def Expectation.describe : Expectation → String
  | numeric => "numeric"
  | boolean => "boolean"
  | text => "string"
  | bounds => "finite min <= max"

/-- What a formula may not amount to. -/
inductive BadResult where
  | notFinite
  | text
  deriving DecidableEq, Inhabited

/-- The wording of a result that is none. -/
def BadResult.describe : BadResult → String
  | notFinite => "non-finite"
  | text => "string"

/-- Why a formula has no value. -/
inductive EvalError where
  /-- The text is no formula; the offset counts bytes of the text that is parsed. -/
  | malformed (offset : Nat) (fault : Fault)
  | undefinedVariable (name : String)
  | unknownFunction (name : String)
  /-- A function has the wrong number of arguments. -/
  | arity (function : String) (expected : String) (got : Nat)
  /-- An argument or operand is of the wrong kind. -/
  | argument (function : String) (expected : Expectation)
  | divisionByZero
  | result (what : BadResult)
  /-- Not an answer but the end of the computation: a real draw was asked for between bounds whose
  distance is not finite. -/
  | unboundedDraw
  deriving DecidableEq, Inhabited

/-- The wording of an error.  There is none of what was broken off. -/
def EvalError.message? : EvalError → Option String
  | malformed offset fault =>
    some ("syntax error at offset " ++ toString offset ++ ": " ++ fault.describe)
  | undefinedVariable name => some ("undefined variable: " ++ name)
  | unknownFunction name => some ("unknown function: " ++ name)
  | arity function expected got =>
    some (function ++ " expects " ++ expected ++ " argument(s), got " ++ toString got)
  | argument function expected =>
    some (function ++ " expects " ++ expected.describe ++ " argument(s)")
  | divisionByZero => some "division by zero"
  | result what => some ("formula produced a non-numeric " ++ what.describe ++ " result")
  | unboundedDraw => none

/-- Whether a computation was broken off. -/
def brokenOff {α : Type} : Except EvalError α → Bool
  | .error .unboundedDraw => true
  | _ => false

/-- The tree of a formula as it is written. -/
def parse (formula : String) : Except EvalError Expr :=
  match desugar formula.toList with
  | .error (offset, fault) => .error (.malformed offset fault)
  | .ok text =>
    match parseText text with
    | .error (offset, fault) => .error (.malformed offset fault)
    | .ok e => .ok e

/-- The text of a formula without the conditional spelling. -/
def spellOut (formula : String) : Except EvalError String :=
  match desugar formula.toList with
  | .error (offset, fault) => .error (.malformed offset fault)
  | .ok text => .ok (String.ofList text)

end IncrementalGame.Formula
