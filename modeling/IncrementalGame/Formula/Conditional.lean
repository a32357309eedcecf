import IncrementalGame.Formula.Token

/-!
# Formulas that start with `if`

`if (condition) consequent` is another spelling of `(condition) ? (consequent) : 0`, and a missing
consequent is `1`.  Inside the condition the words `and` and `or` stand for `&&` and `||`, unless
they are called like a function; texts between quotes are left alone.

`desugar` spells such a formula out, and trims every other one of the blanks around it.  Offsets in
its errors count bytes of the trimmed formula.
-/

namespace IncrementalGame.Formula

/-- The quote that is open behind a character, if one is. -/
def quoteAfter (quote : Option Char) (c : Char) : Option Char :=
  match quote with
  | some q => if c = q then none else some q
  | none => if c = '\'' ∨ c = '"' then some c else none

/-- Splits a text behind the parenthesis that closes the `depth` open ones. -/
def splitBalanced : Option Char → Nat → List Char → Option (List Char × List Char)
  | _, _, [] => none
  | quote, depth, c :: rest =>
    let go (depth : Nat) : Option (List Char × List Char) :=
      (splitBalanced (quoteAfter quote c) depth rest).map fun (taken, rest) => (c :: taken, rest)
    if quote.isNone ∧ c = '(' then go (depth + 1)
    else if quote.isNone ∧ c = ')' then
      match depth with
      | 0 => none
      | 1 => some ([c], rest)
      | depth + 1 => go depth
    else go depth

/-- Whether a word of a condition goes on with a character. -/
def isWordRest (c : Char) : Bool := Token.isNameRest c || c == ':'

/-- How a word of a condition is written in a formula; `rest` is what follows it. -/
def wordOperator (word rest : List Char) : List Char :=
  if (Text.trimStart rest).head? = some '(' then word
  else if word = "and".toList then "&&".toList
  else if word = "or".toList then "||".toList
  else word

/-- Writes the words `and` and `or` as operators.  The number bounds the steps. -/
def replaceWords : Nat → Option Char → List Char → List Char
  | _, _, [] => []
  | 0, _, s => s
  | fuel + 1, quote, c :: rest =>
    if quote.isNone && Token.isNameStart c then
      let word := c :: rest.takeWhile isWordRest
      let rest := rest.dropWhile isWordRest
      wordOperator word rest ++ replaceWords fuel none rest
    else c :: replaceWords fuel (quoteAfter quote c) rest

/-- Writes the words `and` and `or` of a condition as operators. -/
def symbolic (condition : List Char) : List Char := replaceWords condition.length none condition

/-- The word that starts a conditional formula. -/
def ifWord : List Char := "if ".toList

/-- Spells out the part of a conditional formula behind its first word, which starts at byte
`offset`. -/
def desugarBody (offset : Nat) (body : List Char) : Except (Nat × Fault) (List Char) :=
  if body.head? ≠ some '(' then .error (offset, .bareCondition)
  else
    match splitBalanced none 0 body with
    | none => .error (offset, .unbalancedCondition)
    | some (condition, rest) =>
      let consequent := Text.trim rest
      let consequent := if consequent = [] then ['1'] else consequent
      .ok (symbolic condition ++ " ? (".toList ++ consequent ++ ") : 0".toList)

/-- Trims a formula, and spells it out if it is a conditional one. -/
def desugar (formula : List Char) : Except (Nat × Fault) (List Char) :=
  let trimmed := Text.trim formula
  match Text.stripStart ifWord trimmed with
  | none => .ok trimmed
  | some rest =>
    let body := Text.trimStart rest
    desugarBody (Text.byteLength trimmed - Text.byteLength body) body

end IncrementalGame.Formula
