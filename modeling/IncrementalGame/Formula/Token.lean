import IncrementalGame.Binary64.Text
import IncrementalGame.Text.Blank
import IncrementalGame.Text.Quoted

/-!
# The words of a formula

A formula is read as a row of tokens, each with the byte offset of its first character.

* A number is a run of digits and points; it needs a digit and may have one point.
* A text stands between two equal quotes and holds any other character as it is.
* A name starts with a letter or an underscore.  Behind it one of the statistics `:max`, `:earned`
  and `:ps` belongs to it, unless the word goes on: `gold:max` is one name, while the colon of
  `a ? b:c` is a token of its own.
* What separates tokens is one of the five ASCII blanks.

`Token.first` cuts one token off the front of a text.  It reports the characters it took, so that
nothing between the tokens can be lost (`first_eq`).
-/

namespace IncrementalGame.Formula

/-- A token. -/
inductive Token where
  | number (x : Float)
  | text (s : String)
  | name (s : String)
  | plus | minus | star | slash | percent
  | eq | notEq | lt | ltEq | gt | gtEq
  | andAnd | orOr | bang
  | question | colon | leftParen | rightParen | comma
  deriving DecidableEq, Inhabited

/-- A token and the byte offset of its first character. -/
structure Placed where
  token : Token
  /-- Where it starts. -/
  offset : Nat
  deriving DecidableEq, Inhabited

/-- What a parser may miss at some point. -/
inductive Missing where
  | colon
  | closing
  | argumentEnd
  deriving DecidableEq, Inhabited

/-- Why a text is no formula. -/
inductive Fault where
  | unexpectedCharacter (c : Char)
  | unterminatedText
  | malformedNumber (spelling : String)
  | unexpectedToken (token : Token)
  | unexpectedEnd
  | missing (what : Missing)
  | tooManyTokens
  | tooDeep
  | bareCondition
  | unbalancedCondition
  deriving DecidableEq, Inhabited

namespace Token

/-- The name under which a token is shown in messages. -/
def describe : Token → String
  | number x => "Number(" ++ Binary64.marked .up x ++ ")"
  | text s => "Str(" ++ Text.quoted s ++ ")"
  | name s => "Ident(" ++ Text.quoted s ++ ")"
  | plus => "Plus"
  | minus => "Minus"
  | star => "Star"
  | slash => "Slash"
  | percent => "Percent"
  | eq => "Eq"
  | notEq => "NotEq"
  | lt => "Lt"
  | ltEq => "LtEq"
  | gt => "Gt"
  | gtEq => "GtEq"
  | andAnd => "AndAnd"
  | orOr => "OrOr"
  | bang => "Bang"
  | question => "Question"
  | colon => "Colon"
  | leftParen => "LParen"
  | rightParen => "RParen"
  | comma => "Comma"

/-- Whether a character only separates tokens. -/
def isSpace (c : Char) : Bool :=
  c == ' ' || c == '\t' || c == '\n' || c == '\r' || c == '\x0c'

/-- Whether a name may start with a character. -/
def isNameStart (c : Char) : Bool :=
  decide ('a' ≤ c ∧ c ≤ 'z') || decide ('A' ≤ c ∧ c ≤ 'Z') || c == '_'

/-- Whether a name may go on with a character. -/
def isNameRest (c : Char) : Bool := isNameStart c || isDigit c

/-- Whether a character belongs to the run of a number. -/
def isNumberPart (c : Char) : Bool := isDigit c || c == '.'

/-- The statistics that may follow a name. -/
def statistics : List (List Char) := [":max".toList, ":earned".toList, ":ps".toList]

/-- A token cut off the front of a text. -/
structure Cut where
  token : Token
  /-- The characters it is spelled with. -/
  spelling : List Char
  rest : List Char
  deriving Inhabited

/-- The statistic at the front of a text; it ends where a word ends. -/
def statisticOf (s : List Char) : List Char :=
  let fits (word : List Char) : Bool :=
    word.isPrefixOf s && !((s.drop word.length).head?.any isNameRest)
  (statistics.find? fits).getD []

/-- The number that a run of digits and points spells. -/
def numeral? (run : List Char) : Option Numeral :=
  match run.takeWhile isDigit, run.dropWhile isDigit with
  | whole, [] => some ⟨whole, [], 0⟩
  | whole, _ :: fraction =>
    if fraction.all isDigit ∧ whole ++ fraction ≠ [] then some ⟨whole, fraction, 0⟩ else none

/-- Cuts a number off. -/
def cutNumber (s : List Char) : Except Fault Cut :=
  let run := s.takeWhile isNumberPart
  match numeral? run with
  | some n => .ok ⟨.number (n.value.toFloat false), run, s.dropWhile isNumberPart⟩
  | none => .error (.malformedNumber (String.ofList run))

/-- Cuts a text off, behind its opening quote. -/
def cutText (quote : Char) (s : List Char) : Except Fault Cut :=
  let content := s.takeWhile (· != quote)
  match s.dropWhile (· != quote) with
  | [] => .error .unterminatedText
  | close :: rest => .ok ⟨.text (String.ofList content), quote :: content ++ [close], rest⟩

/-- Cuts a name off. -/
def cutName (s : List Char) : Cut :=
  let word := s.takeWhile isNameRest
  let rest := s.dropWhile isNameRest
  let spelling := word ++ statisticOf rest
  ⟨.name (String.ofList spelling), spelling, rest.drop (statisticOf rest).length⟩

/-- Cuts an operator or a bracket off. -/
def cutSymbol : List Char → Except Fault Cut
  | '=' :: '=' :: rest => .ok ⟨.eq, ['=', '='], rest⟩
  | '!' :: '=' :: rest => .ok ⟨.notEq, ['!', '='], rest⟩
  | '!' :: rest => .ok ⟨.bang, ['!'], rest⟩
  | '<' :: '=' :: rest => .ok ⟨.ltEq, ['<', '='], rest⟩
  | '<' :: rest => .ok ⟨.lt, ['<'], rest⟩
  | '>' :: '=' :: rest => .ok ⟨.gtEq, ['>', '='], rest⟩
  | '>' :: rest => .ok ⟨.gt, ['>'], rest⟩
  | '&' :: '&' :: rest => .ok ⟨.andAnd, ['&', '&'], rest⟩
  | '|' :: '|' :: rest => .ok ⟨.orOr, ['|', '|'], rest⟩
  | '+' :: rest => .ok ⟨.plus, ['+'], rest⟩
  | '-' :: rest => .ok ⟨.minus, ['-'], rest⟩
  | '*' :: rest => .ok ⟨.star, ['*'], rest⟩
  | '/' :: rest => .ok ⟨.slash, ['/'], rest⟩
  | '%' :: rest => .ok ⟨.percent, ['%'], rest⟩
  | '?' :: rest => .ok ⟨.question, ['?'], rest⟩
  | ':' :: rest => .ok ⟨.colon, [':'], rest⟩
  | '(' :: rest => .ok ⟨.leftParen, ['('], rest⟩
  | ')' :: rest => .ok ⟨.rightParen, [')'], rest⟩
  | ',' :: rest => .ok ⟨.comma, [','], rest⟩
  | c :: _ => .error (.unexpectedCharacter c)
  | [] => .error .unexpectedEnd

/-- Cuts one token off a text that starts with the character `c`. -/
def first (c : Char) (rest : List Char) : Except Fault Cut :=
  if isNumberPart c then cutNumber (c :: rest)
  else if c = '\'' ∨ c = '"' then cutText c rest
  else if isNameStart c then .ok (cutName (c :: rest))
  else cutSymbol (c :: rest)

/-- The tokens of a text that starts at byte `offset`.  The first argument bounds their number; it
is never reached, because every token takes a character. -/
def scan : Nat → Nat → List Char → Except (Nat × Fault) (List Placed)
  | _, _, [] => .ok []
  | 0, _, _ :: _ => .ok []
  | fuel + 1, offset, c :: rest =>
    if isSpace c then scan fuel (offset + 1) rest
    else
      match first c rest with
      | .error fault => .error (offset, fault)
      | .ok cut =>
        match scan fuel (offset + Text.byteLength cut.spelling) cut.rest with
        | .error e => .error e
        | .ok tokens => .ok (⟨cut.token, offset⟩ :: tokens)

/-- The tokens of a formula, or the offset at which there is none and why. -/
def tokenize (s : List Char) : Except (Nat × Fault) (List Placed) := scan s.length 0 s

end Token

end IncrementalGame.Formula
