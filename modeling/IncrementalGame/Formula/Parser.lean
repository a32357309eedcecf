import IncrementalGame.Formula.Expr
import IncrementalGame.Formula.Token

/-!
# From tokens to a formula tree

Precedence, loosest first: the ternary `a ? b : c`, which groups to the right; then six levels of
binary operators, each of which groups to the left (`levels`); then the prefixes `-`, `!` and `+`;
then numbers, texts, names, calls and parentheses.

A binary level is the same program at every height, `chain`: an operand of the next level, then as
long as one of its operators follows, another operand.  The recursion of the parser is therefore on
the nesting alone.  Every ternary and every prefix opens one level of it, a parenthesis or an
argument one of each, and `maxDepth` levels may be open at once; a text of more than `maxTokens`
tokens is refused before it is parsed.
-/

namespace IncrementalGame.Formula

/-- How many levels of nesting may be open at once. -/
def maxDepth : Nat := 128

/-- How many tokens a formula may have. -/
def maxTokens : Nat := 1024

/-- What a parser answers: a result and the tokens behind it, or where it failed and why. -/
abbrev Parsed (α : Type) := Except (Nat × Fault) (α × List Placed)

/-- The operators of each binary level, loosest first. -/
def levels : List (Token → Option BinaryOp) :=
  [ fun | .orOr => some .or | _ => none,
    fun | .andAnd => some .and | _ => none,
    fun | .eq => some .eq | .notEq => some .notEq | _ => none,
    fun | .lt => some .lt | .ltEq => some .ltEq | .gt => some .gt | .gtEq => some .gtEq | _ => none,
    fun | .plus => some .add | .minus => some .sub | _ => none,
    fun | .star => some .mul | .slash => some .div | .percent => some .rem | _ => none ]

/-- The offset of the next token; behind the last one it is the end of the text. -/
def offsetOf (finish : Nat) : List Placed → Nat
  | [] => finish
  | t :: _ => t.offset

/-- The rest of a row of operands, each of them behind an operator of one level.  The first argument
bounds their number. -/
def chainRest (operator : Token → Option BinaryOp) (operand : List Placed → Parsed Expr) :
    Nat → Expr → List Placed → Parsed Expr
  | _, left, [] => .ok (left, [])
  | 0, left, tokens => .ok (left, tokens)
  | fuel + 1, left, t :: tokens =>
    match operator t.token with
    | none => .ok (left, t :: tokens)
    | some op =>
      match operand tokens with
      | .error e => .error e
      | .ok (right, rest) => chainRest operator operand fuel (.binary op left right) rest

/-- A row of operands between operators of one level, grouped to the left. -/
def chain (operator : Token → Option BinaryOp) (operand : List Placed → Parsed Expr)
    (tokens : List Placed) : Parsed Expr :=
  match operand tokens with
  | .error e => .error e
  | .ok (left, rest) => chainRest operator operand rest.length left rest

/-- All binary levels over one kind of operand. -/
def binaryLevels (operand : List Placed → Parsed Expr) : List Placed → Parsed Expr :=
  levels.foldr chain operand

/-- Takes one expected token. -/
def expect (finish : Nat) (token : Token) (what : Missing) (tokens : List Placed) :
    Except (Nat × Fault) (List Placed) :=
  match tokens with
  | t :: rest => if t.token = token then .ok rest else .error (t.offset, .missing what)
  | [] => .error (finish, .missing what)

/-- The arguments of a call behind its opening parenthesis, of which there is at least one.  The
number bounds them. -/
def argumentsOf (finish : Nat) (argument : List Placed → Parsed Expr) :
    Nat → List Placed → Parsed (List Expr)
  | 0, tokens => .error (offsetOf finish tokens, .missing .argumentEnd)
  | fuel + 1, tokens =>
    match argument tokens with
    | .error e => .error e
    | .ok (e, ⟨.rightParen, _⟩ :: rest) => .ok ([e], rest)
    | .ok (e, ⟨.comma, _⟩ :: rest) =>
      match argumentsOf finish argument fuel rest with
      | .error e => .error e
      | .ok (es, rest) => .ok (e :: es, rest)
    | .ok (_, rest) => .error (offsetOf finish rest, .missing .argumentEnd)

/-- A number, text, name, call or parenthesis; `inner` parses what stands inside. -/
def primary (finish : Nat) (inner : List Placed → Parsed Expr) : List Placed → Parsed Expr
  | [] => .error (finish, .unexpectedEnd)
  | ⟨.number x, _⟩ :: rest => .ok (.number x, rest)
  | ⟨.text s, _⟩ :: rest => .ok (.text s, rest)
  | ⟨.name f, _⟩ :: ⟨.leftParen, _⟩ :: ⟨.rightParen, _⟩ :: rest => .ok (.call f [], rest)
  | ⟨.name f, _⟩ :: ⟨.leftParen, _⟩ :: rest =>
    match argumentsOf finish inner (rest.length + 1) rest with
    | .error e => .error e
    | .ok (es, rest) => .ok (.call f es, rest)
  | ⟨.name s, _⟩ :: rest => .ok (.var s, rest)
  | ⟨.leftParen, _⟩ :: rest =>
    match inner rest with
    | .error e => .error e
    | .ok (e, rest) =>
      match expect finish .rightParen .closing rest with
      | .error e => .error e
      | .ok rest => .ok (e, rest)
  | ⟨token, offset⟩ :: _ => .error (offset, .unexpectedToken token)

mutual

/-- A ternary or what is tighter.  The number is how many levels may still be opened. -/
def ternary (finish : Nat) : Nat → List Placed → Parsed Expr
  | 0, tokens => .error (offsetOf finish tokens, .tooDeep)
  | depth + 1, tokens =>
    match binaryLevels (prefixed finish depth) tokens with
    | .error e => .error e
    | .ok (condition, ⟨.question, _⟩ :: rest) =>
      match ternary finish depth rest with
      | .error e => .error e
      | .ok (yes, rest) =>
        match expect finish .colon .colon rest with
        | .error e => .error e
        | .ok rest =>
          match ternary finish depth rest with
          | .error e => .error e
          | .ok (no, rest) => .ok (.ternary condition yes no, rest)
    | .ok result => .ok result

/-- An operand with its prefixes; a plus sign leaves no trace. -/
def prefixed (finish : Nat) : Nat → List Placed → Parsed Expr
  | 0, tokens => .error (offsetOf finish tokens, .tooDeep)
  | depth + 1, tokens =>
    match tokens with
    | ⟨.minus, _⟩ :: rest =>
      match prefixed finish depth rest with
      | .error e => .error e
      | .ok (e, rest) => .ok (.unary .neg e, rest)
    | ⟨.bang, _⟩ :: rest =>
      match prefixed finish depth rest with
      | .error e => .error e
      | .ok (e, rest) => .ok (.unary .not e, rest)
    | ⟨.plus, _⟩ :: rest => prefixed finish depth rest
    | tokens => primary finish (ternary finish depth) tokens

end

/-- The tree of a row of tokens that end at byte `finish`. -/
def parseTokens (finish : Nat) (tokens : List Placed) : Except (Nat × Fault) Expr :=
  match tokens[maxTokens]? with
  | some t => .error (t.offset, .tooManyTokens)
  | none =>
    match ternary finish maxDepth tokens with
    | .error e => .error e
    | .ok (e, []) => .ok e
    | .ok (_, t :: _) => .error (t.offset, .unexpectedToken t.token)

/-- The tree of a text. -/
def parseText (s : List Char) : Except (Nat × Fault) Expr :=
  match Token.tokenize s with
  | .error e => .error e
  | .ok tokens => parseTokens (Text.byteLength s) tokens

end IncrementalGame.Formula
