import IncrementalGame.Toml.Value

/-!
# TOML scalars

Readers for the values of TOML that hold no other values: texts in their four spellings, integers in
four bases, real numbers, and dates and times.  Each takes what it reads off the front of a text and
gives the rest, or nothing if the front is not of its kind.

Dates and times are checked against the calendar and kept as their normal text.

Some readers are given a number that bounds their steps; the length of the text is always enough.
-/

namespace IncrementalGame.Toml

/-- A reader of something at the front of a text. -/
abbrev Reader (α : Type) := List Char → Option (α × List Char)

/-- Whether a character may stand as itself in a text or in a comment; tabs and what is not ASCII
may. -/
def isPlain (c : Char) : Bool := c == '\t' || (decide (' ' ≤ c) && c != '\x7f')

/-- The rest of a text behind a line end. -/
def lineEnd? : List Char → Option (List Char)
  | '\n' :: rest => some rest
  | '\r' :: '\n' :: rest => some rest
  | _ => none

/-- Whether a character is a space or a tab. -/
def isGap (c : Char) : Bool := c == ' ' || c == '\t'

/-- Drops the spaces and tabs in front. -/
def skipGap (s : List Char) : List Char := s.dropWhile isGap

/-! ## Texts -/

/-- The number of a row of hexadecimal digits. -/
def hexValue? (s : List Char) : Option Nat :=
  s.foldl (fun n c => n.bind fun n => (Document.hexValue? c).map fun d => n * 16 + d) (some 0)

/-- The character of a row of hexadecimal digits, unless it is half of a surrogate pair or none. -/
def characterOf? (s : List Char) : Option Char := do
  let n ← hexValue? s
  if n < 0xd800 ∨ (0xe000 ≤ n ∧ n < 0x110000) then some (Char.ofNat n) else none

/-- The character of an escape behind its backslash. -/
def escape? : Reader Char
  | 'b' :: rest => some (Char.ofNat 8, rest)
  | 't' :: rest => some ('\t', rest)
  | 'n' :: rest => some ('\n', rest)
  | 'f' :: rest => some (Char.ofNat 12, rest)
  | 'r' :: rest => some ('\r', rest)
  | '"' :: rest => some ('"', rest)
  | '\\' :: rest => some ('\\', rest)
  | 'u' :: rest =>
    if rest.length < 4 then none else (characterOf? (rest.take 4)).map fun c => (c, rest.drop 4)
  | 'U' :: rest =>
    if rest.length < 8 then none else (characterOf? (rest.take 8)).map fun c => (c, rest.drop 8)
  | _ => none

/-- The characters up to a closing double quote, on one line. -/
def basicBody : Nat → Reader (List Char)
  | 0, _ => none
  | _ + 1, [] => none
  | _ + 1, '"' :: rest => some ([], rest)
  | fuel + 1, '\\' :: rest =>
    match escape? rest with
    | none => none
    | some (c, rest) => (basicBody fuel rest).map fun (cs, rest) => (c :: cs, rest)
  | fuel + 1, c :: rest =>
    if isPlain c then (basicBody fuel rest).map fun (cs, rest) => (c :: cs, rest) else none

/-- Drops spaces, tabs and line ends. -/
def skipLines : List Char → List Char
  | [] => []
  | '\n' :: rest => skipLines rest
  | '\r' :: '\n' :: rest => skipLines rest
  | c :: rest => if isGap c then skipLines rest else c :: rest

/-- The quotes that close a text of several lines: up to two more belong to the text. -/
def closing? (quote : Char) (s : List Char) : Option (List Char × List Char) :=
  let run := (s.takeWhile (· == quote)).length
  if run < 3 then none
  else
    let taken := min run 5
    some (List.replicate (taken - 3) quote, s.drop taken)

/-- The characters up to three closing double quotes. -/
def longBasicBody : Nat → Reader (List Char)
  | 0, _ => none
  | _ + 1, [] => none
  | fuel + 1, c :: rest =>
    let go (taken : List Char) (rest : List Char) : Option (List Char × List Char) :=
      (longBasicBody fuel rest).map fun (cs, rest) => (taken ++ cs, rest)
    if c = '"' then
      match closing? '"' (c :: rest) with
      | some result => some result
      | none => go [c] rest
    else if c = '\\' then
      match lineEnd? (skipGap rest) with
      | some rest => go [] (skipLines rest)
      | none =>
        match escape? rest with
        | some (c, rest) => go [c] rest
        | none => none
    else
      match lineEnd? (c :: rest) with
      | some rest => go ['\n'] rest
      | none => if isPlain c then go [c] rest else none

/-- The characters up to a closing single quote, on one line. -/
def literalBody : Reader (List Char)
  | [] => none
  | '\'' :: rest => some ([], rest)
  | c :: rest =>
    if isPlain c then (literalBody rest).map fun (cs, rest) => (c :: cs, rest) else none

/-- The characters up to three closing single quotes. -/
def longLiteralBody : Nat → Reader (List Char)
  | 0, _ => none
  | _ + 1, [] => none
  | fuel + 1, c :: rest =>
    let go (taken : List Char) (rest : List Char) : Option (List Char × List Char) :=
      (longLiteralBody fuel rest).map fun (cs, rest) => (taken ++ cs, rest)
    if c = '\'' then
      match closing? '\'' (c :: rest) with
      | some result => some result
      | none => go [c] rest
    else
      match lineEnd? (c :: rest) with
      | some rest => go ['\n'] rest
      | none => if isPlain c then go [c] rest else none

/-- Drops the line end that directly follows the opening quotes. -/
def dropFirstLineEnd (s : List Char) : List Char := (lineEnd? s).getD s

/-- A text on one line. -/
def shortText? (fuel : Nat) : Reader String
  | '"' :: rest => (basicBody fuel rest).map fun (cs, rest) => (String.ofList cs, rest)
  | '\'' :: rest => (literalBody rest).map fun (cs, rest) => (String.ofList cs, rest)
  | _ => none

/-- A text in any spelling. -/
def text? (fuel : Nat) : Reader String
  | '"' :: '"' :: '"' :: rest =>
    (longBasicBody fuel (dropFirstLineEnd rest)).map fun (cs, rest) => (String.ofList cs, rest)
  | '\'' :: '\'' :: '\'' :: rest =>
    (longLiteralBody fuel (dropFirstLineEnd rest)).map fun (cs, rest) => (String.ofList cs, rest)
  | s => shortText? fuel s

/-! ## Numbers -/

/-- Digits of a kind, of which two may have one underscore between them. -/
def separated (isDigit : Char → Bool) : Reader (List Char)
  | [] => none
  | c :: rest =>
    if !isDigit c then none
    else
      match rest with
      | '_' :: rest => (separated isDigit rest).map fun (cs, rest) => (c :: cs, rest)
      | d :: rest' =>
        if isDigit d then (separated isDigit (d :: rest')).map fun (cs, rest) => (c :: cs, rest)
        else some ([c], d :: rest')
      | [] => some ([c], [])

/-- The sign in front of a number. -/
def sign : List Char → Bool × List Char
  | '-' :: rest => (true, rest)
  | '+' :: rest => (false, rest)
  | s => (false, s)

/-- An integer, if it fits into 64 bits. -/
def integerOf? (n : Int) : Option Toml :=
  if -0x8000000000000000 ≤ n ∧ n < 0x8000000000000000 then some (.integer n) else none

/-- The digits of a whole number: a leading zero stands alone. -/
def wholeDigits? : Reader (List Char)
  | '0' :: rest => some (['0'], rest)
  | s => separated isDigit s

/-- The exponent of a number behind its letter. -/
def exponent? (s : List Char) : Option (Int × List Char) :=
  let (negative, s) := sign s
  (separated isDigit s).map fun (ds, rest) =>
    (if negative then -(valueOf ds : Int) else valueOf ds, rest)

/-- The number of a numeral; what is too great has none. -/
def realOf? (negative : Bool) (n : Numeral) : Option Toml :=
  let x := n.value.toFloat negative
  if x.isInf && !negative then none else some (.real x)

/-- A number in the decimal system. -/
def decimal? (s : List Char) : Option (Toml × List Char) := do
  let (negative, s) := sign s
  let (whole, s) ← wholeDigits? s
  match s with
  | '.' :: s => do
    let (fraction, s) ← separated isDigit s
    let (exponent, s) ← exponentIf s
    let x ← realOf? negative ⟨whole, fraction, exponent⟩
    return (x, s)
  | 'e' :: s | 'E' :: s => do
    let (exponent, s) ← exponent? s
    let x ← realOf? negative ⟨whole, [], exponent⟩
    return (x, s)
  | s => do
    let n ← integerOf? (if negative then -(valueOf whole : Int) else valueOf whole)
    return (n, s)
where
  /-- The exponent, if one follows. -/
  exponentIf : List Char → Option (Int × List Char)
    | 'e' :: s | 'E' :: s => exponent? s
    | s => some (0, s)

/-- A whole number in another base, behind its mark. -/
def based? (isDigit : Char → Bool) (base : Nat) (s : List Char) : Option (Toml × List Char) := do
  let (ds, s) ← separated isDigit s
  let value := ds.foldl (fun n c => n * base + (Document.hexValue? c).getD 0) 0
  let n ← integerOf? value
  return (n, s)

/-- A number. -/
def number? (s : List Char) : Option (Toml × List Char) :=
  match s with
  | '0' :: 'x' :: rest => based? (fun c => (Document.hexValue? c).isSome) 16 rest
  | '0' :: 'o' :: rest => based? (fun c => decide ('0' ≤ c ∧ c ≤ '7')) 8 rest
  | '0' :: 'b' :: rest => based? (fun c => c == '0' || c == '1') 2 rest
  | s =>
    match sign s with
    | (negative, 'i' :: 'n' :: 'f' :: rest) =>
      some (.real (Binary64.ofPattern negative Binary64.infinitePattern), rest)
    | (_, 'n' :: 'a' :: 'n' :: rest) => some (.real Binary64.notANumber, rest)
    | _ => decimal? s

/-! ## Dates and times -/

/-- So many digits, and the number they denote. -/
def digitsExactly (count : Nat) : Reader Nat := fun s =>
  let ds := s.take count
  if ds.length = count ∧ ds.all isDigit then some (valueOf ds, s.drop count) else none

/-- One given character. -/
def character (c : Char) : List Char → Option (List Char)
  | d :: rest => if d = c then some rest else none
  | [] => none

/-- The number of days of a month. -/
def daysOf (year month : Nat) : Nat :=
  if month = 2 then
    if year % 4 = 0 ∧ (year % 100 ≠ 0 ∨ year % 400 = 0) then 29 else 28
  else if month = 4 ∨ month = 6 ∨ month = 9 ∨ month = 11 then 30
  else 31

/-- A number with at least so many digits. -/
def padded (width n : Nat) : String :=
  let ds := digitsOf n
  String.ofList (List.replicate (width - ds.length) '0' ++ ds)

/-- A date, as its normal text. -/
def date? : Reader String := fun s => do
  let (year, s) ← digitsExactly 4 s
  let s ← character '-' s
  let (month, s) ← digitsExactly 2 s
  let s ← character '-' s
  let (day, s) ← digitsExactly 2 s
  if 1 ≤ month ∧ month ≤ 12 ∧ 1 ≤ day ∧ day ≤ daysOf year month then
    some (padded 4 year ++ "-" ++ padded 2 month ++ "-" ++ padded 2 day, s)
  else none

/-- The fraction of a second, as its normal text: at most nine digits, and no zeros at the end. -/
def secondFraction? : Reader String
  | '.' :: rest =>
    let ds := rest.takeWhile isDigit
    if ds = [] then none
    else
      let kept := ((ds.take 9).reverse.dropWhile (· == '0')).reverse
      some (if kept = [] then "" else "." ++ String.ofList kept, rest.dropWhile isDigit)
  | s => some ("", s)

/-- A time of day, as its normal text. -/
def time? : Reader String := fun s => do
  let (hour, s) ← digitsExactly 2 s
  let s ← character ':' s
  let (minute, s) ← digitsExactly 2 s
  let s ← character ':' s
  let (second, s) ← digitsExactly 2 s
  let (fraction, s) ← secondFraction? s
  if hour ≤ 23 ∧ minute ≤ 59 ∧ second ≤ 60 then
    some (padded 2 hour ++ ":" ++ padded 2 minute ++ ":" ++ padded 2 second ++ fraction, s)
  else none

/-- The distance from universal time, as its normal text, if one follows. -/
def offset? : Reader String
  | 'Z' :: rest | 'z' :: rest => some ("Z", rest)
  | '+' :: rest => signed false rest
  | '-' :: rest => signed true rest
  | s => some ("", s)
where
  /-- Hours and minutes behind a sign. -/
  signed (negative : Bool) (s : List Char) : Option (String × List Char) := do
    let (hour, s) ← digitsExactly 2 s
    let s ← character ':' s
    let (minute, s) ← digitsExactly 2 s
    if hour ≤ 23 ∧ minute ≤ 59 then
      let sign := if negative ∧ (hour, minute) ≠ (0, 0) then "-" else "+"
      some (sign ++ padded 2 hour ++ ":" ++ padded 2 minute, s)
    else none

/-- A time behind a date. -/
def timeAfterDate? : Reader String
  | c :: rest =>
    if c = 'T' ∨ c = 't' ∨ c = ' ' then do
      let (time, s) ← time? rest
      let (offset, s) ← offset? s
      return ("T" ++ time ++ offset, s)
    else none
  | [] => none

/-- A date, a time of day, or both. -/
def moment? : Reader Toml := fun s =>
  match date? s with
  | some (date, rest) =>
    match timeAfterDate? rest with
    | some (time, rest) => some (.moment (date ++ time), rest)
    | none => some (.moment date, rest)
  | none => (time? s).map fun (time, rest) => (.moment time, rest)

end IncrementalGame.Toml
