import IncrementalGame.Binary64.Text
import IncrementalGame.Text.Quoted

/-!
# JSON documents as they are written

A `Document` is what the grammar of JSON says about a text and nothing more: numbers are still
numerals, an object may repeat a key, and a string literal whose escapes name half of a surrogate
pair denotes no text (`Document.text none`).  Readers of catalogs and of snapshots disagree about
all three, so each of them starts from here.

The grammar is strict: no comments, no trailing commas, no raw control character in a string, no
leading zeros, nothing behind the value.
-/

namespace IncrementalGame

/-- The text of a number with its sign; a whole literal has neither a point nor an exponent. -/
structure Literal where
  /-- Whether it starts with a minus sign. -/
  negative : Bool
  numeral : Numeral
  /-- Whether it is written without a point and without an exponent. -/
  isWhole : Bool
  deriving Inhabited

/-- A JSON text taken apart along its grammar. -/
inductive Document where
  | null
  | bool (b : Bool)
  | number (literal : Literal)
  | text (s : Option String)
  | array (items : List Document)
  | object (fields : List (Option String × Document))
  deriving Inhabited

namespace Document

/-- Whether a character may stand between the parts of a document. -/
def isSpace (c : Char) : Bool := c == ' ' || c == '\t' || c == '\n' || c == '\r'

/-- Drops the spaces in front. -/
def skip (s : List Char) : List Char := s.dropWhile isSpace

/-! ## Strings -/

/-- The value of a hexadecimal digit. -/
def hexValue? (c : Char) : Option Nat :=
  if '0' ≤ c ∧ c ≤ '9' then some (c.toNat - '0'.toNat)
  else if 'a' ≤ c ∧ c ≤ 'f' then some (c.toNat - 'a'.toNat + 10)
  else if 'A' ≤ c ∧ c ≤ 'F' then some (c.toNat - 'A'.toNat + 10)
  else none

/-- The value of four hexadecimal digits. -/
def hexValue4? (a b c d : Char) : Option Nat := do
  let a ← hexValue? a
  let b ← hexValue? b
  let c ← hexValue? c
  let d ← hexValue? d
  return ((a * 16 + b) * 16 + c) * 16 + d

/-- The character that a one-letter escape stands for. -/
def escaped? : Char → Option Char
  | '"' => some '"'
  | '\\' => some '\\'
  | '/' => some '/'
  | 'b' => some (Char.ofNat 8)
  | 'f' => some (Char.ofNat 12)
  | 'n' => some '\n'
  | 'r' => some '\r'
  | 't' => some '\t'
  | _ => none

/-- The codes of a string literal behind its opening quote, and what follows the closing one.  A
code is a code point, or the unit of a `\u` escape. -/
def stringCodes : List Char → Option (List Nat × List Char)
  | [] => none
  | '"' :: rest => some ([], rest)
  | '\\' :: 'u' :: a :: b :: c :: d :: rest =>
    match hexValue4? a b c d, stringCodes rest with
    | some code, some (codes, rest) => some (code :: codes, rest)
    | _, _ => none
  | '\\' :: c :: rest =>
    match escaped? c, stringCodes rest with
    | some e, some (codes, rest) => some (e.toNat :: codes, rest)
    | _, _ => none
  | c :: rest =>
    if c < ' ' then none
    else
      match stringCodes rest with
      | some (codes, rest) => some (c.toNat :: codes, rest)
      | none => none

/-- The character of two halves of a surrogate pair. -/
def joined (high low : Nat) : Char :=
  Char.ofNat (0x10000 + (high - 0xd800) * 0x400 + (low - 0xdc00))

/-- The text of a row of codes, if every half of a surrogate pair has its other half. -/
def textOfCodes : List Nat → Option (List Char)
  | [] => some []
  | high :: low :: rest =>
    if 0xd800 ≤ high ∧ high ≤ 0xdbff then
      if 0xdc00 ≤ low ∧ low ≤ 0xdfff then (textOfCodes rest).map (joined high low :: ·) else none
    else if 0xdc00 ≤ high ∧ high ≤ 0xdfff then none
    else (textOfCodes (low :: rest)).map (Char.ofNat high :: ·)
  | [code] => if 0xd800 ≤ code ∧ code ≤ 0xdfff then none else some [Char.ofNat code]

/-- Reads a string literal behind its opening quote. -/
def readString (s : List Char) : Option (Option String × List Char) :=
  (stringCodes s).map fun (codes, rest) => ((textOfCodes codes).map String.ofList, rest)

/-! ## Numbers -/

/-- The digits in front of a text, and the rest. -/
def digits (s : List Char) : List Char × List Char := (s.takeWhile isDigit, s.dropWhile isDigit)

/-- The digits in front, if there is at least one. -/
def digits1 (s : List Char) : Option (List Char × List Char) :=
  match digits s with
  | ([], _) => none
  | found => some found

/-- The digits before the point: a leading zero stands alone. -/
def wholeDigits : List Char → Option (List Char × List Char)
  | '0' :: rest => some (['0'], rest)
  | s => digits1 s

/-- The digits behind the point, if a point follows. -/
def fractionDigits : List Char → Option (Option (List Char) × List Char)
  | '.' :: rest => (digits1 rest).map fun (found, rest) => (some found, rest)
  | s => some (none, s)

/-- The exponent, if the letter `e` follows. -/
def exponentPart : List Char → Option (Option Int × List Char)
  | c :: rest =>
    if c = 'e' ∨ c = 'E' then
      match rest with
      | '-' :: rest => (digits1 rest).map fun (found, rest) => (some (-(valueOf found : Int)), rest)
      | '+' :: rest => (digits1 rest).map fun (found, rest) => (some (valueOf found : Int), rest)
      | rest => (digits1 rest).map fun (found, rest) => (some (valueOf found : Int), rest)
    else some (none, c :: rest)
  | [] => some (none, [])

/-- Reads a number behind its sign. -/
def readUnsigned (negative : Bool) (s : List Char) : Option (Literal × List Char) := do
  let (whole, s) ← wholeDigits s
  let (fraction, s) ← fractionDigits s
  let (exponent, s) ← exponentPart s
  return (⟨negative, ⟨whole, fraction.getD [], exponent.getD 0⟩,
    fraction.isNone && exponent.isNone⟩, s)

/-- Reads a number. -/
def readNumber : List Char → Option (Literal × List Char)
  | '-' :: rest => readUnsigned true rest
  | s => readUnsigned false s

/-! ## Documents -/

mutual

/-- Reads a value in front of a text.  The first argument bounds the nesting. -/
def readValue : Nat → List Char → Option (Document × List Char)
  | 0, _ => none
  | fuel + 1, s =>
    match skip s with
    | 'n' :: 'u' :: 'l' :: 'l' :: rest => some (.null, rest)
    | 't' :: 'r' :: 'u' :: 'e' :: rest => some (.bool true, rest)
    | 'f' :: 'a' :: 'l' :: 's' :: 'e' :: rest => some (.bool false, rest)
    | '"' :: rest => (readString rest).map fun (s, rest) => (.text s, rest)
    | '[' :: rest =>
      match skip rest with
      | ']' :: rest => some (.array [], rest)
      | rest => (readItems fuel rest).map fun (items, rest) => (.array items, rest)
    | '\x7b' :: rest =>
      match skip rest with
      | '\x7d' :: rest => some (.object [], rest)
      | rest => (readFields fuel rest).map fun (fields, rest) => (.object fields, rest)
    | rest => (readNumber rest).map fun (literal, rest) => (.number literal, rest)

/-- Reads the items of an array up to its end. -/
def readItems : Nat → List Char → Option (List Document × List Char)
  | 0, _ => none
  | fuel + 1, s =>
    match readValue fuel s with
    | none => none
    | some (item, rest) =>
      match skip rest with
      | ']' :: rest => some ([item], rest)
      | ',' :: rest => (readItems fuel rest).map fun (items, rest) => (item :: items, rest)
      | _ => none

/-- Reads the fields of an object up to its end. -/
def readFields : Nat → List Char → Option (List (Option String × Document) × List Char)
  | 0, _ => none
  | fuel + 1, s =>
    match skip s with
    | '"' :: rest =>
      match readString rest with
      | none => none
      | some (key, rest) =>
        match skip rest with
        | ':' :: rest =>
          match readValue fuel rest with
          | none => none
          | some (value, rest) =>
            match skip rest with
            | '\x7d' :: rest => some ([(key, value)], rest)
            | ',' :: rest =>
              (readFields fuel rest).map fun (fields, rest) => ((key, value) :: fields, rest)
            | _ => none
        | _ => none
    | _ => none

end

/-- Reads a whole text.  Every step takes at least one character, so twice the length bounds the
nesting of the steps. -/
def read (s : String) : Option Document :=
  let text := s.toList
  match readValue (2 * text.length + 2) text with
  | some (document, rest) => if skip rest = [] then some document else none
  | none => none

mutual

/-- How deeply arrays and objects are nested. -/
def depth : Document → Nat
  | .array items => itemsDepth items + 1
  | .object fields => fieldsDepth fields + 1
  | _ => 0

/-- The greatest depth of an item. -/
def itemsDepth : List Document → Nat
  | [] => 0
  | item :: items => Nat.max item.depth (itemsDepth items)

/-- The greatest depth of a field. -/
def fieldsDepth : List (Option String × Document) → Nat
  | [] => 0
  | (_, value) :: fields => Nat.max value.depth (fieldsDepth fields)

end

end Document

end IncrementalGame
