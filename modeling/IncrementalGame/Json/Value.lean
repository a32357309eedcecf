import IncrementalGame.Json.Number
import IncrementalGame.KeyMap

/-!
# JSON values

A `Json` is what a document means: its numbers are values (`Number`), and its objects list their
fields in key order, each key once.  `Json.ofDocument` gives the meaning of a document, `Json.render`
a compact text of a value.

* Of a repeated key the last value stands.
* A number too great for a binary64 number, half of a surrogate pair, and 128 levels of arrays and
  objects have no meaning.
-/

namespace IncrementalGame

/-- A JSON value. -/
inductive Json where
  | null
  | bool (b : Bool)
  | num (n : Number)
  | str (s : String)
  | arr (items : List Json)
  | obj (fields : List (String × Json))
  deriving Inhabited

namespace Json

/-- An object of some fields; of a repeated key the last value stands. -/
def object (fields : List (String × Json)) : Json := .obj (KeyMap.ofList fields).entries

/-- The value of a field of an object. -/
def field? (key : String) : Json → Option Json
  | .obj fields => KeyMap.lookup key fields
  | _ => none

/-- What a value is called in messages. -/
def kind : Json → String
  | .null => "null"
  | .bool _ => "boolean"
  | .num _ => "number"
  | .str _ => "string"
  | .arr _ => "array"
  | .obj _ => "object"

mutual

/-- The meaning of a document, its nesting aside. -/
def ofDocument : Document → Option Json
  | .null => some .null
  | .bool b => some (.bool b)
  | .number literal => literal.toNumber?.map .num
  | .text s => s.map .str
  | .array items => (ofItems items).map .arr
  | .object fields => (ofFields fields).map .object

/-- The meaning of a list of documents. -/
def ofItems : List Document → Option (List Json)
  | [] => some []
  | item :: items =>
    match ofDocument item, ofItems items with
    | some item, some items => some (item :: items)
    | _, _ => none

/-- The meaning of a list of fields. -/
def ofFields : List (Option String × Document) → Option (List (String × Json))
  | [] => some []
  | (key, value) :: fields =>
    match key, ofDocument value, ofFields fields with
    | some key, some value, some fields => some ((key, value) :: fields)
    | _, _, _ => none

end

/-- How many levels of arrays and objects a text may nest. -/
def maxDepth : Nat := 127

/-- Reads a JSON text. -/
def read (s : String) : Option Json :=
  match Document.read s with
  | some document => if document.depth ≤ maxDepth then ofDocument document else none
  | none => none

/-! ## Text -/

/-- How one character is written in a string literal. -/
def escapeChar (c : Char) : List Char :=
  if c = '"' then ['\\', '"']
  else if c = '\\' then ['\\', '\\']
  else if c = '\n' then ['\\', 'n']
  else if c = '\r' then ['\\', 'r']
  else if c = '\t' then ['\\', 't']
  else if c = Char.ofNat 8 then ['\\', 'b']
  else if c = Char.ofNat 12 then ['\\', 'f']
  else if c < ' ' then
    '\\' :: 'u' :: '0' :: '0' :: (if c.toNat < 16 then ['0'] else []) ++ Text.hexDigits c.toNat
  else [c]

/-- The string literal of a text. -/
def literal (s : String) : String := String.ofList ('"' :: s.toList.flatMap escapeChar ++ ['"'])

mutual

/-- The compact text of a value. -/
def render : Json → String
  | .null => "null"
  | .bool true => "true"
  | .bool false => "false"
  | .num n => n.render
  | .str s => literal s
  | .arr items => "[" ++ renderItems items ++ "]"
  | .obj fields => "\x7b" ++ renderFields fields ++ "\x7d"

/-- The items of an array, between commas. -/
def renderItems : List Json → String
  | [] => ""
  | [item] => item.render
  | item :: items => item.render ++ "," ++ renderItems items

/-- The fields of an object, between commas. -/
def renderFields : List (String × Json) → String
  | [] => ""
  | [(key, value)] => literal key ++ ":" ++ value.render
  | (key, value) :: fields => literal key ++ ":" ++ value.render ++ "," ++ renderFields fields

end

end Json

end IncrementalGame
