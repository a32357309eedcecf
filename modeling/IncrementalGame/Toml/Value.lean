import IncrementalGame.Json.Value

/-!
# TOML values and the growth of a document

A TOML document is a table that grows line by line, and whether a line may add to a table hangs on
where that table comes from (`Origin`).

* A table written inline, or any other value, is closed.
* A header `[a.b]` states the table `b`; the tables it passes on its way exist by implication until
  a header states them, which may happen once.
* A dotted key `a.b = 1` opens `a` as a dotted table, to which only dotted keys of the same place
  may add.
* `[[a]]` adds a table to the list `a`, and a later path through `a` means its last table.

`Toml.descend` follows a path under these rules, and `addEntry`, `addTable` and `addListed` are the
three kinds of lines.  `Toml.toJson` gives a document the meaning of a JSON value.
-/

namespace IncrementalGame

/-- Where a table comes from. -/
inductive Toml.Origin where
  | inline
  | implied
  | stated
  | dotted
  deriving DecidableEq, Inhabited

/-- A TOML value. -/
inductive Toml where
  | text (s : String)
  | integer (n : Int)
  | real (x : Float)
  | boolean (b : Bool)
  | moment (s : String)
  | list (items : List Toml)
  | table (origin : Toml.Origin) (fields : List (String × Toml))
  | listed (tables : List Toml)
  deriving Inhabited

namespace Toml

/-- The value of a field. -/
def find (key : String) (fields : List (String × Toml)) : Option Toml :=
  (fields.find? (fun f => f.1 == key)).map (·.2)

/-- Puts a value in the place of a field. -/
def replace (key : String) (value : Toml) (fields : List (String × Toml)) : List (String × Toml) :=
  fields.map fun f => if f.1 = key then (key, value) else f

/-- Changes what lies at the end of a path.  The path is that of a header or of a dotted key; tables
that are missing on the way are made. -/
def descend (byDots : Bool) (edit : Toml → Option Toml) : List String → Toml → Option Toml
  | [], t => edit t
  | key :: path, .table origin fields =>
    let put (t : Toml) : Toml := .table origin (replace key t fields)
    match find key fields with
    | none =>
      (descend byDots edit path (.table (if byDots then .dotted else .implied) [])).map fun t =>
        .table origin (fields ++ [(key, t)])
    | some (.table .inline _) => none
    | some (.table .stated inner) =>
      if byDots then none else (descend byDots edit path (.table .stated inner)).map put
    | some (.table kind inner) => (descend byDots edit path (.table kind inner)).map put
    | some (.listed tables) =>
      match tables.getLast? with
      | none => none
      | some last =>
        (descend byDots edit path last).map fun t => put (.listed (tables.dropLast ++ [t]))
    | some _ => none
  | _ :: _, _ => none

/-- Adds a value to a table, which has to be dotted exactly if the key that leads to it is. -/
def addField (byDots : Bool) (key : String) (value : Toml) : Toml → Option Toml
  | .table origin fields =>
    if (origin == .dotted) != byDots || (find key fields).isSome then none
    else some (.table origin (fields ++ [(key, value)]))
  | _ => none

/-- Adds a value under a key path to a table. -/
def addEntry (path : List String) (value : Toml) (t : Toml) : Option Toml :=
  match path.getLast? with
  | none => none
  | some key => descend true (addField (path.length != 1) key value) path.dropLast t

/-- States the table of a header, which must not have been stated before. -/
def stateTable (key : String) : Toml → Option Toml
  | .table origin fields =>
    match find key fields with
    | none => some (.table origin (fields ++ [(key, .table .stated [])]))
    | some (.table .implied inner) =>
      some (.table origin (replace key (.table .stated inner) fields))
    | some _ => none
  | _ => none

/-- Adds an empty table to the list of a double header. -/
def listTable (key : String) : Toml → Option Toml
  | .table origin fields =>
    match find key fields with
    | none => some (.table origin (fields ++ [(key, .listed [.table .stated []])]))
    | some (.listed tables) =>
      some (.table origin (replace key (.listed (tables ++ [.table .stated []])) fields))
    | some _ => none
  | _ => none

/-- The line `[path]`. -/
def addTable (path : List String) (root : Toml) : Option Toml :=
  match path.getLast? with
  | none => none
  | some key => descend false (stateTable key) path.dropLast root

/-- The line `[[path]]`. -/
def addListed (path : List String) (root : Toml) : Option Toml :=
  match path.getLast? with
  | none => none
  | some key => descend false (listTable key) path.dropLast root

/-- The field under which a date or a time stands in a JSON object. -/
def momentField : String := "$__toml_private_datetime"

mutual

/-- The JSON value of a TOML value.  What is no finite number becomes null. -/
def toJson : Toml → Json
  | .text s => .str s
  | .integer n => .num (.int n)
  | .real x => if x.isFinite then .num (.real x) else .null
  | .boolean b => .bool b
  | .moment s => .obj [(momentField, .str s)]
  | .list items => .arr (itemsToJson items)
  | .table _ fields => Json.object (fieldsToJson fields)
  | .listed tables => .arr (itemsToJson tables)

/-- The JSON values of the items of a list. -/
def itemsToJson : List Toml → List Json
  | [] => []
  | item :: items => item.toJson :: itemsToJson items

/-- The JSON values of the fields of a table. -/
def fieldsToJson : List (String × Toml) → List (String × Json)
  | [] => []
  | (key, value) :: fields => (key, value.toJson) :: fieldsToJson fields

end

end Toml

end IncrementalGame
