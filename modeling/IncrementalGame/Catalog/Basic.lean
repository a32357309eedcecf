import IncrementalGame.Catalog.ItemReader
import IncrementalGame.Text.FileName
import IncrementalGame.Toml.Document

/-!
# Catalogs

A catalog is a table of categories, each a table of items.  It is read as a whole: the first item at
fault, in the order of categories and keys, refuses it.

A catalog may be written in JSON or in TOML, and its categories may stand under one field `content`.
-/

namespace IncrementalGame

/-- All items of a game, by category and key. -/
structure Catalog where
  categories : KeyMap (KeyMap Item)
  deriving Inhabited

namespace Catalog

/-- The items of a category, in key order. -/
def items (category : String) : Fields → Except Refusal (List (String × Item))
  | [] => .ok []
  | (key, raw) :: rest => do
    let first ← item category key raw
    let others ← items category rest
    return (key, first) :: others

/-- The items of all categories, in the order of their names. -/
def categoriesOf : Fields → Except Refusal (List (String × KeyMap Item))
  | [] => .ok []
  | (name, .obj raw) :: rest => do
    let first ← items name raw
    let others ← categoriesOf rest
    return (name, KeyMap.ofList first) :: others
  | (name, found) :: _ => .error ⟨name, "", .categoryNotMapping found⟩

/-- The mapping of categories in a document. -/
def rootOf (fields : Fields) : Fields :=
  match get? fields "content" with
  | some (.obj inner) => inner
  | _ => fields

/-- The catalog of a document. -/
def load : Json → Except Refusal Catalog
  | .obj fields => do
    let categories ← categoriesOf (rootOf fields)
    return ⟨KeyMap.ofList categories⟩
  | found => .error (refuseDocument (.catalogNotMapping found))

/-- The catalog of a JSON text. -/
def ofJsonText (source : String) : Except Refusal Catalog :=
  match Json.read source with
  | some document => load document
  | none => .error (refuseDocument .badJson)

/-- The catalog of a TOML text. -/
def ofTomlText (source : String) : Except Refusal Catalog :=
  match Toml.read source with
  | some document => load document.toJson
  | none => .error (refuseDocument .badToml)

/-- The catalog of a file, which is in JSON if its name says so and in TOML otherwise. -/
def ofFile (file source : String) : Except Refusal Catalog :=
  if (FileName.extension? file).any (fun ext => ext.toLower == "json") then ofJsonText source
  else ofTomlText source

/-! ## Look-ups -/

/-- The items of a category; there are none in an unknown one. -/
def category (c : Catalog) (name : String) : KeyMap Item := c.categories.getD name .empty

/-- The item of a category and a key. -/
def find? (c : Catalog) (category key : String) : Option Item := (c.category category).get? key

/-- The number of items. -/
def size (c : Catalog) : Nat := c.categories.foldl (fun n _ items => n + items.size) 0

/-- The resources. -/
def resources (c : Catalog) : KeyMap Item := c.category "resources"

/-- The buildings. -/
def buildings (c : Catalog) : KeyMap Item := c.category "buildings"

/-- The upgrades. -/
def upgrades (c : Catalog) : KeyMap Item := c.category "upgrades"

/-- The achievements. -/
def achievements (c : Catalog) : KeyMap Item := c.category achievementsCategory

/-- The shinies. -/
def shinies (c : Catalog) : KeyMap Item := c.category "shinies"

/-- The category and the key of the prestige. -/
def prestigeKey : String := "prestige"

/-- The prestige, if there is one. -/
def prestige? (c : Catalog) : Option Item := c.find? prestigeKey prestigeKey

/-- How much of a resource there is at the start; none of one that is not declared. -/
def initialAmount (c : Catalog) (resource : String) : Float :=
  match c.resources.get? resource with
  | some item => item.initial
  | none => 0.0

end Catalog

end IncrementalGame
