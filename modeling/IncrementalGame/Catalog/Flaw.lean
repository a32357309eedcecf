import IncrementalGame.Json.Value

/-!
# What can be wrong with a catalog

The causes for which a catalog is refused, and their wording.  A refusal names the category and the
key of the item at fault; it names the catalog itself where the document as a whole is at fault.
-/

namespace IncrementalGame.Catalog

/-- What a value is called in the wording of a flaw. -/
def kindName : Json → String
  | .null => "null"
  | .bool _ => "boolean"
  | .num _ => "number"
  | .str _ => "string"
  | .arr _ => "list"
  | .obj _ => "mapping"

/-- What a field has to be. -/
inductive Shape where
  | string
  | number
  | mapping
  | list
  | keyList
  | percentage
  deriving DecidableEq, Inhabited

/-- The wording of a shape. -/
def Shape.describe : Shape → String
  | string => "a string"
  | number => "a number"
  | mapping => "a mapping"
  | list => "a list"
  | keyList => "a list of keys"
  | percentage => "a number or percentage"

/-- What is wrong with an item or with a document. -/
inductive Flaw where
  | badJson
  | badToml
  | catalogNotMapping (found : Json)
  | categoryNotMapping (found : Json)
  | itemNotMapping (found : Json)
  | wrongShape (field : String) (wanted : Shape) (found : Json)
  | negativeInitial
  | effectShape (found : Json)
  | effectWithoutTarget (written : String)
  | effectWithoutKind
  | unknownEffect (kind : String)
  | notPercentage (written : String)
  | levelsNotList
  | levelNotMapping (index : Nat)
  | levelNumber (found : Float)
  | levelWithoutCondition (level : UInt32)
  | negativeAmount (field key : String)
  | amountNotNumber (field key : String) (found : Json)
  | entryNotString (field : String) (found : Json)
  deriving Inhabited

/-- The wording of a flaw. -/
def Flaw.describe : Flaw → String
  | badJson => "invalid JSON"
  | badToml => "invalid TOML"
  | catalogNotMapping found => "catalog must be a mapping, got " ++ kindName found
  | categoryNotMapping found => "category must be a mapping, got " ++ kindName found
  | itemNotMapping found => "item must be a mapping, got " ++ kindName found
  | wrongShape field wanted found =>
    "'" ++ field ++ "' must be " ++ wanted.describe ++ ", got " ++ kindName found
  | negativeInitial => "initial must not be negative"
  | effectShape found => "effect must be a mapping or string, got " ++ kindName found
  | effectWithoutTarget written => "effect '" ++ written ++ "' has no target"
  | effectWithoutKind => "effect is missing 'type'"
  | unknownEffect kind => "unknown effect type '" ++ kind ++ "'"
  | notPercentage written => "'chance' is not a percentage: '" ++ written ++ "'"
  | levelsNotList => "'levels' must be a list"
  | levelNotMapping index => "level #" ++ toString index ++ " must be a mapping"
  | levelNumber found => "level must be a positive integer, got " ++ Binary64.plain found
  | levelWithoutCondition level => "level " ++ toString level.toNat ++ " has no condition"
  | negativeAmount field key => "'" ++ field ++ "." ++ key ++ "' must not be negative"
  | amountNotNumber field key found =>
    "'" ++ field ++ "." ++ key ++ "' must be a number, got " ++ kindName found
  | entryNotString field found =>
    "'" ++ field ++ "' entries must be strings, got " ++ kindName found

/-- Why a catalog is refused. -/
structure Refusal where
  /-- The category of the item at fault. -/
  category : String
  key : String
  flaw : Flaw
  deriving Inhabited

/-- The wording of a refusal. -/
def Refusal.message (r : Refusal) : String :=
  "malformed " ++ r.category ++ "." ++ r.key ++ ": " ++ r.flaw.describe

/-- The refusal of a document as a whole. -/
def refuseDocument (flaw : Flaw) : Refusal := ⟨"catalog", "", flaw⟩

end IncrementalGame.Catalog
