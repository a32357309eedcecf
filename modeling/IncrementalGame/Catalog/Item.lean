import IncrementalGame.Json.Value
import IncrementalGame.Text.Blank

/-!
# What a catalog declares

A catalog declares the resources, buildings, upgrades, achievements, shinies and the prestige of a
game.  Each of them is an `Item`: a name and a description, what it costs, what it does (`Effect`),
when it may do it (`Gate`), what has to be there first, and for achievements the levels.

What an effect does is named by its kind and its target; how much is a formula or a fixed amount.
Fields that are not of these stay with the item as they were written.
-/

namespace IncrementalGame

/-- What an effect does. -/
inductive EffectKind where
  /-- Adds an amount to a resource. -/
  | yields
  /-- Scales a multiplier. -/
  | multiplies
  /-- Starts the time of a shiny. -/
  | grants
  /-- Applies the yields of a shiny. -/
  | spawns
  /-- Sets a resource, or all of them, back to its first amount. -/
  | resets
  deriving DecidableEq, Inhabited

namespace EffectKind

/-- All kinds of effects. -/
def all : List EffectKind := [yields, multiplies, grants, spawns, resets]

/-- How a catalog writes a kind. -/
def name : EffectKind → String
  | yields => "yield"
  | multiplies => "multiply"
  | grants => "grant"
  | spawns => "spawn"
  | resets => "reset"

/-- The kind of a name; capitals and blanks around it do not matter. -/
def ofText? (s : List Char) : Option EffectKind :=
  all.find? fun kind => kind.name == String.ofList ((Text.trim s).map Char.toLower)

end EffectKind

/-- Something that happens to a player. -/
structure Effect where
  /-- What it does. -/
  kind : EffectKind
  /-- The resource or the shiny that it acts on. -/
  target : String
  /-- How much, where there is no formula. -/
  value : Float
  /-- The formula that says how much. -/
  expression : Option String
  /-- The formula that has to hold. -/
  condition : Option String
  deriving DecidableEq, Inhabited

/-- What decides once whether a whole list of effects happens. -/
inductive Gate where
  /-- It happens with the probability of so many percent. -/
  | chance (percent : Float)
  /-- It happens if a formula holds. -/
  | condition (formula : String)
  deriving DecidableEq, Inhabited

/-- A list of effects behind a gate. -/
structure EffectBlock where
  gate : Option Gate
  effects : List Effect
  deriving DecidableEq, Inhabited

/-- One level of an achievement. -/
structure AchievementLevel where
  level : UInt32
  /-- The formula that has to hold. -/
  condition : String
  /-- What reaching it adds to each resource. -/
  rewards : KeyMap Float
  deriving DecidableEq, Inhabited

/-- Something that a catalog declares. -/
structure Item where
  /-- The category it is declared in. -/
  category : String
  key : String
  /-- The name it is shown with. -/
  name : String
  /-- Its `type`, of whatever meaning. -/
  tag : Option String
  description : String
  /-- What it costs of each resource. -/
  cost : KeyMap Float
  effects : List Effect
  gate : Option Gate
  /-- How much of it there is at the start. -/
  initial : Float
  /-- The keys that have to be there before it is bought. -/
  requirements : List String
  levels : List AchievementLevel
  /-- All fields that have no other place. -/
  properties : KeyMap Json
  deriving Inhabited

namespace Item

/-- A further field. -/
def property (item : Item) (name : String) : Option Json := item.properties.get? name

/-- A further field that is a number. -/
def numberProperty (item : Item) (name : String) : Option Float :=
  match item.property name with
  | some (.num n) => some n.toFloat
  | _ => none

/-- The effects behind their gate. -/
def block (item : Item) : EffectBlock := ⟨item.gate, item.effects⟩

/-- The effects of one kind, in order. -/
def effectsOf (item : Item) (kind : EffectKind) : List Effect :=
  item.effects.filter (fun e => e.kind == kind)

end Item

end IncrementalGame
