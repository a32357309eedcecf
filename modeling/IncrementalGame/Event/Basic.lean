/-!
# Events

Whatever a player gains or loses by a decision, or by an achievement, is told as an `Event`: who it
concerns, what it is about, and the count or level that holds from then on.  An event carries the
state after the change and not the change itself, so the last event about a thing says all about it.
-/

namespace IncrementalGame

/-- The kinds of events. -/
inductive EventKind where
  | buildingBought
  | upgradeBought
  | buildingSold
  | prestige
  | achievementUnlocked
  deriving DecidableEq, Inhabited

/-- Something that has happened to a player. -/
inductive Event where
  /-- A building was bought, and so many are owned now. -/
  | buildingBought (player building : String) (amount : UInt32)
  | upgradeBought (player upgrade : String)
  /-- A building was sold, and so many are owned now. -/
  | buildingSold (player building : String) (amount : UInt32)
  /-- Prestige was performed, for this level. -/
  | prestige (player : String) (level : UInt32)
  /-- An achievement has reached a level. -/
  | achievementUnlocked (player achievement : String) (level : UInt32)
  deriving DecidableEq, Inhabited

namespace Event

/-- The kind of an event. -/
def kind : Event → EventKind
  | buildingBought .. => .buildingBought
  | upgradeBought .. => .upgradeBought
  | buildingSold .. => .buildingSold
  | prestige .. => .prestige
  | achievementUnlocked .. => .achievementUnlocked

/-- The player an event concerns. -/
def player : Event → String
  | buildingBought player .. => player
  | upgradeBought player _ => player
  | buildingSold player .. => player
  | prestige player _ => player
  | achievementUnlocked player .. => player

end Event

end IncrementalGame
