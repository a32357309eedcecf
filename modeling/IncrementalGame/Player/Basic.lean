import IncrementalGame.Catalog.Basic
import IncrementalGame.Economy.Error
import IncrementalGame.Formula.Builtin
import IncrementalGame.Saturating

/-!
# Players

What a player has: balances, buildings, upgrades, multipliers, achievement levels, the times of
shinies, a log, and statistics of every resource.

Balances are whole numbers while gains may have fractions.  A gain is added to the fraction that
earlier ones left (`carry`); the whole part is credited and booked as earned, and the rest is
carried on.  A cost is rounded up, and nothing is ever taken below zero.
-/

namespace IncrementalGame

/-- Whether a shiny is shining, and since when. -/
structure ShinyState where
  active : Bool
  /-- When it was granted last, in milliseconds. -/
  lastSpawn : UInt64
  deriving DecidableEq

/-- A shiny that was never granted. -/
def ShinyState.never : ShinyState := ⟨false, 0⟩

instance : Inhabited ShinyState := ⟨.never⟩

/-- What became of a resource over time. -/
structure ResourceStats where
  /-- The greatest balance so far. -/
  max : UInt64
  /-- All that was ever gained. -/
  earned : UInt64
  /-- What the last tick credited. -/
  perTick : Float
  deriving DecidableEq

/-- The statistics of a resource that was never touched. -/
def ResourceStats.none : ResourceStats := ⟨0, 0, 0.0⟩

instance : Inhabited ResourceStats := ⟨.none⟩

/-- A player. -/
structure Player where
  id : String
  /-- The balance of each resource. -/
  resources : KeyMap UInt64
  /-- The fraction that gains of each resource have left. -/
  carry : KeyMap Float
  /-- How many buildings of each kind are owned. -/
  buildings : KeyMap UInt32
  /-- Which upgrades are owned. -/
  upgrades : KeyMap Bool
  /-- The lasting multiplier of each resource. -/
  multipliers : KeyMap Float
  /-- The level of each achievement. -/
  achievements : KeyMap UInt32
  /-- How often prestige was performed. -/
  prestige : UInt32
  /-- The latest messages, oldest first. -/
  log : List String
  /-- The state of each shiny. -/
  shinies : KeyMap ShinyState
  /-- The statistics of each resource. -/
  stats : KeyMap ResourceStats
  /-- The time of the last tick, in milliseconds. -/
  lastUpdate : UInt64
  deriving DecidableEq

/-- An amount as whole units of a cost: rounded up, and nothing unless it is positive and finite. -/
def costUnits (amount : Float) : UInt64 :=
  if amount.isFinite && decide (0.0 < amount) then (Binary64.ceil amount).toUInt64 else 0

/-- An amount as a count: rounded down, and nothing unless it is positive and finite. -/
def wholeCount (amount : Float) : UInt32 :=
  if amount.isFinite && decide (0.0 < amount) then (Binary64.floor amount).toUInt32 else 0

namespace Player

/-- A player that has nothing. -/
def blank : Player :=
  ⟨"", .empty, .empty, .empty, .empty, .empty, .empty, 0, [], .empty, .empty, 0⟩

instance : Inhabited Player := ⟨blank⟩

/-! ## Resources -/

/-- The balance of a resource. -/
def resource (p : Player) (key : String) : UInt64 := p.resources.getD key 0

/-- The statistics of a resource. -/
def statsOf (p : Player) (key : String) : ResourceStats := p.stats.getD key .none

/-- The lasting multiplier of a resource. -/
def multiplier (p : Player) (key : String) : Float := p.multipliers.getD key 1.0

/-- Takes an amount from a balance, as far as it goes. -/
def removeResource (p : Player) (key : String) (amount : Float) : Player :=
  match p.resources.get? key with
  | none => p
  | some balance =>
    { p with resources := p.resources.insert key (Saturating.sub64 balance (costUnits amount)) }

/-- Adds a positive amount: the whole part with what was carried is credited and booked, and the
rest is carried on. -/
def gain (p : Player) (key : String) (amount : Float) : Player :=
  let total := p.carry.getD key 0.0 + amount
  let whole := Binary64.floor total
  let gained := whole.toUInt64
  let balance := Saturating.add64 (p.resource key) gained
  let stats := p.statsOf key
  { p with
    carry := p.carry.insert key (total - whole)
    resources := p.resources.insert key balance
    stats := p.stats.insert key
      { stats with
        earned := Saturating.add64 stats.earned gained
        max := Saturating.max64 stats.max balance } }

/-- Adds an amount, or takes it if it is negative; what is no finite number changes nothing. -/
def addResource (p : Player) (key : String) (amount : Float) : Player :=
  if !amount.isFinite || amount == 0.0 then p
  else if amount < 0.0 then p.removeResource key (-amount)
  else p.gain key amount

/-- Sets a balance, and carries the fraction. -/
def setResource (p : Player) (key : String) (amount : Float) : Player :=
  let amount := if amount.isFinite then Binary64.greater amount 0.0 else 0.0
  let whole := Binary64.floor amount
  let stats := p.statsOf key
  { p with
    resources := p.resources.insert key whole.toUInt64
    carry := p.carry.insert key (amount - whole)
    stats := p.stats.insert key { stats with max := Saturating.max64 stats.max whole.toUInt64 } }

/-- The first resource, in key order, whose balance falls short of a cost. -/
def shortfall? (p : Player) (cost : KeyMap Float) : Option (String × Float) :=
  cost.entries.find? fun e => decide (p.resource e.1 < costUnits e.2)

/-- Whether every balance covers a cost. -/
def canAfford (p : Player) (cost : KeyMap Float) : Bool := (p.shortfall? cost).isNone

/-- Takes a cost from the balances, each as far as it goes. -/
def debit (p : Player) (cost : KeyMap Float) : Player :=
  cost.foldl (fun p key amount => p.removeResource key amount) p

/-- Pays a cost, all of it or nothing. -/
def spend (p : Player) (cost : KeyMap Float) : Except EconomyError Player :=
  match p.shortfall? cost with
  | some (key, amount) => .error (.unaffordable key amount (p.resource key))
  | none => .ok (p.debit cost)

/-! ## What a player has -/

/-- How many buildings of a kind are owned. -/
def building (p : Player) (key : String) : UInt32 := p.buildings.getD key 0

/-- Whether an upgrade is owned. -/
def hasUpgrade (p : Player) (key : String) : Bool := p.upgrades.getD key false

/-- The level of an achievement; zero before its first one. -/
def achievementLevel (p : Player) (key : String) : UInt32 := p.achievements.getD key 0

/-- Whether a key is there: a balance, a building, an upgrade or an achievement. -/
def has (p : Player) (key : String) : Bool :=
  decide (0 < p.resource key) || decide (0 < p.building key) || p.hasUpgrade key ||
    decide (0 < p.achievementLevel key)

/-- The state of a shiny. -/
def shiny (p : Player) (key : String) : ShinyState := p.shinies.getD key .never

/-! ## Variables -/

/-- Binds a name, to the greater value if it is bound already. -/
def bindGreatest (vars : Formula.Variables) (name : String) (x : Float) : Formula.Variables :=
  match vars.get? name with
  | some y => vars.insert name (Binary64.greater y x)
  | none => vars.insert name x

/-- The names that a resource gives: its balance and its statistics. -/
def resourceBindings (p : Player) (key : String) (balance : UInt64) : List (String × Float) :=
  let stats := p.statsOf key
  [(key, balance.toFloat), (key ++ ":max", stats.max.toFloat),
    (key ++ ":earned", stats.earned.toFloat), (key ++ ":ps", stats.perTick)]

/-- All names that formulas may use for this player, with their values. -/
def bindings (p : Player) : List (String × Float) :=
  p.resources.entries.flatMap (fun e => p.resourceBindings e.1 e.2) ++
    p.buildings.entries.map (fun e => (e.1, e.2.toFloat)) ++
    p.upgrades.entries.map (fun e => (e.1, Formula.numberOf e.2)) ++
    p.achievements.entries.map (fun e => (e.1, e.2.toFloat)) ++
    [("prestige", p.prestige.toFloat)]

/-- The variables of a player.  Of several values under one name the greatest stands. -/
def formulaVariables (p : Player) : Formula.Variables :=
  p.bindings.foldl (fun vars e => bindGreatest vars e.1 e.2) .empty

/-! ## Log, start and prestige -/

/-- Adds a message, and keeps no more than the latest `capacity`. -/
def pushLog (p : Player) (message : String) (capacity : Nat) : Player :=
  let log := p.log ++ [message]
  { p with log := log.drop (log.length - capacity) }

/-- Starts a resource with its first amount. -/
def startResource (p : Player) (key : String) (initial : Float) : Player :=
  setResource
    { p with
      multipliers := p.multipliers.insert key 1.0
      stats := p.stats.insert key .none } key initial

/-- A player at the start of the game. -/
def start (id : String) (catalog : Catalog) (now : UInt64) : Player :=
  let p := { blank with
    id := id
    lastUpdate := now
    buildings := catalog.buildings.map (fun _ item => wholeCount item.initial)
    upgrades := catalog.upgrades.map (fun _ _ => false) }
  catalog.resources.foldl (fun p key item => p.startResource key item.initial) p

/-- Sets every resource that the player or the catalog knows back to its first amount. -/
def resetResources (p : Player) (catalog : Catalog) : Player :=
  (p.resources.keys ++ catalog.resources.keys).foldl
    (fun p key => p.setResource key (catalog.initialAmount key)) p

/-- What prestige takes and gives: first amounts, no buildings, and a higher count. -/
def resetProgress (p : Player) (catalog : Catalog) : Player :=
  let p := p.resetResources catalog
  { p with
    buildings := p.buildings.map (fun _ _ => 0)
    prestige := Saturating.add32 p.prestige 1 }

end Player

end IncrementalGame
