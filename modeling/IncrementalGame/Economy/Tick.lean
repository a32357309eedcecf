import IncrementalGame.Economy.Achievements

/-!
# Ticks

A tick pays out what the buildings yield.  First all yields and all multipliers of upgrades are
added up from the player as it stands.  Each resource is then credited with its yield, times the sum
of the multipliers of upgrades (`upgradeFactor`), times its lasting multiplier.  The rates of all
resources are booked, shinies whose time is over stop shining, and the achievements are passed over.

* The yields of a building see how many of it are owned as `count` and `tier`.
* The gate of a building is tried once for all its yields; the multipliers of upgrades have neither
  gate nor condition.
* A formula without a value adds nothing.
-/

namespace IncrementalGame

/-- What a tick did. -/
structure TickReport where
  /-- What each resource was credited with. -/
  credited : KeyMap Float
  /-- The levels of achievements that were unlocked. -/
  unlocked : List (String × UInt32)
  /-- How many shinies stopped shining. -/
  expired : Nat
  deriving DecidableEq, Inhabited

namespace Economy

/-- Sums by resource. -/
abbrev Totals := KeyMap Float

/-- Adds an amount to the sum of a resource. -/
def Totals.add (totals : Totals) (resource : String) (amount : Float) : Totals :=
  totals.update resource 0.0 (· + amount)

/-! ## Sums -/

/-- Adds up yields whose conditions hold. -/
def addYields (vars : Formula.Variables) : List Effect → Totals → Rule Totals
  | [], totals => return totals
  | effect :: rest, totals => do
    if ← Rule.holdsIfAny effect.condition vars then
      match ← Rule.amount effect vars with
      | some x => addYields vars rest (totals.add effect.target x)
      | none => addYields vars rest totals
    else addYields vars rest totals

/-- The names that the yields of a building may use. -/
def countVariables (vars : Formula.Variables) (owned : UInt32) : Formula.Variables :=
  (vars.insert "count" owned.toFloat).insert "tier" owned.toFloat

/-- Adds up the yields of one kind of building. -/
def addBuilding (e : Economy) (vars : Formula.Variables) (key : String) (owned : UInt32)
    (totals : Totals) : Rule Totals := do
  if owned = 0 then return totals
  match e.catalog.buildings.get? key with
  | none => return totals
  | some item =>
    let vars := countVariables vars owned
    if ← Rule.passes item.gate vars then addYields vars (item.effectsOf .yields) totals
    else return totals

/-- What the buildings of a player yield, by resource. -/
def totalYield (e : Economy) : Rule Totals := do
  let p ← Rule.player
  let vars := p.formulaVariables
  p.buildings.entries.foldlM (fun totals b => e.addBuilding vars b.1 b.2 totals) KeyMap.empty

/-- Adds up multipliers. -/
def addFactors (vars : Formula.Variables) : List Effect → Totals → Rule Totals
  | [], totals => return totals
  | effect :: rest, totals => do
    match ← Rule.amount effect vars with
    | some x => addFactors vars rest (totals.add effect.target x)
    | none => addFactors vars rest totals

/-- Adds up the multipliers of an upgrade, if it is owned. -/
def addUpgrade (e : Economy) (vars : Formula.Variables) (key : String) (owned : Bool)
    (totals : Totals) : Rule Totals :=
  match owned, e.catalog.upgrades.get? key with
  | true, some item => addFactors vars (item.effectsOf .multiplies) totals
  | _, _ => return totals

/-- The sum of the multipliers of a player's upgrades, by resource. -/
def totalMultiplier (e : Economy) : Rule Totals := do
  let p ← Rule.player
  let vars := p.formulaVariables
  p.upgrades.entries.foldlM (fun totals u => e.addUpgrade vars u.1 u.2 totals) KeyMap.empty

/-! ## Payment -/

/-- The factor that upgrades give a resource: the sum of their multipliers, or one if there is none
or if it is no further than `Binary64.epsilon` from zero. -/
def upgradeFactor (multipliers : Totals) (resource : String) : Float :=
  match multipliers.get? resource with
  | some m => if Binary64.epsilon < m.abs then m else 1.0
  | none => 1.0

/-- What each resource is credited with. -/
def credits (yields multipliers : Totals) (p : Player) : KeyMap Float :=
  yields.map fun resource x => x * upgradeFactor multipliers resource * p.multiplier resource

/-- Books what the last tick has credited to each resource. -/
def bookRates (credited : KeyMap Float) (p : Player) : Player :=
  { p with
    stats := p.resources.keys.foldl
      (fun stats resource => stats.update resource .none fun s =>
        { s with perTick := credited.getD resource 0.0 }) p.stats }

/-! ## Shinies -/

/-- Whether the time of a shiny is over.  It never is where no duration is declared. -/
def isOver (e : Economy) (now : UInt64) (key : String) (s : ShinyState) : Bool :=
  match (e.catalog.shinies.get? key).bind (·.numberProperty "duration") with
  | some seconds => decide (seconds * 1000.0 ≤ (Saturating.sub64 now s.lastSpawn).toFloat)
  | none => false

/-- The state of a shiny once its time may be over. -/
def settle (e : Economy) (now : UInt64) (key : String) (s : ShinyState) : ShinyState :=
  if s.active && e.isOver now key s then { s with active := false } else s

/-- Ends the shinies whose time is over, and gives their number. -/
def expireShinies (e : Economy) (now : UInt64) : Rule Nat := do
  let p ← Rule.player
  Rule.change fun p => { p with shinies := p.shinies.map (e.settle now) }
  return p.shinies.entries.countP fun s => s.2.active && e.isOver now s.1 s.2

/-! ## The tick -/

/-- Advances the player by one tick. -/
def tick (e : Economy) (now : UInt64) : Rule TickReport := do
  let yields ← e.totalYield
  let multipliers ← e.totalMultiplier
  let credited := credits yields multipliers (← Rule.player)
  Rule.change fun p => credited.foldl Player.addResource p
  Rule.change (bookRates credited)
  let expired ← e.expireShinies now
  let unlocked ← e.unlockAchievements
  Rule.change fun p => { p with lastUpdate := now }
  return ⟨credited, unlocked, expired⟩

end Economy

end IncrementalGame
