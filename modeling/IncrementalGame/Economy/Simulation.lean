import IncrementalGame.Economy.Tick
import IncrementalGame.Economy.Trade

/-!
# Simulation

A simulated player buys whatever it can: each step tries every upgrade that is not owned and then
every building, once each and in key order, and then the clock moves on and a tick follows.
-/

namespace IncrementalGame

/-- What a simulation did. -/
structure SimulationReport where
  steps : Nat
  /-- What was bought, and in which step, counted from zero. -/
  purchases : List (Nat × String)
  /-- The levels of achievements that were unlocked. -/
  unlocked : List (String × UInt32)
  deriving DecidableEq, Inhabited

namespace Economy

/-- How far the clock moves in a step unless something else is asked for, in milliseconds. -/
def defaultStep : UInt64 := 1000

/-- Tries to buy, and says whether that went well. -/
def tryBuy (e : Economy) (key : String) : Rule Bool := do
  return (← (e.buy key).run).isOk

/-- Tries to buy an upgrade that is not owned. -/
def tryUpgrade (e : Economy) (key : String) : Rule Bool := do
  if (← Rule.player).hasUpgrade key then return false else e.tryBuy key

/-- Tries to buy a building, unless an upgrade has its key. -/
def tryBuilding (e : Economy) (key : String) : Rule Bool :=
  if e.catalog.upgrades.contains key then return false else e.tryBuy key

/-- The keys for which an attempt goes well, in order. -/
def succeeding (attempt : String → Rule Bool) : List String → Rule (List String)
  | [] => return []
  | key :: rest => do
    let bought ← attempt key
    let others ← succeeding attempt rest
    return if bought then key :: others else others

/-- Buys what can be bought, and lists it. -/
def buyAll (e : Economy) : Rule (List String) := do
  let upgrades ← succeeding e.tryUpgrade e.catalog.upgrades.keys
  let buildings ← succeeding e.tryBuilding e.catalog.buildings.keys
  return upgrades ++ buildings

/-- Takes so many steps, of which the first has the given index. -/
def simulateFrom (e : Economy) (stride : UInt64) :
    (steps index : Nat) → (clock : UInt64) → Rule SimulationReport
  | 0, _, _ => return ⟨0, [], []⟩
  | steps + 1, index, clock => do
    let bought ← e.buyAll
    let clock := Saturating.add64 clock stride
    let report ← e.tick clock
    let rest ← e.simulateFrom stride steps (index + 1) clock
    return ⟨rest.steps + 1, bought.map (fun key => (index, key)) ++ rest.purchases,
      report.unlocked ++ rest.unlocked⟩

/-- Takes so many steps, each of which moves the clock on by `stride`. -/
def simulate (e : Economy) (steps : Nat) (stride : UInt64) : Rule SimulationReport := do
  e.simulateFrom stride steps 0 (← Rule.player).lastUpdate

end Economy

end IncrementalGame
