import IncrementalGame.Economy.World

/-!
# Buying and selling

An upgrade is bought once, at its cost.  A building is bought at its cost times the number that will
be owned then, and sold for a part of its cost, whatever the number.  Both kinds may have
requirements: keys of which the player has to have something.

Of an upgrade and a building with the same key only the upgrade can be bought.
-/

namespace IncrementalGame

/-- What was bought. -/
structure Purchase where
  key : String
  category : String
  cost : KeyMap Float
  /-- How many are owned now. -/
  owned : UInt32
  deriving DecidableEq, Inhabited

/-- What the next building costs where so many are owned. -/
def Item.nextCost (item : Item) (owned : UInt32) : KeyMap Float :=
  let factor := owned.toFloat + 1.0
  item.cost.map fun _ base => base * factor

/-- What a building brings back at some ratio. -/
def Item.refund (item : Item) (ratio : Float) : KeyMap Float :=
  item.cost.map fun _ base => base * ratio

/-- The requirements of an item that a player does not meet. -/
def Player.missing (p : Player) (item : Item) : List String :=
  item.requirements.filter fun key => !p.has key

namespace Action

/-- Goes on only if the requirements of an item are met. -/
def require (item : Item) : Action Unit := do
  match (← Rule.player).missing item with
  | [] => return
  | missing => throw (.requirementsNotMet item.key missing)

/-- Pays a cost. -/
def pay (cost : KeyMap Float) : Action Unit := do
  match (← Rule.player).spend cost with
  | .ok p => Rule.change fun _ => p
  | .error refusal => throw refusal

end Action

namespace Economy

/-- Buys an upgrade. -/
def buyUpgrade (e : Economy) (item : Item) : Action Purchase := do
  if (← Rule.player).hasUpgrade item.key then throw (.alreadyOwned item.key)
  Action.require item
  Action.pay item.cost
  Rule.change fun p => { p with upgrades := p.upgrades.insert item.key true }
  Rule.announce e ("Bought upgrade: " ++ item.name)
    (.upgradeBought (← Rule.player).id item.key)
  return ⟨item.key, "upgrades", item.cost, 1⟩

/-- Buys the next building of a kind. -/
def buyBuilding (e : Economy) (item : Item) : Action Purchase := do
  Action.require item
  let cost := item.nextCost ((← Rule.player).building item.key)
  Action.pay cost
  let owned := Saturating.add32 ((← Rule.player).building item.key) 1
  Rule.change fun p => { p with buildings := p.buildings.insert item.key owned }
  Rule.announce e
    ("Bought building: " ++ item.name ++ " (now have " ++ toString owned.toNat ++ ")")
    (.buildingBought (← Rule.player).id item.key owned)
  return ⟨item.key, "buildings", cost, owned⟩

/-- Buys an upgrade or the next building of a kind. -/
def buy (e : Economy) (key : String) : Action Purchase :=
  match e.catalog.upgrades.get? key, e.catalog.buildings.get? key with
  | some upgrade, _ => e.buyUpgrade upgrade
  | none, some building => e.buyBuilding building
  | none, none => throw (.notFound "upgrades/buildings" key)

/-- Sells a building, and gives what it has brought back. -/
def sell (e : Economy) (key : String) : Action (KeyMap Float) := do
  match e.catalog.buildings.get? key with
  | none => throw (.notFound "buildings" key)
  | some item =>
    let owned := (← Rule.player).building key
    if owned = 0 then throw (.nothingToSell key)
    let refund := item.refund e.settings.refundRatio
    let remaining := owned - 1
    Rule.change fun p => refund.foldl Player.addResource p
    Rule.change fun p => { p with buildings := p.buildings.insert key remaining }
    Rule.announce e
      ("Sold building: " ++ item.name ++ " (now have " ++ toString remaining.toNat ++ ")")
      (.buildingSold (← Rule.player).id key remaining)
    return refund

end Economy

end IncrementalGame
