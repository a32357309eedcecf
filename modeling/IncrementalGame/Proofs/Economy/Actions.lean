import Mathlib.Tactic.Common
import IncrementalGame.Proofs.Fallible
import IncrementalGame.Proofs.Economy.Quiet

/-!
# What commands do

A command is either refused, and then the world is as it was, or it pays, changes what is owned, and
announces that with one message and one event (`World.announced`).  For each command this is one
statement with all that holds where it is not refused (`buyUpgrade_cases`, `buyBuilding_cases`,
`sell_cases`, `performPrestige_cases`); nothing else needs to look into the definitions.
-/

namespace IncrementalGame

/-- The world in which the player has become another one, and this is announced. -/
def World.announced (w : World) (e : Economy) (p : Player) (message : String) (event : Event) :
    World :=
  { w with
    player := p.pushLog message e.settings.logCapacity.toNat
    raised := w.raised ++ [event] }

namespace Rule

theorem player_apply (w : World) : player w = (w.player, w) := rfl

theorem change_apply (f : Player → Player) (w : World) :
    change f w = ((), { w with player := f w.player }) := rfl

theorem announce_apply (e : Economy) (message : String) (event : Event) (w : World) :
    announce e message event w = ((), w.announced e w.player message event) := rfl

end Rule

/-! ## The parts of a command -/

namespace Action

variable {w : World} {item : Item} {cost : KeyMap Float}

theorem require_ok (h : w.player.missing item = []) : require item w = (.ok (), w) := by
  rw [require, Fallible.bind_lift, Rule.player_apply]
  simp only [h]
  rw [Fallible.pure_apply]

theorem require_error {key : String} {keys : List String}
    (h : w.player.missing item = key :: keys) :
    require item w = (.error (.requirementsNotMet item.key (key :: keys)), w) := by
  rw [require, Fallible.bind_lift, Rule.player_apply]
  simp only [h]
  rw [Fallible.throw_apply]

theorem pay_ok {q : Player} (h : w.player.spend cost = .ok q) :
    pay cost w = (.ok (), { w with player := q }) := by
  rw [pay, Fallible.bind_lift, Rule.player_apply]
  simp only [h]
  rfl

theorem pay_error {refusal : EconomyError} (h : w.player.spend cost = .error refusal) :
    pay cost w = (.error refusal, w) := by
  rw [pay, Fallible.bind_lift, Rule.player_apply]
  simp only [h]
  rw [Fallible.throw_apply]

end Action

namespace Economy

variable (e : Economy) (item : Item) (w : World)

/-! ## Buying -/

/-- An upgrade that is not owned, whose requirements are met and whose cost is paid. -/
theorem buyUpgrade_ok (howned : w.player.hasUpgrade item.key = false)
    (hmet : w.player.missing item = []) {q : Player} (hspend : w.player.spend item.cost = .ok q) :
    e.buyUpgrade item w =
      (.ok ⟨item.key, "upgrades", item.cost, 1⟩,
        w.announced e { q with upgrades := q.upgrades.insert item.key true }
          ("Bought upgrade: " ++ item.name) (.upgradeBought q.id item.key)) := by
  rw [buyUpgrade, Fallible.bind_lift, Rule.player_apply]
  simp only
  rw [howned, if_neg Bool.false_ne_true, Fallible.bind_ok _ (Action.require_ok hmet),
    Fallible.bind_ok _ (Action.pay_ok hspend), Fallible.bind_lift, Rule.change_apply,
    Fallible.bind_lift, Rule.player_apply, Fallible.bind_lift, Rule.announce_apply,
    Fallible.pure_apply]
  rfl

/-- **An upgrade is bought** if it is not owned, its requirements are met and it is paid for. -/
theorem buyUpgrade_cases :
    (∃ refusal, e.buyUpgrade item w = (.error refusal, w)) ∨
      ∃ q, w.player.hasUpgrade item.key = false ∧ w.player.missing item = [] ∧
        w.player.spend item.cost = .ok q ∧
        e.buyUpgrade item w =
          (.ok ⟨item.key, "upgrades", item.cost, 1⟩,
            w.announced e { q with upgrades := q.upgrades.insert item.key true }
              ("Bought upgrade: " ++ item.name) (.upgradeBought q.id item.key)) := by
  by_cases hgranted : w.player.hasUpgrade item.key = false ∧ w.player.missing item = [] ∧
      ∃ q, w.player.spend item.cost = .ok q
  · obtain ⟨howned, hmet, q, hspend⟩ := hgranted
    exact .inr ⟨q, howned, hmet, hspend, e.buyUpgrade_ok item w howned hmet hspend⟩
  · left
    rw [buyUpgrade, Fallible.bind_lift, Rule.player_apply]
    simp only
    by_cases howned : w.player.hasUpgrade item.key = true
    · rw [if_pos howned]
      exact ⟨_, Fallible.bind_error _ (Fallible.throw_apply _ w)⟩
    · rw [if_neg howned]
      cases hmissing : w.player.missing item with
      | cons key keys => exact ⟨_, Fallible.bind_error _ (Action.require_error hmissing)⟩
      | nil =>
        rw [Fallible.bind_ok _ (Action.require_ok hmissing)]
        cases hspend : w.player.spend item.cost with
        | error refusal => exact ⟨_, Fallible.bind_error _ (Action.pay_error hspend)⟩
        | ok q => exact absurd ⟨by simpa using howned, hmissing, q, hspend⟩ hgranted

/-- How many buildings of a kind are owned when one more is bought. -/
def nextCount (p : Player) (key : String) : UInt32 := Saturating.add32 (p.building key) 1

/-- The next building of a kind whose requirements are met and whose price is paid. -/
theorem buyBuilding_ok (hmet : w.player.missing item = []) {q : Player}
    (hspend : w.player.spend (item.nextCost (w.player.building item.key)) = .ok q) :
    e.buyBuilding item w =
      (.ok ⟨item.key, "buildings", item.nextCost (w.player.building item.key),
        nextCount q item.key⟩,
        w.announced e
          { q with buildings := q.buildings.insert item.key (nextCount q item.key) }
          ("Bought building: " ++ item.name ++ " (now have " ++
            toString (nextCount q item.key).toNat ++ ")")
          (.buildingBought q.id item.key (nextCount q item.key))) := by
  unfold buyBuilding
  rw [Fallible.bind_ok _ (Action.require_ok hmet), Fallible.bind_lift, Rule.player_apply]
  simp only
  rw [Fallible.bind_ok _ (Action.pay_ok hspend), Fallible.bind_lift, Rule.player_apply,
    Fallible.bind_lift, Rule.change_apply, Fallible.bind_lift, Rule.player_apply,
    Fallible.bind_lift, Rule.announce_apply, Fallible.pure_apply]
  rfl

/-- **A building is bought** if its requirements are met and the next one is paid for. -/
theorem buyBuilding_cases :
    (∃ refusal, e.buyBuilding item w = (.error refusal, w)) ∨
      ∃ q, w.player.missing item = [] ∧
        w.player.spend (item.nextCost (w.player.building item.key)) = .ok q ∧
        e.buyBuilding item w =
          (.ok ⟨item.key, "buildings", item.nextCost (w.player.building item.key),
            nextCount q item.key⟩,
            w.announced e
              { q with buildings := q.buildings.insert item.key (nextCount q item.key) }
              ("Bought building: " ++ item.name ++ " (now have " ++
                toString (nextCount q item.key).toNat ++ ")")
              (.buildingBought q.id item.key (nextCount q item.key))) := by
  by_cases hgranted : w.player.missing item = [] ∧
      ∃ q, w.player.spend (item.nextCost (w.player.building item.key)) = .ok q
  · obtain ⟨hmet, q, hspend⟩ := hgranted
    exact .inr ⟨q, hmet, hspend, e.buyBuilding_ok item w hmet hspend⟩
  · left
    unfold buyBuilding
    cases hmissing : w.player.missing item with
    | cons key keys => exact ⟨_, Fallible.bind_error _ (Action.require_error hmissing)⟩
    | nil =>
      rw [Fallible.bind_ok _ (Action.require_ok hmissing), Fallible.bind_lift, Rule.player_apply]
      simp only
      cases hspend : w.player.spend (item.nextCost (w.player.building item.key)) with
      | error refusal => exact ⟨_, Fallible.bind_error _ (Action.pay_error hspend)⟩
      | ok q => exact absurd ⟨hmissing, q, hspend⟩ hgranted

/-- What `buy` buys: the upgrade of the key, or else the building. -/
theorem buy_cases (key : String) :
    (∃ upgrade, e.catalog.upgrades.get? key = some upgrade ∧ e.buy key = e.buyUpgrade upgrade) ∨
      (∃ building, e.catalog.upgrades.get? key = none ∧
        e.catalog.buildings.get? key = some building ∧ e.buy key = e.buyBuilding building) ∨
      e.buy key = throw (.notFound "upgrades/buildings" key) := by
  unfold buy
  cases e.catalog.upgrades.get? key with
  | some upgrade => exact .inl ⟨upgrade, rfl, rfl⟩
  | none =>
    cases e.catalog.buildings.get? key with
    | some building => exact .inr (.inl ⟨building, rfl, rfl, rfl⟩)
    | none => exact .inr (.inr rfl)

/-! ## Selling -/

/-- **A building is sold** if one is owned; the refund is added first. -/
theorem sell_cases (key : String) :
    (∃ refusal, e.sell key w = (.error refusal, w)) ∨
      ∃ item p, e.catalog.buildings.get? key = some item ∧ w.player.building key ≠ 0 ∧
        p = (item.refund e.settings.refundRatio).foldl Player.addResource w.player ∧
        e.sell key w =
          (.ok (item.refund e.settings.refundRatio),
            w.announced e
              { p with buildings := p.buildings.insert key (w.player.building key - 1) }
              ("Sold building: " ++ item.name ++ " (now have " ++
                toString (w.player.building key - 1).toNat ++ ")")
              (.buildingSold p.id key (w.player.building key - 1))) := by
  unfold sell
  cases e.catalog.buildings.get? key with
  | none => exact .inl ⟨_, Fallible.throw_apply _ w⟩
  | some item =>
    simp only
    rw [Fallible.bind_lift, Rule.player_apply]
    simp only
    by_cases howned : w.player.building key = 0
    · left
      rw [if_pos howned]
      exact ⟨_, Fallible.bind_error _ (Fallible.throw_apply _ w)⟩
    · right
      refine ⟨item, _, rfl, howned, rfl, ?_⟩
      rw [if_neg howned, Fallible.bind_lift, Rule.change_apply, Fallible.bind_lift,
        Rule.change_apply, Fallible.bind_lift, Rule.player_apply, Fallible.bind_lift,
        Rule.announce_apply, Fallible.pure_apply]
      rfl

/-! ## Prestige -/

/-- A prestige that is paid for resets progress, lets its effects happen, and announces the level it
has come to. -/
theorem performPrestige_ok (now : UInt64) (hfound : e.catalog.prestige? = some item) {q : Player}
    (hspend : w.player.spend item.cost = .ok q) :
    let v := (e.execute now .empty item.block { w with player := q.resetProgress e.catalog }).2
    e.performPrestige now w =
      (.ok v.player.prestige,
        v.announced e v.player ("Performed prestige: " ++ item.name)
          (.prestige v.player.id v.player.prestige)) := by
  intro v
  rw [performPrestige, hfound]
  simp only
  rw [Fallible.bind_ok _ (Action.pay_ok hspend), Fallible.bind_lift, Rule.change_apply,
    Fallible.bind_lift, Fallible.bind_lift, Rule.player_apply, Fallible.bind_lift,
    Rule.announce_apply, Fallible.pure_apply]

/-- **Prestige is performed** if there is one and it is paid for: progress is reset, the effects of
the prestige happen, and the level it has come to is announced. -/
theorem performPrestige_cases (now : UInt64) :
    (∃ refusal, e.performPrestige now w = (.error refusal, w)) ∨
      ∃ item q v, e.catalog.prestige? = some item ∧ w.player.spend item.cost = .ok q ∧
        v = (e.execute now .empty item.block { w with player := q.resetProgress e.catalog }).2 ∧
        e.performPrestige now w =
          (.ok v.player.prestige,
            v.announced e v.player ("Performed prestige: " ++ item.name)
              (.prestige v.player.id v.player.prestige)) := by
  cases hfound : e.catalog.prestige? with
  | none =>
    left
    rw [performPrestige, hfound]
    exact ⟨_, Fallible.throw_apply _ w⟩
  | some item =>
    cases hspend : w.player.spend item.cost with
    | error refusal =>
      left
      rw [performPrestige, hfound]
      exact ⟨_, Fallible.bind_error _ (Action.pay_error hspend)⟩
    | ok q => exact .inr ⟨item, q, _, rfl, hspend, rfl, e.performPrestige_ok item w now hfound hspend⟩

end Economy

end IncrementalGame
