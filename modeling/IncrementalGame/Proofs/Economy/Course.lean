import Mathlib.Order.Defs.Unbundled
import IncrementalGame.Proofs.Economy.Actions
import IncrementalGame.Proofs.Economy.Rules

/-!
# The course of a game

Whatever is done to a player, by commands, ticks, passes or plain changes of a balance (`Move`),
leads through steps of two kinds (`Step`).

* A hushed step changes the player quietly and raises no event.
* A telling step settles one event: the player holds what the event says, is changed quietly after
  that, and then the event is raised and its message written to the log.  The event is due
  (`Due`): it carries the next count, or a level above the present one, and the message that goes
  with it.

`course_move` says so of every move, so what both kinds of steps keep, every run of moves keeps.
-/

namespace IncrementalGame

/-! ## What events say -/

/-- What holds after an event, whatever it was before. -/
def Player.Holdings.replay (h : Player.Holdings) : Event → Player.Holdings
  | .buildingBought _ building amount =>
    { h with buildings := h.buildings.insert building amount }
  | .buildingSold _ building amount =>
    { h with buildings := h.buildings.insert building amount }
  | .upgradeBought _ upgrade => { h with upgrades := h.upgrades.insert upgrade true }
  | .achievementUnlocked _ achievement level =>
    { h with achievements := h.achievements.insert achievement level }
  | .prestige _ level => { h with buildings := h.buildings.map fun _ _ => 0, prestige := level }

/-- The player that holds what an event says. -/
def Player.settle (p : Player) (event : Event) : Player :=
  let h := p.holdings.replay event
  { p with
    buildings := h.buildings
    upgrades := h.upgrades
    achievements := h.achievements
    prestige := h.prestige }

theorem Player.holdings_settle (p : Player) (event : Event) :
    (p.settle event).holdings = p.holdings.replay event := rfl

/-- The events that may arise for a player, each with its message. -/
inductive Due (catalog : Catalog) (p : Player) : Event → String → Prop where
  | buildingBought {listed : String} {item : Item}
    (found : catalog.buildings.get? listed = some item) :
    Due catalog p (.buildingBought p.id item.key (Economy.nextCount p item.key))
      ("Bought building: " ++ item.name ++ " (now have " ++
        toString (Economy.nextCount p item.key).toNat ++ ")")
  | upgradeBought {listed : String} {item : Item}
    (found : catalog.upgrades.get? listed = some item) (fresh : p.hasUpgrade item.key = false) :
    Due catalog p (.upgradeBought p.id item.key) ("Bought upgrade: " ++ item.name)
  | buildingSold {key : String} {item : Item}
    (found : catalog.buildings.get? key = some item) (owned : p.building key ≠ 0) :
    Due catalog p (.buildingSold p.id key (p.building key - 1))
      ("Sold building: " ++ item.name ++ " (now have " ++
        toString (p.building key - 1).toNat ++ ")")
  | prestige {item : Item} (found : catalog.prestige? = some item) :
    Due catalog p (.prestige p.id (Saturating.add32 p.prestige 1))
      ("Performed prestige: " ++ item.name)
  | achievementUnlocked {key : String} {item : Item} {level : AchievementLevel}
    (found : catalog.achievements.get? key = some item) (declared : level ∈ item.levels)
    (above : p.achievementLevel key < level.level) :
    Due catalog p (.achievementUnlocked p.id key level.level)
      ("Achievement unlocked: " ++ item.name ++ " (level " ++ toString level.level.toNat ++ ")")

/-! ## Steps -/

/-- One step of a game. -/
inductive Step (e : Economy) : World → World → Prop where
  | hush {v w : World} (h : Hushed e.catalog v w) : Step e v w
  | tell {v w : World} {p q : Player} {event : Event} {message : String}
    (before : Quiet e.catalog v.player p) (due : Due e.catalog p event message)
    (after : Quiet e.catalog (p.settle event) q)
    (player : w.player = q.pushLog message e.settings.logCapacity.toNat)
    (raised : w.raised = v.raised ++ [event]) (stuck : Stuck v w) : Step e v w

/-- Steps of a game, one after the other. -/
def Course (e : Economy) : World → World → Prop := Relation.ReflTransGen (Step e)

instance (e : Economy) : Std.Refl (Course e) := ⟨fun _ => Relation.ReflTransGen.refl⟩

instance (e : Economy) : IsTrans World (Course e) := ⟨fun _ _ _ => Relation.ReflTransGen.trans⟩

namespace Course

variable {e : Economy}

theorem hush {v w : World} (h : Hushed e.catalog v w) : Course e v w :=
  Relation.ReflTransGen.single (.hush h)

/-- What relates a world to each step from it relates it to a whole course. -/
theorem along (rel : World → World → Prop) (hrefl : ∀ w, rel w w)
    (htrans : ∀ {u v w}, rel u v → rel v w → rel u w)
    (h : ∀ {v w : World}, Step e v w → rel v w) {v w : World} (hc : Course e v w) : rel v w := by
  induction hc with
  | refl => exact hrefl v
  | tail _ hstep ih => exact htrans ih (h hstep)

/-- What each step preserves, a course preserves. -/
theorem preserves (holds : World → Prop)
    (h : ∀ {v w : World}, Step e v w → holds v → holds w) {v w : World} (hc : Course e v w) :
    holds v → holds w :=
  hc.along (fun v w => holds v → holds w) (fun _ h => h) (fun huv hvw hu => hvw (huv hu)) h

/-- Whatever is done to a player, it stays the same one. -/
theorem id_eq {v w : World} (hc : Course e v w) : w.player.id = v.player.id := by
  refine hc.preserves (fun w => w.player.id = v.player.id) ?_ rfl
  intro u w hstep h
  cases hstep with
  | hush hquiet => exact hquiet.1.same.1.trans h
  | @tell p q event message before due after player raised _ =>
    have hsettled : q.id = p.id := after.same.1
    rw [player]
    exact (hsettled.trans before.same.1).trans h

/-- **A break is final**, whatever is done after it. -/
theorem stuck {v w : World} (hc : Course e v w) : Stuck v w := by
  refine hc.along Stuck (fun _ => .of_eq rfl rfl) Stuck.trans ?_
  intro v w hstep
  cases hstep with
  | hush hquiet => exact hquiet.stuck
  | tell _ _ _ _ _ hstuck => exact hstuck

end Course

theorem Rule.Keeps.course {e : Economy} {α : Type} {rule : Rule α}
    (h : rule.Keeps (Hushed e.catalog)) : rule.Keeps (Course e) := h.mono Course.hush

namespace Economy

variable (e : Economy) (w : World)

/-! ## Commands -/

/-- A count that quiet changes and the settling of an event lead to is the one of the event. -/
theorem building_eq_of_quiet {p q : Player} (h : Quiet e.catalog p q) (key : String) :
    q.building key = p.building key := by
  rw [Player.building, Player.building, show q.buildings = p.buildings from
    congrArg Player.Holdings.buildings h.same.2.1]

theorem hasUpgrade_eq_of_quiet {p q : Player} (h : Quiet e.catalog p q) (key : String) :
    q.hasUpgrade key = p.hasUpgrade key := by
  rw [Player.hasUpgrade, Player.hasUpgrade, show q.upgrades = p.upgrades from
    congrArg Player.Holdings.upgrades h.same.2.1]

/-- A purchase is refused, or it is one telling step. -/
theorem course_buy (key : String) : Course e w (e.buy key w).2 := by
  rcases e.buy_cases key with ⟨upgrade, hfound, hbuy⟩ | ⟨building, _, hfound, hbuy⟩ | hbuy
  · rw [hbuy]
    rcases e.buyUpgrade_cases upgrade w with ⟨refusal, h⟩ | ⟨q, hfresh, _, hspend, h⟩
    · rw [h]
      exact Relation.ReflTransGen.refl
    · rw [h]
      have hquiet := quiet_spend e.catalog hspend
      refine Relation.ReflTransGen.single (.tell hquiet (.upgradeBought hfound ?_) (.refl _) rfl rfl
        (.of_eq rfl rfl))
      rw [e.hasUpgrade_eq_of_quiet hquiet, hfresh]
  · rw [hbuy]
    rcases e.buyBuilding_cases building w with ⟨refusal, h⟩ | ⟨q, _, hspend, h⟩
    · rw [h]
      exact Relation.ReflTransGen.refl
    · rw [h]
      exact Relation.ReflTransGen.single
        (.tell (quiet_spend e.catalog hspend) (.buildingBought hfound) (.refl _) rfl rfl
          (.of_eq rfl rfl))
  · rw [hbuy]
    exact Relation.ReflTransGen.refl

/-- A sale is refused, or it is one telling step. -/
theorem course_sell (key : String) : Course e w (e.sell key w).2 := by
  rcases e.sell_cases w key with ⟨refusal, h⟩ | ⟨item, p, hfound, howned, hp, h⟩
  · rw [h]
    exact Relation.ReflTransGen.refl
  · rw [h]
    have hquiet : Quiet e.catalog w.player p := hp ▸ quiet_addAll e.catalog _ w.player
    have hcount := e.building_eq_of_quiet hquiet key
    rw [← hcount] at howned ⊢
    exact Relation.ReflTransGen.single
      (.tell hquiet (.buildingSold hfound howned) (.refl _) rfl rfl (.of_eq rfl rfl))

/-- A prestige is refused, or it is one telling step, in the middle of which its effects happen. -/
theorem course_performPrestige (now : UInt64) : Course e w (e.performPrestige now w).2 := by
  rcases e.performPrestige_cases w now with ⟨refusal, h⟩ | ⟨item, q, v, hfound, hspend, hv, h⟩
  · rw [h]
    exact Relation.ReflTransGen.refl
  · rw [h]
    have hbefore := (quiet_spend e.catalog hspend).trans (quiet_resetResources e.catalog q)
    have hhushed := e.keeps_execute now .empty item.block
      { w with player := q.resetProgress e.catalog }
    rw [← hv] at hhushed
    obtain ⟨hafter, hraised, hstuck⟩ := hhushed
    have hid : v.player.id = (q.resetResources e.catalog).id := hafter.same.1
    have hlevel : v.player.prestige = Saturating.add32 (q.resetResources e.catalog).prestige 1 :=
      congrArg Player.Holdings.prestige hafter.same.2.1
    refine Relation.ReflTransGen.single (.tell hbefore (.prestige hfound) hafter rfl ?_ hstuck)
    show v.raised ++ [Event.prestige v.player.id v.player.prestige] = _
    rw [hraised, hid, hlevel]

/-! ## Achievements -/

/-- An unlocked level is one telling step; its rewards are added in the middle of it. -/
theorem course_unlock {item : Item} {key : String} {level : AchievementLevel}
    (hfound : e.catalog.achievements.get? key = some item) (hdeclared : level ∈ item.levels)
    (habove : w.player.achievementLevel key < level.level) :
    Course e w (e.unlock item key level w).2 := by
  have hafter := quiet_addAll e.catalog level.rewards
    (w.player.settle (.achievementUnlocked w.player.id key level.level))
  have hid : (level.rewards.foldl Player.addResource
      (w.player.settle (.achievementUnlocked w.player.id key level.level))).id = w.player.id :=
    hafter.same.1
  refine Relation.ReflTransGen.single
    (.tell (.refl w.player) (.achievementUnlocked hfound hdeclared habove) hafter rfl ?_
      (.of_eq rfl rfl))
  rw [← hid]
  rfl

theorem course_tryLevel {item : Item} {key : String} {level : AchievementLevel}
    (hfound : e.catalog.achievements.get? key = some item) (hdeclared : level ∈ item.levels) :
    (e.tryLevel item key level).Keeps (Course e) := by
  intro w
  rw [tryLevel, Rule.bind_apply, Rule.player_apply]
  simp only
  by_cases hlevel : level.level ≤ w.player.achievementLevel key
  · rw [if_pos hlevel]
    exact Relation.ReflTransGen.refl
  · rw [if_neg hlevel, Rule.bind_apply]
    have hstill := Rule.keeps_holds level.condition w.player.formulaVariables w
    refine (Course.hush (hstill.hushed e.catalog)).trans ?_
    split
    · refine Relation.ReflTransGen.trans (course_unlock e _ hfound hdeclared ?_)
        Relation.ReflTransGen.refl
      rw [hstill.player]
      exact UInt32.not_le.mp hlevel
    · exact Relation.ReflTransGen.refl

/-- A pass over the achievements is a course of telling steps, one for each level unlocked. -/
theorem course_unlockAchievements : e.unlockAchievements.Keeps (Course e) :=
  keeps_unlockAchievements_of fun _ _ hfound _ hdeclared => e.course_tryLevel hfound hdeclared

/-! ## Ticks -/

/-- A tick is hushed but for the achievements. -/
theorem course_tick (now : UInt64) : (e.tick now).Keeps (Course e) := by
  refine e.keeps_totalYield.hushed.course.bind fun yields => ?_
  refine e.keeps_totalMultiplier.hushed.course.bind fun multipliers => ?_
  refine Rule.keeps_player.bind fun p => ?_
  refine (Rule.keeps_change fun p => quiet_addAll e.catalog _ p).course.bind fun _ => ?_
  refine (Rule.keeps_change fun p => .step (.rates p _)).course.bind fun _ => ?_
  refine (e.keeps_expireShinies now).course.bind fun expired => ?_
  refine e.course_unlockAchievements.bind fun unlocked => ?_
  exact (Rule.keeps_change fun p => .step (.clock p now)).course.bind fun _ => Rule.keeps_pure _

end Economy

/-! ## Moves -/

/-- What may be done to a player. -/
inductive Move where
  | buy (key : String)
  | sell (key : String)
  | performPrestige (now : UInt64)
  | tick (now : UInt64)
  | unlockAchievements
  | expireShinies (now : UInt64)
  | execute (now : UInt64) (extra : Formula.Variables) (block : EffectBlock)
  | add (resource : String) (x : Float)
  | remove (resource : String) (x : Float)

namespace Move

/-- What a move does under an economy; a refusal is no more than that nothing is done. -/
def rule (e : Economy) : Move → Rule Unit
  | buy key => discard (e.buy key).run
  | sell key => discard (e.sell key).run
  | performPrestige now => discard (e.performPrestige now).run
  | tick now => discard (e.tick now)
  | unlockAchievements => discard e.unlockAchievements
  | expireShinies now => discard (e.expireShinies now)
  | execute now extra block => discard (e.execute now extra block)
  | add resource x => Rule.change fun p => p.addResource resource x
  | remove resource x => Rule.change fun p => p.removeResource resource x

/-- **Every move leads through hushed and telling steps.** -/
theorem course_move (e : Economy) (move : Move) : (move.rule e).Keeps (Course e) := by
  intro w
  cases move with
  | buy key => exact e.course_buy w key
  | sell key => exact e.course_sell w key
  | performPrestige now => exact e.course_performPrestige w now
  | tick now => exact e.course_tick now w
  | unlockAchievements => exact e.course_unlockAchievements w
  | expireShinies now => exact (e.keeps_expireShinies now).course w
  | execute now extra block => exact (e.keeps_execute now extra block).course w
  | add resource x => exact Course.hush (Quiet.step (.add _ resource x)).hushed
  | remove resource x => exact Course.hush (Quiet.step (.remove _ resource x)).hushed

/-- Does moves one after the other. -/
def run (e : Economy) : List Move → World → World
  | [], w => w
  | move :: rest, w => run e rest (move.rule e w).2

theorem course_run (e : Economy) (moves : List Move) (w : World) : Course e w (run e moves w) := by
  induction moves generalizing w with
  | nil => exact Relation.ReflTransGen.refl
  | cons move rest ih => exact (course_move e move w).trans (ih _)

end Move

end IncrementalGame
