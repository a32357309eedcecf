import Mathlib.Data.Prod.Lex
import Mathlib.Tactic.Common
import IncrementalGame.Proofs.Economy.Course

/-!
# Achievements are paid once

The only place where the rewards of a level are paid is a pass over the achievements, and there each
level is compared with the level the player has at that very moment, which the levels before it may
have raised.  So along any moves every award is above what was reached before (`Granted.rising`),
and this alone keeps the same level from being paid again, in the same pass or in a later one,
whatever the order of the declared levels, and whatever the conditions and the rewards do.

* A pass makes of a player what its awards make of it, one after the other, and nothing else
  (`pass_unlockAchievements`).
* A move is an opening that leaves the levels alone, then the awards of a pass if there is one, and
  then perhaps the new time (`Move.exists_grants`).  Prestige is all opening.
* A run puts the moves together (`Move.exists_granting`), and its awards rise as those of a pass do.
-/

namespace IncrementalGame

/-! ## Awards -/

/-- A level of an achievement, to be given to a player. -/
structure Award where
  key : String
  item : Item
  level : AchievementLevel

namespace Award

/-- What an award is reported as. -/
def mark (a : Award) : String × UInt32 := (a.key, a.level.level)

/-- The event that tells of an award. -/
def event (id : String) (a : Award) : Event := .achievementUnlocked id a.key a.level.level

/-- Whether a catalog declares the level. -/
structure Declared (catalog : Catalog) (a : Award) : Prop where
  found : catalog.achievements.get? a.key = some a.item
  mem : a.level ∈ a.item.levels

/-- The player to whom an award is given: the level is reached, each of its rewards is added, and a
message is written. -/
def grant (e : Economy) (p : Player) (a : Award) : Player :=
  (a.level.rewards.foldl Player.addResource
    { p with achievements := p.achievements.insert a.key a.level.level }).pushLog
    ("Achievement unlocked: " ++ a.item.name ++ " (level " ++ toString a.level.level.toNat ++ ")")
    e.settings.logCapacity.toNat

variable (e : Economy) (p : Player) (a : Award)

theorem quiet_rewards (q : Player) :
    Quiet e.catalog q (a.level.rewards.foldl Player.addResource q) := quiet_addAll _ _ q

theorem achievements_grant :
    (a.grant e p).achievements = p.achievements.insert a.key a.level.level :=
  congrArg Player.Holdings.achievements (a.quiet_rewards e _).same.2.1

theorem id_grant : (a.grant e p).id = p.id := (a.quiet_rewards e _).same.1

theorem achievementLevel_grant_self : (a.grant e p).achievementLevel a.key = a.level.level := by
  rw [Player.achievementLevel, achievements_grant, KeyMap.getD, KeyMap.get?_insert_self]
  rfl

theorem achievementLevel_grant_of_ne {key : String} (h : key ≠ a.key) :
    (a.grant e p).achievementLevel key = p.achievementLevel key := by
  rw [Player.achievementLevel, achievements_grant, KeyMap.getD, KeyMap.get?_insert_of_ne _ h]
  rfl

end Award

/-- Whether awards of a catalog, each above the level reached before it, make one player of
another. -/
inductive Granted (e : Economy) : Player → List Award → Player → Prop where
  | nil (p : Player) : Granted e p [] p
  | cons {p q : Player} {a : Award} {awards : List Award} (declared : a.Declared e.catalog)
    (above : p.achievementLevel a.key < a.level.level) (rest : Granted e (a.grant e p) awards q) :
    Granted e p (a :: awards) q

namespace Granted

variable {e : Economy} {p q r : Player} {awards others : List Award}

theorem append (h : Granted e p awards q) (h' : Granted e q others r) :
    Granted e p (awards ++ others) r := by
  induction h with
  | nil p => exact h'
  | cons declared above rest ih => exact .cons declared above (ih h')

theorem id_eq (h : Granted e p awards q) : q.id = p.id := by
  induction h with
  | nil p => rfl
  | @cons p q a awards declared above rest ih => exact ih.trans (a.id_grant e p)

/-- No level goes down. -/
theorem level_le (h : Granted e p awards q) (key : String) :
    p.achievementLevel key ≤ q.achievementLevel key := by
  induction h with
  | nil p => exact UInt32.le_refl _
  | @cons p q a awards declared above rest ih =>
    refine UInt32.le_trans ?_ ih
    by_cases hkey : key = a.key
    · rw [hkey, a.achievementLevel_grant_self e p]
      exact UInt32.le_of_lt above
    · rw [a.achievementLevel_grant_of_ne e p hkey]
      exact UInt32.le_refl _

/-- An award is above what was reached before all of them. -/
theorem lt_of_mem (h : Granted e p awards q) {a : Award} (ha : a ∈ awards) :
    p.achievementLevel a.key < a.level.level := by
  induction h with
  | nil p => exact absurd ha List.not_mem_nil
  | @cons p q b awards declared above rest ih =>
    rcases List.mem_cons.mp ha with rfl | ha
    · exact above
    · have hgrant : Granted e p [b] (b.grant e p) := .cons declared above (.nil _)
      exact UInt32.lt_of_le_of_lt (hgrant.level_le a.key) (ih ha)

/-- What an award gives has been reached in the end. -/
theorem le_of_mem (h : Granted e p awards q) {a : Award} (ha : a ∈ awards) :
    a.level.level ≤ q.achievementLevel a.key := by
  induction h with
  | nil p => exact absurd ha List.not_mem_nil
  | @cons p q b awards declared above rest ih =>
    rcases List.mem_cons.mp ha with rfl | ha
    · rw [← a.achievementLevel_grant_self e p]
      exact rest.level_le a.key
    · exact ih ha

/-- **Awards of one achievement rise.** -/
theorem rising (h : Granted e p awards q) :
    awards.Pairwise fun a b => a.key = b.key → a.level.level < b.level.level := by
  induction h with
  | nil p => exact .nil
  | @cons p q a awards declared above rest ih =>
    refine .cons (fun b hb hkey => ?_) ih
    have hlt := rest.lt_of_mem hb
    rwa [← hkey, a.achievementLevel_grant_self e p] at hlt

end Granted

/-! ## Passes -/

/-- Whether one world has become another by giving awards, and each of them was told. -/
structure Pass (e : Economy) (v w : World) (awards : List Award) : Prop where
  granted : Granted e v.player awards w.player
  raised : w.raised = v.raised ++ awards.map (Award.event v.player.id)

namespace Pass

variable {e : Economy} {u v w : World} {awards others : List Award}

theorem of_still (h : Still v w) : Pass e v w [] :=
  ⟨h.1 ▸ .nil w.player, h.2.trans (List.append_nil _).symm⟩

theorem append (h : Pass e u v awards) (h' : Pass e v w others) :
    Pass e u w (awards ++ others) := by
  refine ⟨h.granted.append h'.granted, ?_⟩
  rw [h'.raised, h.raised, h.granted.id_eq, List.append_assoc, List.map_append]

end Pass

namespace Economy

variable (e : Economy) (w : World)

/-- To unlock a level is to give one award. -/
theorem pass_unlock {a : Award} (hdeclared : a.Declared e.catalog)
    (habove : w.player.achievementLevel a.key < a.level.level) :
    Pass e w (e.unlock a.item a.key a.level w).2 [a] := by
  refine ⟨.cons hdeclared habove (.nil _), ?_⟩
  have hid := (a.quiet_rewards e
    { w.player with achievements := w.player.achievements.insert a.key a.level.level }).same.1
  show w.raised ++ [Event.achievementUnlocked _ a.key a.level.level] = _
  rw [hid]
  rfl

/-- A level that is tried is given or not, as is said. -/
theorem pass_tryLevel {a : Award} (hdeclared : a.Declared e.catalog) :
    Pass e w (e.tryLevel a.item a.key a.level w).2
      (if (e.tryLevel a.item a.key a.level w).1 then [a] else []) := by
  rw [tryLevel, Rule.bind_apply, Rule.player_apply]
  simp only
  by_cases hlevel : a.level.level ≤ w.player.achievementLevel a.key
  · rw [if_pos hlevel]
    exact .of_still (Std.Refl.refl w)
  · rw [if_neg hlevel, Rule.bind_apply]
    have hstill := Rule.keeps_holds a.level.condition w.player.formulaVariables w
    split
    · refine (Pass.of_still hstill).append (e.pass_unlock _ hdeclared ?_)
      rw [hstill.1]
      exact UInt32.not_le.mp hlevel
    · exact .of_still hstill

/-- Levels that are tried one after the other: what is reported are awards of this achievement. -/
theorem pass_tryLevels {item : Item} {key : String}
    (hfound : e.catalog.achievements.get? key = some item) {levels : List AchievementLevel}
    (hdeclared : ∀ level ∈ levels, level ∈ item.levels) :
    ∃ awards, Pass e w (e.tryLevels item key levels w).2 awards ∧
      (e.tryLevels item key levels w).1 = awards.map Award.mark ∧ ∀ a ∈ awards, a.key = key := by
  induction levels generalizing w with
  | nil => exact ⟨[], .of_still (Std.Refl.refl w), rfl, fun a ha => absurd ha List.not_mem_nil⟩
  | cons level rest ih =>
    have hfirst := e.pass_tryLevel w (a := ⟨key, item, level⟩)
      ⟨hfound, hdeclared level List.mem_cons_self⟩
    obtain ⟨awards, hpass, hreport, hkeys⟩ := ih (e.tryLevel item key level w).2
      fun l hl => hdeclared l (List.mem_cons_of_mem _ hl)
    refine ⟨_, hfirst.append hpass, ?_, ?_⟩
    · rw [tryLevels, Rule.bind_apply, Rule.bind_apply, hreport]
      cases (e.tryLevel item key level w).1 <;> rfl
    · intro a ha
      rcases List.mem_append.mp ha with ha | ha
      · split at ha
        · rw [List.mem_singleton.mp ha]
        · exact absurd ha List.not_mem_nil
      · exact hkeys a ha

/-- Achievements that are tried one after the other: their awards come in the order of the keys. -/
theorem pass_tryItems {items : List (String × Item)}
    (hfound : ∀ entry ∈ items, e.catalog.achievements.get? entry.1 = some entry.2)
    (hascending : items.Pairwise fun a b => a.1 < b.1) :
    ∃ awards, Pass e w (e.tryItems items w).2 awards ∧
      (e.tryItems items w).1 = awards.map Award.mark ∧
      (∀ a ∈ awards, ∃ entry ∈ items, a.key = entry.1) ∧
      awards.Pairwise fun a b => a.key = b.key ∨ a.key < b.key := by
  induction items generalizing w with
  | nil =>
    exact ⟨[], .of_still (Std.Refl.refl w), rfl, fun a ha => absurd ha List.not_mem_nil, .nil⟩
  | cons entry rest ih =>
    obtain ⟨key, item⟩ := entry
    obtain ⟨hlt, hrest⟩ := List.pairwise_cons.mp hascending
    have hdeclared : ∀ level ∈ levelsInOrder item, level ∈ item.levels :=
      fun level hl => (List.mergeSort_perm item.levels _).mem_iff.mp hl
    obtain ⟨awards, hpass, hreport, hkeys⟩ :=
      e.pass_tryLevels w (hfound (key, item) List.mem_cons_self) hdeclared
    obtain ⟨others, hpass', hreport', hkeys', horder⟩ :=
      ih (e.tryLevels item key (levelsInOrder item) w).2
        (fun b hb => hfound b (List.mem_cons_of_mem _ hb)) hrest
    refine ⟨awards ++ others, hpass.append hpass', ?_, ?_, ?_⟩
    · rw [tryItems, Rule.bind_apply, Rule.bind_apply, hreport, hreport', List.map_append]
      rfl
    · intro a ha
      rcases List.mem_append.mp ha with ha | ha
      · exact ⟨(key, item), List.mem_cons_self, hkeys a ha⟩
      · obtain ⟨b, hb, hkey⟩ := hkeys' a ha
        exact ⟨b, List.mem_cons_of_mem _ hb, hkey⟩
    · refine List.pairwise_append.mpr ⟨?_, horder, ?_⟩
      · refine List.pairwise_of_forall_mem_list fun a ha b hb => ?_
        exact .inl ((hkeys a ha).trans (hkeys b hb).symm)
      · intro a ha b hb
        obtain ⟨entry, hentry, hkey⟩ := hkeys' b hb
        rw [hkeys a ha, hkey]
        exact .inr (hlt entry hentry)

/-- **A pass gives awards**, and reports them in ascending order of key and level. -/
theorem pass_unlockAchievements :
    ∃ awards, Pass e w (e.unlockAchievements w).2 awards ∧
      (e.unlockAchievements w).1 = awards.map Award.mark ∧
      (awards.map Award.mark).Pairwise (Prod.Lex (· < ·) (· < ·)) := by
  obtain ⟨awards, hpass, hreport, _, horder⟩ := e.pass_tryItems w
    (fun _ h => KeyMap.mem_entries_iff.mp h) e.catalog.achievements.ascending
  refine ⟨awards, hpass, hreport, List.pairwise_map.mpr ?_⟩
  refine (horder.and hpass.granted.rising).imp ?_
  rintro a b ⟨hkey | hkey, hrises⟩
  · exact Prod.lex_def.mpr (.inr ⟨hkey, hrises hkey⟩)
  · exact Prod.lex_def.mpr (.inl hkey)

end Economy

/-! ## Moves -/

/-- The level that an event tells of. -/
def Event.unlocked? : Event → Option (String × UInt32)
  | achievementUnlocked _ key level => some (key, level)
  | buildingBought .. | upgradeBought .. | buildingSold .. | prestige .. => none

/-- The levels that some events tell of. -/
def unlockedIn (events : List Event) : List (String × UInt32) := events.filterMap Event.unlocked?

theorem unlockedIn_append (events others : List Event) :
    unlockedIn (events ++ others) = unlockedIn events ++ unlockedIn others := List.filterMap_append

theorem unlockedIn_awards (id : String) (awards : List Award) :
    unlockedIn (awards.map (Award.event id)) = awards.map Award.mark := by
  rw [unlockedIn, List.filterMap_map]
  exact List.filterMap_eq_map ▸ rfl

/-- Whether all levels are as they were, and no other was told. -/
structure Unawarded (v w : World) : Prop where
  achievements : w.player.achievements = v.player.achievements
  told : unlockedIn w.raised = unlockedIn v.raised

namespace Unawarded

variable {e : Economy} {v w : World}

theorem refl (w : World) : Unawarded w w := ⟨rfl, rfl⟩

theorem of_hushed {catalog : Catalog} (h : Hushed catalog v w) : Unawarded v w :=
  ⟨congrArg Player.Holdings.achievements h.1.same.2.1, congrArg unlockedIn h.2⟩

/-- Any other event may be announced. -/
theorem announced {p : Player} {message : String} {event : Event}
    (hplayer : p.achievements = v.player.achievements) (hevent : event.unlocked? = none) :
    Unawarded v (v.announced e p message event) := by
  refine ⟨hplayer, ?_⟩
  show unlockedIn (v.raised ++ [event]) = _
  rw [unlockedIn_append, unlockedIn, unlockedIn, List.filterMap_cons_none hevent]
  exact List.append_nil _

end Unawarded

theorem achievements_eq_of_quiet {catalog : Catalog} {p q : Player} (h : Quiet catalog p q) :
    q.achievements = p.achievements := congrArg Player.Holdings.achievements h.same.2.1

namespace Economy

variable (e : Economy) (w : World)

theorem unawarded_buy (key : String) : Unawarded w (e.buy key w).2 := by
  rcases e.buy_cases key with ⟨upgrade, _, hbuy⟩ | ⟨building, _, _, hbuy⟩ | hbuy
  · rw [hbuy]
    rcases e.buyUpgrade_cases upgrade w with ⟨refusal, h⟩ | ⟨q, _, _, hspend, h⟩
    · rw [h]
      exact .refl w
    · rw [h]
      have hachievements := achievements_eq_of_quiet (quiet_spend e.catalog hspend)
      exact .announced hachievements rfl
  · rw [hbuy]
    rcases e.buyBuilding_cases building w with ⟨refusal, h⟩ | ⟨q, _, hspend, h⟩
    · rw [h]
      exact .refl w
    · rw [h]
      have hachievements := achievements_eq_of_quiet (quiet_spend e.catalog hspend)
      exact .announced hachievements rfl
  · rw [hbuy]
    exact .refl w

theorem unawarded_sell (key : String) : Unawarded w (e.sell key w).2 := by
  rcases e.sell_cases w key with ⟨refusal, h⟩ | ⟨item, p, _, _, hp, h⟩
  · rw [h]
    exact .refl w
  · rw [h]
    have hquiet : Quiet e.catalog w.player p := hp ▸ quiet_addAll e.catalog _ w.player
    have hachievements := achievements_eq_of_quiet hquiet
    exact .announced hachievements rfl

/-- Prestige leaves all levels alone. -/
theorem unawarded_performPrestige (now : UInt64) : Unawarded w (e.performPrestige now w).2 := by
  rcases e.performPrestige_cases w now with ⟨refusal, h⟩ | ⟨item, q, v, _, hspend, hv, h⟩
  · rw [h]
    exact .refl w
  · rw [h]
    have hreset := achievements_eq_of_quiet
      ((quiet_spend e.catalog hspend).trans (quiet_resetResources e.catalog q))
    have heffects := e.keeps_execute now .empty item.block
      { w with player := q.resetProgress e.catalog }
    rw [← hv] at heffects
    have hachievements : v.player.achievements = w.player.achievements :=
      (achievements_eq_of_quiet heffects.1).trans hreset
    have hannounced : Unawarded v (v.announced e v.player ("Performed prestige: " ++ item.name)
        (.prestige v.player.id v.player.prestige)) := .announced rfl rfl
    exact ⟨hachievements, hannounced.told.trans (congrArg unlockedIn heffects.2)⟩

/-- What a tick does before it passes over the achievements. -/
def harvest (now : UInt64) : Rule (KeyMap Float × Nat) := do
  let yields ← e.totalYield
  let multipliers ← e.totalMultiplier
  let credited := credits yields multipliers (← Rule.player)
  Rule.change fun p => credited.foldl Player.addResource p
  Rule.change (bookRates credited)
  let expired ← e.expireShinies now
  return (credited, expired)

/-- A tick is a harvest, a pass over the achievements and the new time. -/
theorem tick_apply (now : UInt64) :
    e.tick now w =
      let harvest := e.harvest now w
      let pass := e.unlockAchievements harvest.2
      (⟨harvest.1.1, pass.1, harvest.1.2⟩,
        { pass.2 with player := { pass.2.player with lastUpdate := now } }) := rfl

theorem keeps_harvest (now : UInt64) : (e.harvest now).Keeps (Hushed e.catalog) := by
  refine e.keeps_totalYield.hushed.bind fun yields => ?_
  refine e.keeps_totalMultiplier.hushed.bind fun multipliers => ?_
  refine Rule.keeps_player.bind fun p => ?_
  refine (Rule.keeps_change fun p => quiet_addAll e.catalog _ p).bind fun _ => ?_
  refine (Rule.keeps_change fun p => .step (.rates p _)).bind fun _ => ?_
  exact (e.keeps_expireShinies now).bind fun expired => Rule.keeps_pure _

end Economy

namespace Move

variable (e : Economy) (w : World)

/-- The levels that a move reports as unlocked. -/
def reported : Move → List (String × UInt32)
  | tick now => (e.tick now w).1.unlocked
  | unlockAchievements => (e.unlockAchievements w).1
  | buy _ | sell _ | performPrestige _ | expireShinies _ | execute .. | add .. | remove .. => []

/-- The world in which a move comes to the achievements.  Most moves never do. -/
def opening : Move → World
  | tick now => (e.harvest now w).2
  | unlockAchievements => w
  | move => (move.rule e w).2

/-- What a move does to a player after the achievements. -/
def closing : Move → Player → Player
  | tick now, p => { p with lastUpdate := now }
  | _, p => p

/-- Whether a move gives just these awards: it leaves all levels alone before them, reports them in
ascending order, and tells of them. -/
structure Grants (move : Move) (awards : List Award) : Prop where
  opening : (move.opening e w).player.achievements = w.player.achievements
  granted : ∃ q, Granted e (move.opening e w).player awards q ∧
    (move.rule e w).2.player = move.closing q
  reported : move.reported e w = awards.map Award.mark
  ascending : (awards.map Award.mark).Pairwise (Prod.Lex (· < ·) (· < ·))
  told : unlockedIn (move.rule e w).2.raised = unlockedIn w.raised ++ awards.map Award.mark

/-- A move that leaves the levels alone gives no award. -/
theorem Grants.of_unawarded {e : Economy} {w : World} {move : Move}
    (h : Unawarded w (move.rule e w).2) (hopening : move.opening e w = (move.rule e w).2)
    (hclosing : ∀ p, move.closing p = p) (hreported : move.reported e w = []) :
    move.Grants e w [] where
  opening := hopening ▸ h.achievements
  granted := ⟨_, .nil _, by rw [hclosing, hopening]⟩
  reported := hreported
  ascending := .nil
  told := h.told.trans (List.append_nil _).symm

/-- **Every move gives some awards**, and most moves none. -/
theorem exists_grants (move : Move) : ∃ awards, move.Grants e w awards := by
  cases move with
  | buy key => exact ⟨[], .of_unawarded (e.unawarded_buy w key) rfl (fun _ => rfl) rfl⟩
  | sell key => exact ⟨[], .of_unawarded (e.unawarded_sell w key) rfl (fun _ => rfl) rfl⟩
  | performPrestige now =>
    exact ⟨[], .of_unawarded (e.unawarded_performPrestige w now) rfl (fun _ => rfl) rfl⟩
  | tick now =>
    have hharvest := e.keeps_harvest now w
    obtain ⟨awards, hpass, hreport, hascending⟩ := e.pass_unlockAchievements (e.harvest now w).2
    have htick := e.tick_apply w now
    refine ⟨awards, achievements_eq_of_quiet hharvest.1,
      ⟨_, hpass.granted, congrArg (·.2.player) htick⟩,
      (congrArg (·.1.unlocked) htick).trans hreport, hascending, ?_⟩
    have htold : (e.tick now w).2.raised = (e.unlockAchievements (e.harvest now w).2).2.raised :=
      congrArg (·.2.raised) htick
    show unlockedIn (e.tick now w).2.raised = _
    rw [htold, hpass.raised, unlockedIn_append, unlockedIn_awards, hharvest.2]
  | unlockAchievements =>
    obtain ⟨awards, hpass, hreport, hascending⟩ := e.pass_unlockAchievements w
    refine ⟨awards, rfl, ⟨_, hpass.granted, rfl⟩, hreport, hascending, ?_⟩
    show unlockedIn (e.unlockAchievements w).2.raised = _
    rw [hpass.raised, unlockedIn_append, unlockedIn_awards]
  | expireShinies now =>
    have hushed : Hushed e.catalog w _ := e.keeps_expireShinies now w
    exact ⟨[], .of_unawarded (.of_hushed hushed) rfl (fun _ => rfl) rfl⟩
  | execute now extra block =>
    have hushed := e.keeps_execute now extra block w
    exact ⟨[], .of_unawarded (.of_hushed hushed) rfl (fun _ => rfl) rfl⟩
  | add resource x =>
    have hquiet : Quiet e.catalog w.player _ := .step (.add w.player resource x)
    exact ⟨[], .of_unawarded (.of_hushed hquiet.hushed) rfl (fun _ => rfl) rfl⟩
  | remove resource x =>
    have hquiet : Quiet e.catalog w.player _ := .step (.remove w.player resource x)
    exact ⟨[], .of_unawarded (.of_hushed hquiet.hushed) rfl (fun _ => rfl) rfl⟩

namespace Grants

variable {e : Economy} {w : World} {move : Move} {awards : List Award}

theorem achievementLevel_opening (h : move.Grants e w awards) (key : String) :
    (move.opening e w).player.achievementLevel key = w.player.achievementLevel key := by
  rw [Player.achievementLevel, h.opening]
  rfl

/-- The levels after a move are those to which its awards have led. -/
theorem exists_granted (h : move.Grants e w awards) :
    ∃ q, Granted e (move.opening e w).player awards q ∧
      ∀ key, (move.rule e w).2.player.achievementLevel key = q.achievementLevel key := by
  obtain ⟨q, hgranted, hplayer⟩ := h.granted
  refine ⟨q, hgranted, fun key => ?_⟩
  rw [hplayer]
  cases move <;> rfl

theorem level_le (h : move.Grants e w awards) (key : String) :
    w.player.achievementLevel key ≤ (move.rule e w).2.player.achievementLevel key := by
  obtain ⟨q, hgranted, hlevel⟩ := h.exists_granted
  rw [hlevel, ← h.achievementLevel_opening]
  exact hgranted.level_le key

theorem lt_of_mem (h : move.Grants e w awards) {a : Award} (ha : a ∈ awards) :
    w.player.achievementLevel a.key < a.level.level := by
  obtain ⟨q, hgranted, _⟩ := h.exists_granted
  rw [← h.achievementLevel_opening]
  exact hgranted.lt_of_mem ha

theorem le_of_mem (h : move.Grants e w awards) {a : Award} (ha : a ∈ awards) :
    a.level.level ≤ (move.rule e w).2.player.achievementLevel a.key := by
  obtain ⟨q, hgranted, hlevel⟩ := h.exists_granted
  rw [hlevel]
  exact hgranted.le_of_mem ha

end Grants

/-! ## Runs -/

/-- What each move of a run reports. -/
def reports (e : Economy) : List Move → World → List (List (String × UInt32))
  | [], _ => []
  | move :: rest, w => move.reported e w :: reports e rest (move.rule e w).2

/-- Whether the moves of a run give just these awards, each move its own. -/
inductive Granting (e : Economy) : World → List Move → List (List Award) → Prop where
  | nil (w : World) : Granting e w [] []
  | cons {w : World} {move : Move} {rest : List Move} {awards : List Award}
    {passes : List (List Award)} (first : move.Grants e w awards)
    (others : Granting e (move.rule e w).2 rest passes) :
    Granting e w (move :: rest) (awards :: passes)

theorem exists_granting (e : Economy) (moves : List Move) (w : World) :
    ∃ passes, Granting e w moves passes := by
  induction moves generalizing w with
  | nil => exact ⟨[], .nil w⟩
  | cons move rest ih =>
    obtain ⟨awards, hfirst⟩ := exists_grants e w move
    obtain ⟨passes, hothers⟩ := ih (move.rule e w).2
    exact ⟨awards :: passes, .cons hfirst hothers⟩

namespace Granting

variable {e : Economy} {w : World} {moves : List Move} {passes : List (List Award)}

theorem level_le (h : Granting e w moves passes) (key : String) :
    w.player.achievementLevel key ≤ (run e moves w).player.achievementLevel key := by
  induction h with
  | nil w => exact UInt32.le_refl _
  | cons first others ih => exact UInt32.le_trans (first.level_le key) ih

theorem lt_of_mem (h : Granting e w moves passes) {a : Award} (ha : a ∈ passes.flatten) :
    w.player.achievementLevel a.key < a.level.level := by
  induction h with
  | nil w => exact absurd ha List.not_mem_nil
  | cons first others ih =>
    rcases List.mem_append.mp ha with ha | ha
    · exact first.lt_of_mem ha
    · exact UInt32.lt_of_le_of_lt (first.level_le a.key) (ih ha)

/-- **Awards of one achievement rise along a whole run.** -/
theorem rising (h : Granting e w moves passes) :
    passes.flatten.Pairwise fun a b => a.key = b.key → a.level.level < b.level.level := by
  induction h with
  | nil w => exact .nil
  | cons first others ih =>
    obtain ⟨q, hgranted, _⟩ := first.granted
    refine List.pairwise_append.mpr ⟨hgranted.rising, ih, fun a ha b hb hkey => ?_⟩
    exact UInt32.lt_of_le_of_lt (first.le_of_mem ha) (hkey ▸ others.lt_of_mem hb)

theorem reports_eq (h : Granting e w moves passes) :
    reports e moves w = passes.map fun awards => awards.map Award.mark := by
  induction h with
  | nil w => rfl
  | cons first others ih => rw [reports, ih, first.reported, List.map_cons]

theorem ascending (h : Granting e w moves passes) {awards : List Award} (ha : awards ∈ passes) :
    (awards.map Award.mark).Pairwise (Prod.Lex (· < ·) (· < ·)) := by
  induction h with
  | nil w => exact absurd ha List.not_mem_nil
  | cons first others ih =>
    rcases List.mem_cons.mp ha with rfl | ha
    · exact first.ascending
    · exact ih ha

theorem told (h : Granting e w moves passes) :
    unlockedIn (run e moves w).raised = unlockedIn w.raised ++ passes.flatten.map Award.mark := by
  induction h with
  | nil w => exact (List.append_nil _).symm
  | cons first others ih =>
    rw [run, ih, first.told, List.flatten_cons, List.map_append, List.append_assoc]

end Granting

/-- **Achievements are paid once.**  Whatever moves are made, from whatever player on:

* no pair of an achievement and a level is reported twice, and what is told is what is reported;
* each report ascends in key and level;
* what the moves give are awards of declared levels, one for each pair reported, in the same order,
  and to pay the rewards of these is all that a pass does;
* no level goes down. -/
theorem awarded_once (e : Economy) (w : World) (moves : List Move) :
    let reports := reports e moves w
    reports.flatten.Nodup ∧
      unlockedIn (run e moves w).raised = unlockedIn w.raised ++ reports.flatten ∧
      (∀ report ∈ reports, report.Pairwise (Prod.Lex (· < ·) (· < ·))) ∧
      (∃ passes, Granting e w moves passes ∧
        reports = passes.map fun awards => awards.map Award.mark) ∧
      ∀ key, w.player.achievementLevel key ≤ (run e moves w).player.achievementLevel key := by
  obtain ⟨passes, h⟩ := exists_granting e moves w
  have hflatten : (reports e moves w).flatten = passes.flatten.map Award.mark := by
    rw [h.reports_eq, List.map_flatten]
  refine ⟨?_, ?_, ?_, ⟨passes, h, h.reports_eq⟩, h.level_le⟩
  · rw [hflatten, List.Nodup, List.pairwise_map]
    refine h.rising.imp fun {a b} hrises heq => ?_
    have hlt := hrises (congrArg Prod.fst heq)
    rw [show a.level.level = b.level.level from congrArg Prod.snd heq] at hlt
    exact UInt32.lt_irrefl _ hlt
  · rw [h.told, hflatten]
  · intro report hreport
    rw [h.reports_eq] at hreport
    obtain ⟨awards, hawards, rfl⟩ := List.mem_map.mp hreport
    exact h.ascending hawards

end Move

end IncrementalGame
