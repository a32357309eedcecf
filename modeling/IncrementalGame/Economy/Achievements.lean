import IncrementalGame.Economy.World

/-!
# Achievements

A pass over the achievements takes them in key order and the levels of each in ascending order, and
unlocks every level above the present one whose condition holds.  The rewards of a level are paid at
once, so conditions that are tried later see them.

A level never goes down, and a level that was unlocked is never tried again.
-/

namespace IncrementalGame.Economy

/-- The levels of an item in ascending order; of equal ones the one declared first comes first. -/
def levelsInOrder (item : Item) : List AchievementLevel :=
  item.levels.mergeSort fun a b => decide (a.level ≤ b.level)

/-- Unlocks a level. -/
def unlock (e : Economy) (item : Item) (key : String) (level : AchievementLevel) : Rule Unit := do
  Rule.change fun p => { p with achievements := p.achievements.insert key level.level }
  Rule.change fun p => level.rewards.foldl Player.addResource p
  Rule.announce e
    ("Achievement unlocked: " ++ item.name ++ " (level " ++ toString level.level.toNat ++ ")")
    (.achievementUnlocked (← Rule.player).id key level.level)

/-- Tries a level, and says whether it was unlocked. -/
def tryLevel (e : Economy) (item : Item) (key : String) (level : AchievementLevel) :
    Rule Bool := do
  let p ← Rule.player
  if level.level ≤ p.achievementLevel key then return false
  else if ← Rule.holds level.condition p.formulaVariables then
    e.unlock item key level
    return true
  else return false

/-- Tries levels in order, and lists those that were unlocked. -/
def tryLevels (e : Economy) (item : Item) (key : String) :
    List AchievementLevel → Rule (List (String × UInt32))
  | [] => return []
  | level :: rest => do
    let unlocked ← e.tryLevel item key level
    let others ← e.tryLevels item key rest
    return if unlocked then (key, level.level) :: others else others

/-- Tries the levels of achievements in order. -/
def tryItems (e : Economy) : List (String × Item) → Rule (List (String × UInt32))
  | [] => return []
  | (key, item) :: rest => do
    let unlocked ← e.tryLevels item key (levelsInOrder item)
    let others ← e.tryItems rest
    return unlocked ++ others

/-- A pass over all achievements: the levels that were unlocked, in order. -/
def unlockAchievements (e : Economy) : Rule (List (String × UInt32)) :=
  e.tryItems e.catalog.achievements.entries

end IncrementalGame.Economy
