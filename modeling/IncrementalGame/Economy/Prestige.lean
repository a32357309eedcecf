import IncrementalGame.Economy.Effects
import IncrementalGame.Economy.Trade

/-!
# Prestige

Prestige is paid for, takes balances and buildings back to the start, counts one level more, and
then has effects of its own, which see the player as it is after all that.
-/

namespace IncrementalGame.Economy

/-- Performs prestige, and gives the new level. -/
def performPrestige (e : Economy) (now : UInt64) : Action UInt32 := do
  match e.catalog.prestige? with
  | none => throw (.notFound Catalog.prestigeKey Catalog.prestigeKey)
  | some item =>
    Action.pay item.cost
    Rule.change fun p => p.resetProgress e.catalog
    let _ ← e.execute now .empty item.block
    let p ← Rule.player
    Rule.announce e ("Performed prestige: " ++ item.name) (.prestige p.id p.prestige)
    return p.prestige

end IncrementalGame.Economy
