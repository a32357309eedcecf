import IncrementalGame.Catalog.Flaw
import IncrementalGame.Text.Quoted

/-!
# Why a rule of the game refuses

The causes for which a command, a catalog or a setting is refused, and their wording.
-/

namespace IncrementalGame

/-- What is wrong with the settings of an economy. -/
inductive SettingFault where
  | unreadable
  | noLifetime
  | noLog
  | refundRatio (found : Float)
  deriving DecidableEq, Inhabited

/-- The wording of a fault in the settings. -/
def SettingFault.describe : SettingFault → String
  | unreadable => "invalid engine config"
  | noLifetime => "expression_cache_ttl_ms must be positive"
  | noLog => "player_log_capacity must be positive"
  | refundRatio found =>
    "sell_refund_ratio must be within [0, 1], got " ++ Binary64.plain found

/-- Why a rule of the game refuses. -/
inductive EconomyError where
  /-- The catalog has no such item. -/
  | notFound (category key : String)
  | unknownPlayer (id : String)
  /-- No building of the kind is owned. -/
  | nothingToSell (building : String)
  | alreadyOwned (upgrade : String)
  /-- A resource falls short of a cost. -/
  | unaffordable (resource : String) (required : Float) (available : UInt64)
  /-- Keys that have to be there are not. -/
  | requirementsNotMet (key : String) (missing : List String)
  /-- The catalog is refused. -/
  | refused (refusal : Catalog.Refusal)
  /-- The settings are refused. -/
  | settings (fault : SettingFault)
  deriving Inhabited

/-- The wording of an error. -/
def EconomyError.message : EconomyError → String
  | notFound category key => "content not found: " ++ key ++ " in category " ++ category
  | unknownPlayer id => "unknown player: " ++ id
  | nothingToSell building => "no " ++ building ++ " buildings to sell"
  | alreadyOwned upgrade => "upgrade already owned: " ++ upgrade
  | unaffordable resource required available =>
    "insufficient " ++ resource ++ ": need " ++ Binary64.plain required ++ ", have " ++
      toString available.toNat
  | requirementsNotMet key missing =>
    "requirements not met for " ++ key ++ ": missing " ++ Text.quotedList missing
  | refused refusal => refusal.message
  | settings fault => "invalid configuration: " ++ fault.describe

end IncrementalGame
