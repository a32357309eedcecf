import IncrementalGame.Economy.Settings

/-!
# Settings of a server

What may be set for a server: the time between two ticks, how many players a tick may update at
once, where the catalog and the players are kept, and the settings of the economy.
-/

namespace IncrementalGame

/-- What is wrong with the settings of a server. -/
inductive ServerFault where
  | unreadable
  | noInterval
  | noWorkers
  | economy (fault : SettingFault)
  deriving DecidableEq, Inhabited

/-- The wording of a fault in the settings of a server. -/
def ServerFault.describe : ServerFault → String
  | unreadable => "invalid server config"
  | noInterval => "tick_interval_ms must be positive"
  | noWorkers => "max_concurrent_players must be positive"
  | economy fault => (EconomyError.settings fault).message

/-- The wording of the error that a fault is. -/
def ServerFault.message (fault : ServerFault) : String :=
  "invalid configuration: " ++ fault.describe

/-- What may be set for a server. -/
structure ServerSettings where
  /-- The time between two ticks, in milliseconds. -/
  tickInterval : UInt64
  /-- How many players a tick may update at once. -/
  maxConcurrent : UInt64
  /-- The file of the catalog. -/
  catalogPath : String
  /-- The directory of the players. -/
  playerDirectory : String
  economy : Settings
  deriving DecidableEq

namespace ServerSettings

/-- The settings where nothing is set. -/
def default : ServerSettings := ⟨1000, 64, "data/catalog.toml", "data/players", .default⟩

instance : Inhabited ServerSettings := ⟨.default⟩

/-- What is wrong with some settings: the first thing that is. -/
def fault? (s : ServerSettings) : Option ServerFault :=
  if s.tickInterval = 0 then some .noInterval
  else if s.maxConcurrent = 0 then some .noWorkers
  else s.economy.fault?.map .economy

/-- The settings, if nothing is wrong with them. -/
def checked (s : ServerSettings) : Except ServerFault ServerSettings :=
  match s.fault? with
  | some fault => .error fault
  | none => .ok s

/-- A text. -/
def text : Toml → Option String
  | .text s => some s
  | _ => none

/-- The names of the fields. -/
def fieldNames : List String :=
  ["tick_interval_ms", "max_concurrent_players", "catalog_path", "data_dir", "engine"]

/-- The settings of a TOML value. -/
def ofToml (t : Toml) : Option ServerSettings :=
  match Settings.fieldsOf fieldNames t with
  | some [tickInterval, maxConcurrent, catalogPath, playerDirectory, economy] => do
    let tickInterval ← Settings.field Settings.natural default.tickInterval tickInterval
    let maxConcurrent ← Settings.field Settings.natural default.maxConcurrent maxConcurrent
    let catalogPath ← Settings.field text default.catalogPath catalogPath
    let playerDirectory ← Settings.field text default.playerDirectory playerDirectory
    let economy ← Settings.field Settings.ofToml default.economy economy
    return ⟨tickInterval, maxConcurrent, catalogPath, playerDirectory, economy⟩
  | _ => none

/-- The settings of a TOML text. -/
def ofText (source : String) : Except ServerFault ServerSettings :=
  match (Toml.read source).bind ofToml with
  | some settings => settings.checked
  | none => .error .unreadable

end ServerSettings

end IncrementalGame
