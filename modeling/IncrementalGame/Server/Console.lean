import IncrementalGame.Server.Startup
import IncrementalGame.Server.Tick

/-!
# The command line

How a server is called and talked to: the options of its command line, and requests as lines
`<player> <command>`, each with one line or more in reply.  Only a command that is broken off has no
reply.
-/

namespace IncrementalGame

/-- What the command line asks for. -/
structure Options where
  /-- The file of the settings. -/
  settingsFile : Option String
  /-- The time between two ticks, in place of the one that is set. -/
  tickInterval : Option UInt64
  /-- After how many seconds to stop. -/
  duration : Option UInt64
  /-- The arguments that mean nothing. -/
  ignored : List String
  deriving DecidableEq, Inhabited

namespace Options

/-- The options where there are no arguments. -/
def none : Options := ⟨.none, .none, .none, []⟩

/-- A whole number of 64 bits, written in digits after an optional plus sign. -/
def number? (s : String) : Option UInt64 :=
  let digits := match s.toList with
    | '+' :: rest => rest
    | all => all
  let n := valueOf digits
  if digits ≠ [] ∧ digits.all isDigit ∧ n < UInt64.size then some (UInt64.ofNat n) else .none

/-- What an option with a value sets, if the argument is such an option.  Where the value is missing
or of no use, the option counts as not given. -/
def setter? : String → Option (Option String → Options → Options)
  | "--config" | "-c" => some fun value o => { o with settingsFile := value }
  | "--tick-ms" | "-t" => some fun value o => { o with tickInterval := value.bind number? }
  | "--duration" | "-d" => some fun value o => { o with duration := value.bind number? }
  | _ => .none

/-- Reads arguments from left to right, or nothing if help is asked for. -/
def read (o : Options) : List String → Option Options
  | [] => some o
  | "--help" :: _ => .none
  | "-h" :: _ => .none
  | [argument] =>
    match setter? argument with
    | some set => some (set .none o)
    | .none => some { o with ignored := o.ignored ++ [argument] }
  | argument :: next :: rest =>
    match setter? argument with
    | some set => read (set (some next) o) rest
    | .none => read { o with ignored := o.ignored ++ [argument] } (next :: rest)

/-- The options of a command line, or nothing if help is asked for. -/
def parse (arguments : List String) : Option Options := read none arguments

/-- The settings that the options ask for, on top of some. -/
def adjust (o : Options) (settings : ServerSettings) : ServerSettings :=
  { settings with tickInterval := o.tickInterval.getD settings.tickInterval }

/-- The help on the command line. -/
def usage : String :=
  "Usage: incremental-game [OPTIONS]\n" ++
  "\n" ++
  "Options:\n" ++
  "  -c, --config <PATH>        Server config TOML (default: built-in defaults)\n" ++
  "  -t, --tick-ms <MS>         Override tick interval\n" ++
  "  -d, --duration <SECS>      Run for N seconds then exit\n" ++
  "  -h, --help                 Show this help\n" ++
  "\n" ++
  "Stdin: one `<player> <command>` per line; `<player> help` lists commands."

end Options

namespace Console

/-- The first word of a trimmed line and all that follows the blank after it, if there is one. -/
def splitWord (line : List Char) : Option (List Char × List Char) :=
  match line.dropWhile (fun c => !Text.isBlank c) with
  | _ :: rest => some (line.takeWhile (fun c => !Text.isBlank c), rest)
  | [] => none

variable {σ : Type} [PlayerStore σ]

/-- The reply to a line, or else what the log of the server says. -/
def reply (now : UInt64) (line : String) : StateM (Server σ) (Except String String) := do
  let trimmed := Text.trim line.toList
  match splitWord trimmed with
  | none =>
    return .ok ("expected `<player> <command>`, got " ++ Text.quoted (String.ofList trimmed))
  | some (player, rest) =>
    match ← (Server.answer (String.ofList player) now (String.ofList rest)).run with
    | .ok text => return .ok text
    | .error .aborted => return .error ServiceError.aborted.message
    | .error error => return .ok ("error: " ++ error.message)

/-- What is said at the start. -/
def banner (settings : ServerSettings) : List String :=
  [ "Incremental game server",
    "Catalog:            " ++ settings.catalogPath,
    "Player Store:       " ++ settings.playerDirectory,
    "Tick Interval:      " ++ toString settings.tickInterval.toNat ++ " ms",
    "Max Concurrent:     " ++ toString settings.maxConcurrent.toNat,
    "" ]

/-- What is said at the end. -/
def summary (stats : ServerStats) : List String :=
  [ "",
    "Server shutdown",
    "Total Ticks:        " ++ toString stats.ticks,
    "Late Ticks:         " ++ toString stats.late,
    "Players Updated:    " ++ toString stats.updated,
    "Player Failures:    " ++ toString stats.failures ]

end Console

end IncrementalGame
