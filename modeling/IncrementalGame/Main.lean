import IncrementalGame.Server.Console
import IncrementalGame.Server.Folder
import Std.Time.DateTime.Timestamp

/-!
# The program

Ticks every stored player on a fixed interval, and answers requests from the standard input, one on
each line.  All that is decided is decided elsewhere; here files, lines and clocks are read and
written.

A request or a tick reads the directory of the players, acts on what it holds, and writes the files
that have changed, each under another name first.
-/

namespace IncrementalGame.Program

/-- The present time, in milliseconds. -/
def present : IO UInt64 := do
  let now ← Std.Time.Timestamp.now
  return UInt64.ofNat now.toMillisecondsSinceUnixEpoch.val.toNat

/-- A seed that differs from run to run. -/
def freshSeed : IO UInt64 := do
  let bytes ← IO.getRandomBytes 8
  return bytes.toList.foldl (fun n b => n * 256 + b.toUInt64) 0

/-- The text of a file, if it can be read. -/
def readText (path : String) : IO (Option String) := do
  try return some (← IO.FS.readFile path)
  catch _ => return none

/-- What a directory holds.  The text of a file that cannot be read is not known, and nobody asks
for it. -/
def readFolder (directory : String) : IO Folder := do
  let path ← IO.FS.realPath directory
  let mut folder := Folder.empty
  for entry in ← path.readDir do
    let text ← readText (directory ++ "/" ++ entry.fileName)
    let isOther ← entry.path.isDir
    folder := folder.put entry.fileName (match text with
      | some text => .file text
      | none => if isOther then .other else .locked "" false)
  return folder

/-- Writes the files of a directory that have changed. -/
def writeFolder (directory : String) (before after : Folder) : IO Unit := do
  for (name, entry) in after.entries.entries do
    if before.entries.get? name != some entry then
      if let .file text := entry then
        let path := directory ++ "/" ++ name
        IO.FS.writeFile (path ++ ".new") text
        IO.FS.rename (path ++ ".new") path

/-- Lets the server act on what the directory holds now. -/
def onDisk {α : Type} (directory : String) (action : StateM (Server Folder) α)
    (s : Server Folder) : IO (α × Server Folder) := do
  let folder ← readFolder directory
  let instant ← IO.monoMsNow
  let (a, s) := action
    { s with
      store := folder
      journal := []
      evaluator := { s.evaluator with instant := instant } }
  writeFolder directory folder s.store
  return (a, s)

/-- Puts the lines of the standard input into a queue, until there are no more. -/
partial def readLines (input : IO.FS.Stream) (queue : IO.Ref (List String)) : IO Unit := do
  let line ← input.getLine
  if line.isEmpty then return
  queue.modify fun lines => lines ++ [line]
  readLines input queue

/-- Answers a line. -/
def answerLine (directory : String) (s : Server Folder) (line : String) : IO (Server Folder) := do
  if (Text.trim line.toList).isEmpty then return s
  let (reply, s) ← onDisk directory (Console.reply (← present) line) s
  match reply with
  | .ok text => IO.println text
  | .error note => IO.eprintln note
  return s

/-- Ticks once, and books whether that took longer than the interval. -/
def tickOnce (directory : String) (interval : Nat) (s : Server Folder) : IO (Server Folder) := do
  let start ← IO.monoMsNow
  let (round, s) ← onDisk directory (Server.tick (← present)) s
  for failure in round.failures do IO.eprintln failure.message
  let finish ← IO.monoMsNow
  return if interval < finish - start then (Server.noteLate.run s).2 else s

/-- Answers lines and ticks until the end.  Ticks that are missed are left out. -/
partial def serve (directory : String) (interval : Nat) (stop : Option Nat)
    (queue : IO.Ref (List String)) (next : Nat) (s : Server Folder) : IO (Server Folder) := do
  let lines ← queue.modifyGet fun lines => (lines, [])
  let s ← lines.foldlM (answerLine directory) s
  let now ← IO.monoMsNow
  if stop.any (fun stop => decide (stop ≤ now)) then return s
  if next ≤ now then
    let s ← tickOnce directory interval s
    serve directory interval stop queue (next + ((now - next) / interval + 1) * interval) s
  else
    IO.sleep 5
    serve directory interval stop queue next s

/-- Starts a server with settings that were read, and serves. -/
def launch (options : Options) (settings : ServerSettings) : IO UInt32 := do
  let source ← readText settings.catalogPath
  match Server.start settings source Folder.empty (← freshSeed) with
  | .error error =>
    IO.eprintln ("startup failed: " ++ error.message)
    return 1
  | .ok s =>
    IO.FS.createDirAll settings.playerDirectory
    (Console.banner settings).forM fun line => IO.println line
    let queue ← IO.mkRef []
    let _ ← IO.asTask (readLines (← IO.getStdin) queue) .dedicated
    let start ← IO.monoMsNow
    let stop := options.duration.map fun seconds => start + seconds.toNat * 1000
    let s ← serve settings.playerDirectory settings.tickInterval.toNat stop queue start s
    (Console.summary s.stats).forM fun line => IO.println line
    return 0

/-- Reads the settings that the options name, and starts. -/
def run (options : Options) : IO UInt32 := do
  for argument in options.ignored do
    IO.eprintln ("ignoring unknown argument " ++ Text.quoted argument)
  match options.settingsFile with
  | none => launch options (options.adjust .default)
  | some file =>
    match ← readText file with
    | none =>
      IO.eprintln ("startup failed: invalid configuration: cannot read " ++ file)
      return 1
    | some source =>
      match ServerSettings.ofText source with
      | .error fault =>
        IO.eprintln ("startup failed: " ++ fault.message)
        return 1
      | .ok settings => launch options (options.adjust settings)

end IncrementalGame.Program

/-- The program. -/
def main (arguments : List String) : IO UInt32 :=
  match IncrementalGame.Options.parse arguments with
  | some options => IncrementalGame.Program.run options
  | none => do
    IO.println IncrementalGame.Options.usage
    return 0
