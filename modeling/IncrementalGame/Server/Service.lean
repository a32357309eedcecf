import IncrementalGame.Economy.Prestige
import IncrementalGame.Event.Bus
import IncrementalGame.Player.Snapshot
import IncrementalGame.Server.Error
import IncrementalGame.Server.Reply

/-!
# Serving players

A `Server` has an economy, an evaluator that all players share, those who listen to events, and a
store.  A request loads the player, lets a rule act, and stores the player; only then are the events
told that the rule has raised.  So whatever goes wrong on the way, nothing is stored and nothing is
told, and what is told has been stored.  A rule that is broken off ends the request that has let it
act, and leaves nothing behind but what its formulas have drawn.

A handler is a function of somebody else's.  All that a server does is to call it, and which calls
were made, and when, is written to the server's journal, next to what was given to the store.
-/

namespace IncrementalGame

/-- How a server has done so far. -/
structure ServerStats where
  ticks : Nat
  /-- How many ticks took longer than the time between two of them. -/
  late : Nat
  /-- How many updates of players were stored. -/
  updated : Nat
  /-- How many updates of players failed. -/
  failures : Nat
  deriving DecidableEq, Inhabited

/-- Something that a server does to others. -/
inductive Deed where
  /-- A text is given to the store, which stores it. -/
  | saved (id text : String)
  /-- A text is given to the store, which refuses it. -/
  | refused (id text : String) (error : StoreError)
  /-- A handler is called for an event. -/
  | called (handler : Nat) (event : Event)
  deriving DecidableEq

/-- What it was to give a text to the store. -/
def Deed.ofSave (id text : String) : Except StoreError Unit → Deed
  | .ok _ => .saved id text
  | .error error => .refused id text error

/-- A server over a store. -/
structure Server (σ : Type) where
  economy : Economy
  evaluator : Formula.Evaluator
  bus : EventBus
  store : σ
  stats : ServerStats
  /-- What it has done to others, oldest first. -/
  journal : List Deed

/-- A request to a server, which may be refused. -/
abbrev Request (σ α : Type) := ExceptT ServiceError (StateM (Server σ)) α

namespace Server

variable {σ : Type}

/-- A server that nobody listens to yet.  Where no seed is set, chance starts from the given one. -/
def ofEconomy (e : Economy) (store : σ) (seed : UInt64) : Server σ :=
  ⟨e, e.evaluator seed, .empty, store, ⟨0, 0, 0, 0⟩, []⟩

/-- Tells events. -/
def publish (s : Server σ) (events : List Event) : Server σ :=
  let (calls, bus) := s.bus.publish events
  { s with bus := bus, journal := s.journal ++ calls.map fun call => .called call.1 call.2 }

/-- Lets a rule act on a player: what it gives, the player afterwards, and the events raised, or
nothing if it is broken off. -/
def act {α : Type} (player : Player) (rule : Rule α) :
    StateM (Server σ) (Option (α × Player × List Event)) := fun s =>
  let (a, world) := rule ⟨player, [], s.evaluator, false⟩
  (if world.broken then none else some (a, world.player, world.raised),
    { s with evaluator := world.evaluator })

variable [PlayerStore σ]

/-- The player stored under an id. -/
def find (id : String) : Request σ Player := do
  match PlayerStore.load (← get).store id with
  | .error (.notFound id) => throw (.economy (.unknownPlayer id))
  | .error error => throw (.store error)
  | .ok text =>
    match Snapshot.decode text with
    | some player => return player
    | none => throw (.unreadablePlayer id)

/-- Stores a text under an id. -/
def saveText (id text : String) : StateM (Server σ) (Except StoreError Unit) := fun s =>
  let (result, store) := PlayerStore.save s.store id text
  (result, { s with store := store, journal := s.journal ++ [.ofSave id text result] })

/-- Stores a player under its own id. -/
def save (player : Player) : Request σ Unit := do
  let saving : StateM (Server σ) _ := saveText player.id (Snapshot.encode player)
  match ← saving with
  | .ok _ => return
  | .error error => throw (.store error)

/-- Creates a player, unless there is one of this id. -/
def create (id : String) (now : UInt64) : Request σ Player := do
  let s ← get
  if PlayerStore.contains s.store id then throw (.playerExists id)
  let player := Player.start id s.economy.catalog now
  save player
  return player

/-- Loads a player, lets an action act, stores the player, and tells the events raised. -/
def commit {α : Type} (id : String) (action : Economy → Action α) : Request σ α := do
  let player ← find id
  let acting : StateM (Server σ) _ := act player (action (← get).economy).run
  match ← acting with
  | none => throw .aborted
  | some (.error error, _, _) => throw (.economy error)
  | some (.ok a, player, raised) => do
    save player
    modify fun s => s.publish raised
    return a

/-- Does what a command asks for, and gives the reply. -/
def execute (id : String) (now : UInt64) : Command → Request σ String
  | .create => do
    let _ ← create id now
    return Reply.created id
  | .buy key => do return Reply.bought (← commit id fun e => e.buy key)
  | .sell key => do return Reply.sold key (← commit id fun e => e.sell key)
  | .prestige => do return Reply.prestige (← commit id fun e => e.performPrestige now)
  | .status => do return Reply.status (← find id)
  | .resources => do return Reply.resources (← find id)
  | .buildings => do return Reply.buildings (← find id)
  | .help => return Command.helpText

/-- Does what a line asks for, and gives the reply. -/
def answer (id : String) (now : UInt64) (line : String) : Request σ String :=
  match Command.parse line with
  | .ok command => execute id now command
  | .error fault => throw (.badCommand fault)

end Server

end IncrementalGame
