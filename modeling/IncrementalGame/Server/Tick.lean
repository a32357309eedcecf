import IncrementalGame.Economy.Tick
import IncrementalGame.Server.Service

/-!
# Ticks of a server

A tick of a server advances every stored player by one tick of the economy.  Each entry of the store
says which player it is about; that player is then loaded afresh, advanced and stored, and only then
are its events told.

A player that fails does not keep the others from being advanced, and each entry ends up among the
updates or among the failures.  A tick of the economy that is broken off is such a failure, and
nothing is stored or told of it.  Only if the store cannot be listed at all does nothing happen.
-/

namespace IncrementalGame

/-- Why an entry of the store was not advanced. -/
inductive TickFailure where
  /-- The store cannot be listed. -/
  | listing (error : StoreError)
  /-- The entry cannot be read. -/
  | entry (error : StoreError)
  /-- The entry at some place is no player. -/
  | unreadable (index : Nat)
  /-- The player of an entry cannot be loaded or stored. -/
  | player (id : String) (error : StoreError)
  /-- A formula has broken off the tick of the economy. -/
  | aborted
  deriving DecidableEq, Inhabited

/-- The wording of a failure.  Which formula has broken off a tick is not said, nor whose it was. -/
def TickFailure.message : TickFailure → String
  | listing error => "could not load players: " ++ error.message
  | entry error => "could not read player entry: " ++ error.message
  | unreadable index => "undecodable player blob #" ++ toString index
  | player id error => "persistence failed for player " ++ id ++ ": " ++ error.message
  | aborted => "player task aborted"

/-- What a tick of a server did. -/
structure Round where
  /-- The number of the tick, from one on. -/
  number : Nat
  /-- The players that were advanced, in order. -/
  updated : List String
  failures : List TickFailure
  deriving DecidableEq, Inhabited

/-- Whether nothing failed. -/
def Round.isClean (r : Round) : Bool := r.failures.isEmpty

namespace Server

variable {σ : Type}

/-! ## Reports -/

/-- The updates among some results. -/
def updatesOf (results : List (Except TickFailure String)) : List String :=
  results.filterMap fun
    | .ok id => some id
    | .error _ => none

/-- The failures among some results. -/
def failuresOf (results : List (Except TickFailure String)) : List TickFailure :=
  results.filterMap fun
    | .ok _ => none
    | .error failure => some failure

/-- Counts a tick, and reports on it. -/
def report (results : List (Except TickFailure String)) : StateM (Server σ) Round := fun s =>
  let updated := (updatesOf results).mergeSort fun a b => decide (a ≤ b)
  let failures := failuresOf results
  let stats :=
    { s.stats with
      ticks := s.stats.ticks + 1
      updated := s.stats.updated + updated.length
      failures := s.stats.failures + failures.length }
  (⟨stats.ticks, updated, failures⟩, { s with stats := stats })

/-- Books that the last tick took longer than the time between two ticks. -/
def noteLate : StateM (Server σ) Unit :=
  modify fun s => { s with stats := { s.stats with late := s.stats.late + 1 } }

/-! ## Updates -/

variable [PlayerStore σ]

/-- Advances the player stored under an id.  The index is that of the entry that has led to it. -/
def advance (now : UInt64) (index : Nat) (id : String) :
    ExceptT TickFailure (StateM (Server σ)) String := do
  match PlayerStore.load (← get).store id with
  | .error error => throw (.player id error)
  | .ok text =>
    match Snapshot.decode text with
    | none => throw (.unreadable index)
    | some player => do
      let acting : StateM (Server σ) _ := act player ((← get).economy.tick now)
      match ← acting with
      | none => throw .aborted
      | some (_, player, raised) => do
        let saving : StateM (Server σ) _ := saveText id (Snapshot.encode player)
        match ← saving with
        | .error error => throw (.player id error)
        | .ok _ => do
          modify fun s => s.publish raised
          return id

/-- Advances the player that an entry is about. -/
def advanceEntry (now : UInt64) (index : Nat) (entry : Except StoreError String) :
    ExceptT TickFailure (StateM (Server σ)) String :=
  match entry with
  | .error error => throw (.entry error)
  | .ok text =>
    match Snapshot.decode text with
    | none => throw (.unreadable index)
    | some player => advance now index player.id

/-- Advances the players that entries are about, the first of which has the given index. -/
def advanceAll (now : UInt64) :
    Nat → List (Except StoreError String) → StateM (Server σ) (List (Except TickFailure String))
  | _, [] => return []
  | index, entry :: rest => do
    let result ← (advanceEntry now index entry).run
    let others ← advanceAll now (index + 1) rest
    return result :: others

/-- Advances every stored player by one tick. -/
def tick (now : UInt64) : StateM (Server σ) Round := do
  match PlayerStore.loadAll (← get).store with
  | .error error => report [.error (.listing error)]
  | .ok entries => do
    let results ← advanceAll now 0 entries
    report results

/-- Ticks at each of some instants, and gives the number of the ticks. -/
def run (instants : List UInt64) : StateM (Server σ) Nat := do
  let rounds ← instants.mapM tick
  return rounds.length

end Server

end IncrementalGame
