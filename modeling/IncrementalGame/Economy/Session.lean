import IncrementalGame.Economy.World
import IncrementalGame.Event.Bus

/-!
# A player at an economy

A `Session` is one player under the rules of an economy, together with those who listen to its
events.  What a rule raises is told at once (`act`), or held back (`defer`) until it is known that
the change will last (`publish`).

With a rule that is broken off the session is at an end; what it shows after that counts for
nothing.
-/

namespace IncrementalGame

/-- A player under the rules of an economy, and who listens. -/
structure Session where
  economy : Economy
  /-- The player, the events held back, and the evaluator. -/
  world : World
  bus : EventBus

namespace Session

/-- Lets a rule act, and holds back the events it raises. -/
def defer {α : Type} (rule : Rule α) (s : Session) : α × Session :=
  let (a, world) := rule s.world
  (a, { s with world := world })

/-- Lets a rule act, and tells the events it raises; those held back stay so. -/
def act {α : Type} (rule : Rule α) (s : Session) : α × Session :=
  let (a, world) := rule { s.world with raised := [] }
  (a, { s with
    world := { world with raised := s.world.raised }
    bus := (s.bus.publish world.raised).2 })

/-- Tells the events held back. -/
def publish (s : Session) : Session :=
  { s with world := { s.world with raised := [] }, bus := (s.bus.publish s.world.raised).2 }

/-- A session with a new player, which one receiver listens to. -/
def start (e : Economy) (id : String) (now seed : UInt64) (capacity : Nat) : Session :=
  ⟨e, ⟨.start id e.catalog now, [], e.evaluator seed, false⟩, EventBus.empty.subscribe capacity⟩

end Session

end IncrementalGame
