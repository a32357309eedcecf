import IncrementalGame.KeyMap

/-!
# Locks of players

One lock for each player that somebody is busy with.  A lock comes into being when it is first asked
for, and it is gone once nobody holds it or waits for it; so there are never more locks than players
that are being served.
-/

namespace IncrementalGame

/-- The locks that exist, each with the number of those who hold it or wait for it. -/
structure Locks where
  /-- How many hold or wait for the lock of each id. -/
  holders : KeyMap Nat
  deriving DecidableEq, Inhabited

namespace Locks

/-- No locks. -/
def none : Locks := ⟨.empty⟩

/-- The number of locks. -/
def size (locks : Locks) : Nat := locks.holders.size

/-- Whether there are no locks. -/
def isEmpty (locks : Locks) : Bool := locks.holders.entries.isEmpty

/-- Asks for the lock of an id. -/
def acquire (locks : Locks) (id : String) : Locks :=
  ⟨locks.holders.update id 0 (· + 1)⟩

/-- Gives the lock of an id back. -/
def release (locks : Locks) (id : String) : Locks :=
  let others := locks.holders.getD id 0 - 1
  ⟨if others = 0 then locks.holders.erase id else locks.holders.insert id others⟩

/-- Does something under the lock of an id. -/
def holding {α : Type} (id : String) (inside : StateM Locks α) : StateM Locks α := do
  modify (·.acquire id)
  let a ← inside
  modify (·.release id)
  return a

end Locks

end IncrementalGame
