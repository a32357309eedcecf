import Std.Data.TreeMap

/-!
# Values that are kept for a while

A cache keeps values under keys, each until an instant of its own.  An entry is stale from that
instant on.  Reading a stale entry finds nothing and drops it.  Writing drops all stale entries, but
only when the cache has grown to `sweepAt` entries, which is then set to twice what is left; so
entries that are never read again cannot pile up, and yet most writes touch one entry only.

Instants are natural numbers that the caller reads from some clock.
-/

namespace IncrementalGame

/-- A value and the instant from which it is stale. -/
structure CacheEntry (α : Type) where
  value : α
  /-- The first instant at which it is stale. -/
  staleAt : Nat
  deriving Inhabited

/-- Whether an entry is stale at an instant. -/
def CacheEntry.isStale {α : Type} (e : CacheEntry α) (now : Nat) : Bool := decide (e.staleAt ≤ now)

/-- Values under keys, each kept until an instant of its own. -/
structure Cache (α : Type) where
  /-- What is stored, stale entries included. -/
  entries : Std.TreeMap String (CacheEntry α)
  /-- The size from which the next write drops the stale entries. -/
  sweepAt : Nat

namespace Cache

variable {α : Type}

/-- The least size at which a write drops stale entries. -/
def minSweep : Nat := 64

/-- The cache without entries. -/
def empty : Cache α := ⟨Std.TreeMap.empty, minSweep⟩

instance : Inhabited (Cache α) := ⟨empty⟩

/-- The number of entries, stale ones included. -/
def size (c : Cache α) : Nat := c.entries.size

/-- Whether nothing is stored. -/
def isEmpty (c : Cache α) : Bool := c.entries.isEmpty

/-- The entries that are not stale. -/
def live (c : Cache α) (now : Nat) : Std.TreeMap String (CacheEntry α) :=
  c.entries.filter (fun _ e => !e.isStale now)

/-- Drops the stale entries if the cache is due for it. -/
def sweep (c : Cache α) (now : Nat) : Cache α :=
  if c.sweepAt ≤ c.size then
    let entries := c.live now
    ⟨entries, max (entries.size * 2) minSweep⟩
  else c

/-- Stores a value for `lifetime` from now on.  There is no last instant here; on a clock that has
one, `now + lifetime` may lie behind it, and then nothing could be stored. -/
def set (c : Cache α) (now : Nat) (key : String) (value : α) (lifetime : Nat) : Cache α :=
  let c := c.sweep now
  { c with entries := c.entries.insert key ⟨value, now + lifetime⟩ }

/-- The value of a key, unless it is stale; a stale entry is dropped. -/
def get (c : Cache α) (now : Nat) (key : String) : Option α × Cache α :=
  match c.entries[key]? with
  | none => (none, c)
  | some e =>
    if e.isStale now then (none, { c with entries := c.entries.erase key })
    else (some e.value, c)

/-- Drops the entry of a key, and gives its value unless it was stale. -/
def remove (c : Cache α) (now : Nat) (key : String) : Option α × Cache α :=
  let value :=
    match c.entries[key]? with
    | none => none
    | some e => if e.isStale now then none else some e.value
  (value, { c with entries := c.entries.erase key })

/-- Drops all stale entries, and gives their number. -/
def purge (c : Cache α) (now : Nat) : Nat × Cache α :=
  let entries := c.live now
  (c.entries.size - entries.size, { c with entries := entries })

/-- Drops all entries. -/
def clear (c : Cache α) : Cache α := { c with entries := Std.TreeMap.empty }

end Cache

end IncrementalGame
