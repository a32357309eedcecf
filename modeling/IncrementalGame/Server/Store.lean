import IncrementalGame.KeyMap
import IncrementalGame.Text.Quoted

/-!
# Where players are kept

A store keeps one text for each player, under the player's id.  `PlayerStore` says what any store
can do, and a `MemoryStore` is nothing but a table of the texts.

An entry that cannot be read does not keep the others from being listed.  Unless a store knows
better, it takes an id for stored exactly if its text can be loaded.
-/

namespace IncrementalGame

/-- Why a store cannot do what it is asked for. -/
inductive StoreError where
  /-- Nothing is stored under the id. -/
  | notFound (id : String)
  /-- The id cannot be stored. -/
  | invalidId (id : String)
  /-- A file cannot be read or written. -/
  | file (name : String)
  deriving DecidableEq, Inhabited

/-- The wording of an error of a store. -/
def StoreError.message : StoreError → String
  | notFound id => "player not stored: " ++ id
  | invalidId id => "invalid player id: " ++ Text.quoted id
  | file name => "i/o error on " ++ name

/-- What a store of players can do.  What it keeps are texts: for bytes that are no text in UTF-8
there is no counterpart here. -/
class PlayerStore (σ : Type) where
  /-- All texts, each of them unless it cannot be read. -/
  loadAll : σ → Except StoreError (List (Except StoreError String))
  /-- The text of a player. -/
  load : σ → String → Except StoreError String
  /-- Stores the text of a player, in place of the one before. -/
  save : σ → String → String → Except StoreError Unit × σ
  /-- Whether a player is stored. -/
  contains : σ → String → Bool := fun store id => (load store id).isOk

/-- A store that is nothing but a table. -/
structure MemoryStore where
  /-- The text of each player. -/
  texts : KeyMap String
  deriving DecidableEq, Inhabited

namespace MemoryStore

/-- The store without players. -/
def empty : MemoryStore := ⟨.empty⟩

/-- The number of players. -/
def size (store : MemoryStore) : Nat := store.texts.size

/-- Whether there are no players. -/
def isEmpty (store : MemoryStore) : Bool := store.texts.entries.isEmpty

/-- The text of a player. -/
def load (store : MemoryStore) (id : String) : Except StoreError String :=
  match store.texts.get? id with
  | some text => .ok text
  | none => .error (.notFound id)

/-- Stores the text of a player. -/
def save (store : MemoryStore) (id text : String) : MemoryStore := ⟨store.texts.insert id text⟩

instance : PlayerStore MemoryStore where
  loadAll store := .ok (store.texts.entries.map fun e => .ok e.2)
  load := load
  save store id text := (.ok (), store.save id text)
  contains store id := store.texts.contains id

end MemoryStore

/-! ## Outages -/

/-- A store that may be out of order for a while. -/
structure Unreliable (σ : Type) where
  /-- The store as it is when in order. -/
  store : σ
  /-- Whether nothing can be stored. -/
  savesFail : Bool
  /-- Whether the players cannot be listed. -/
  listingFails : Bool
  deriving DecidableEq, Inhabited

namespace Unreliable

variable {σ : Type}

/-- A store in order. -/
def ofStore (store : σ) : Unreliable σ := ⟨store, false, false⟩

/-- The error of an outage. -/
def outage : StoreError := .file "store"

instance [PlayerStore σ] : PlayerStore (Unreliable σ) where
  loadAll u := if u.listingFails then .error outage else PlayerStore.loadAll u.store
  load u id := PlayerStore.load u.store id
  save u id text :=
    if u.savesFail then (.error outage, u)
    else
      let (result, store) := PlayerStore.save u.store id text
      (result, { u with store := store })
  contains u id := PlayerStore.contains u.store id

end Unreliable

end IncrementalGame
