import IncrementalGame.Server.Service

/-!
# Starting a server

A server starts from its settings, the text of the catalog that these name, and a store.  The first
of these that is at fault keeps it from starting.
-/

namespace IncrementalGame

/-- The catalog of a file, of which there is no text if it cannot be read. -/
def Catalog.ofSource (file : String) : Option String → Except ServiceError Catalog
  | none => .error (.unreadableCatalog file)
  | some source =>
    match Catalog.ofFile file source with
    | .ok catalog => .ok catalog
    | .error refusal => .error (.economy (.refused refusal))

/-- Starts a server.  Where no seed is set, chance starts from the given one. -/
def Server.start {σ : Type} (settings : ServerSettings) (source : Option String) (store : σ)
    (seed : UInt64) : Except ServiceError (Server σ) := do
  match settings.fault? with
  | some fault => throw (.settings fault)
  | none =>
    let catalog ← Catalog.ofSource settings.catalogPath source
    match Economy.create catalog settings.economy with
    | .ok e => return .ofEconomy e store seed
    | .error fault => throw (.economy (.settings fault))

end IncrementalGame
