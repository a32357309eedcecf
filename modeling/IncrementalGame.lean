import IncrementalGame.Economy.Session
import IncrementalGame.Economy.Simulation
import IncrementalGame.Main
import IncrementalGame.Proofs.Economy.Accounting
import IncrementalGame.Proofs.Economy.EventLog
import IncrementalGame.Proofs.Formula.Memory
import IncrementalGame.Proofs.Server.Readable
import IncrementalGame.Server.Locks
import IncrementalGame.Proofs.Formula.Grammar
import IncrementalGame.Proofs.Formula.Parsing
import IncrementalGame.Proofs.Formula.Descent
import IncrementalGame.Proofs.Formula.Flattening
import IncrementalGame.Proofs.Formula.Rendering
import IncrementalGame.Proofs.Formula.Conditionals
import IncrementalGame.Proofs.Economy.AllOrNothing
import IncrementalGame.Proofs.Economy.FreshStart
import IncrementalGame.Proofs.Server.OncePerTick
import IncrementalGame.Proofs.Server.SteadyStore
import IncrementalGame.Proofs.Server.Publishing
import IncrementalGame.Proofs.Server.FilingStore
import IncrementalGame.Proofs.Server.Isolation
import IncrementalGame.Proofs.Json.Reals
import IncrementalGame.Proofs.Catalog.Tame
import IncrementalGame.Proofs.Player.Plain
import IncrementalGame.Proofs.Economy.Blind
import IncrementalGame.Proofs.Server.Schedule
import IncrementalGame.Proofs.Server.Independence
import IncrementalGame.Proofs.CacheHistory
import IncrementalGame.Proofs.Event.Delivery
import IncrementalGame.Proofs.Economy.Awards
import IncrementalGame.Proofs.Economy.Offers
import IncrementalGame.Proofs.Server.OwnEntry
import IncrementalGame.Proofs.Economy.Simulations
import IncrementalGame.Proofs.Formula.FiniteResults
import IncrementalGame.Proofs.Server.FolderAsTable
import IncrementalGame.Proofs.Economy.Prices
import IncrementalGame.Proofs.Economy.Containment
import IncrementalGame.Proofs.Economy.Credits
import IncrementalGame.Proofs.Formula.Mentions
import IncrementalGame.Proofs.Economy.Exchange
import IncrementalGame.Proofs.Economy.Reordering
import IncrementalGame.Proofs.Formula.WordOperators
import IncrementalGame.Proofs.Formula.Colons
import IncrementalGame.Proofs.Formula.Equality
import IncrementalGame.Proofs.Binary64.Integers
import IncrementalGame.Proofs.Formula.Draws
import IncrementalGame.Proofs.Player.Gains
import IncrementalGame.Proofs.Player.Presence
import IncrementalGame.Proofs.Formula.RealDraws
import IncrementalGame.Proofs.Catalog.FiniteNumbers
import IncrementalGame.Proofs.Catalog.LevelNumbers
import IncrementalGame.Proofs.Catalog.NullFields
import IncrementalGame.Proofs.Economy.Counts
import IncrementalGame.Proofs.Server.Creation
import IncrementalGame.Proofs.Economy.NetChange
import IncrementalGame.Proofs.Formula.Bytewise
