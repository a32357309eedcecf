import IncrementalGame.Server.Command
import IncrementalGame.Server.Settings
import IncrementalGame.Server.Store

/-!
# Why a server refuses

The causes for which a request to a server is refused, and their wording.  A refusal by the store or
by the rules is passed on as it is.

A command that a formula has broken off is not refused but at an end: nobody is told, and only the
log of the server says so.
-/

namespace IncrementalGame

/-- Why a server refuses. -/
inductive ServiceError where
  /-- The store refuses. -/
  | store (error : StoreError)
  /-- The rules refuse. -/
  | economy (error : EconomyError)
  /-- What is stored for a player is no player. -/
  | unreadablePlayer (id : String)
  | playerExists (id : String)
  /-- The line is no command. -/
  | badCommand (fault : CommandFault)
  /-- The settings are refused. -/
  | settings (fault : ServerFault)
  /-- The file of the catalog cannot be read. -/
  | unreadableCatalog (file : String)
  /-- A formula has broken off the command. -/
  | aborted
  deriving Inhabited

/-- The wording of a refusal. -/
def ServiceError.message : ServiceError → String
  | store error => error.message
  | economy error => error.message
  | unreadablePlayer id => "codec error: player " ++ id
  | playerExists id => "player already exists: " ++ id
  | badCommand fault => "bad command: " ++ fault.describe
  | settings fault => fault.message
  | unreadableCatalog file => "invalid configuration: cannot read catalog " ++ file
  | aborted => "command task aborted"

end IncrementalGame
