import IncrementalGame.Text.Blank
import IncrementalGame.Text.Quoted

/-!
# Commands

What a player may ask for, as one line: a verb, and for buying and selling the key of an item.
Blanks separate the words, and capitals in the verb do not matter.
-/

namespace IncrementalGame

/-- What a player may ask for. -/
inductive Command where
  | create
  | buy (key : String)
  | sell (key : String)
  | prestige
  | status
  | resources
  | buildings
  | help
  deriving DecidableEq, Inhabited

/-- Why a line is no command. -/
inductive CommandFault where
  | empty
  | unexpected (word : String)
  | needsKey (verb : String)
  | takesNone (verb word : String)
  | unknown (verb : String)
  deriving DecidableEq, Inhabited

/-- The wording of a fault in a command. -/
def CommandFault.describe : CommandFault → String
  | empty => "empty command"
  | unexpected word => "unexpected argument " ++ Text.quoted word
  | needsKey verb => verb ++ " needs an item key"
  | takesNone verb word => verb ++ " takes no argument, got " ++ Text.quoted word
  | unknown verb => "unknown command " ++ Text.quoted verb

namespace Command

/-- The verb of a command. -/
def verb : Command → String
  | create => "create"
  | buy _ => "buy"
  | sell _ => "sell"
  | prestige => "prestige"
  | status => "status"
  | resources => "resources"
  | buildings => "buildings"
  | help => "help"

/-- The key of the item that a command is about. -/
def key? : Command → Option String
  | buy key => some key
  | sell key => some key
  | _ => none

/-- The commands that are a verb alone, each under its verb; help has a second one. -/
def plainVerbs : List (String × Command) :=
  [ ("create", create), ("prestige", prestige), ("status", status), ("resources", resources),
    ("buildings", buildings), ("help", help), ("?", help) ]

/-- The commands that need a key, each under its verb. -/
def keyedVerbs : List (String × (String → Command)) := [("buy", buy), ("sell", sell)]

/-- The command of a verb in small letters and the word after it, if there is one. -/
def ofWords (verb : String) (word : Option String) : Except CommandFault Command :=
  match keyedVerbs.lookup verb, plainVerbs.lookup verb, word with
  | some command, _, some key => .ok (command key)
  | some _, _, none => .error (.needsKey verb)
  | none, some command, none => .ok command
  | none, some _, some word => .error (.takesNone verb word)
  | none, none, _ => .error (.unknown verb)

/-- The command of a line.  A third word is refused whatever the first two are. -/
def parse (line : String) : Except CommandFault Command :=
  match (Text.words line.toList).map String.ofList with
  | [] => .error .empty
  | [verb] => ofWords verb.toLower none
  | [verb, word] => ofWords verb.toLower (some word)
  | _ :: _ :: word :: _ => .error (.unexpected word)

/-- What help says. -/
def helpText : String :=
  "commands:\n" ++
  "  create            create the player\n" ++
  "  buy <key>         buy an upgrade or one building\n" ++
  "  sell <key>        sell one building for half its base cost\n" ++
  "  prestige          reset progress for a prestige level\n" ++
  "  status            full player summary\n" ++
  "  resources         resource balances\n" ++
  "  buildings         building counts\n" ++
  "  help              this text"

end Command

end IncrementalGame
