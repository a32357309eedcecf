import IncrementalGame.Economy.Trade

/-!
# Replies

What a player is told in words: lists of balances, counts and amounts, and the full summary.
-/

namespace IncrementalGame.Reply

/-- Texts with commas between them. -/
def joined (texts : List String) : String := ", ".intercalate texts

/-- Texts with commas between them, and a word where there are none. -/
def orNone (texts : List String) : String := if texts.isEmpty then "(none)" else joined texts

/-- A table of counts. -/
def counts {α : Type} (toNat : α → Nat) (t : KeyMap α) : String :=
  orNone (t.entries.map fun e => e.1 ++ ": " ++ toString (toNat e.2))

/-- A table of amounts. -/
def amounts (t : KeyMap Float) : String :=
  joined (t.entries.map fun e => Binary64.plain e.2 ++ " " ++ e.1)

/-- The balances of a player. -/
def resources (p : Player) : String := counts UInt64.toNat p.resources

/-- The buildings of a player. -/
def buildings (p : Player) : String := counts UInt32.toNat p.buildings

/-- The upgrades that a player owns. -/
def upgrades (p : Player) : String := orNone ((p.upgrades.entries.filter (·.2)).map (·.1))

/-- The achievement levels of a player. -/
def achievements (p : Player) : String := counts UInt32.toNat p.achievements

/-- The lines of the full summary. -/
def statusLines (p : Player) : List String :=
  [ "player " ++ p.id ++ " (prestige " ++ toString p.prestige.toNat ++ ")",
    "resources: " ++ resources p,
    "buildings: " ++ buildings p,
    "upgrades: " ++ upgrades p,
    "achievements: " ++ achievements p ] ++ p.log.map ("  > " ++ ·)

/-- The full summary of a player; blanks at its end are dropped. -/
def status (p : Player) : String :=
  String.ofList (Text.trimEnd ("\n".intercalate (statusLines p)).toList)

/-- What was bought. -/
def bought (purchase : Purchase) : String :=
  "bought " ++ purchase.key ++ " (owned: " ++ toString purchase.owned.toNat ++ ")"

/-- What was sold. -/
def sold (key : String) (refund : KeyMap Float) : String :=
  "sold " ++ key ++ ", refunded " ++ amounts refund

/-- The new level of prestige. -/
def prestige (level : UInt32) : String := "prestige level " ++ toString level.toNat

/-- Who was created. -/
def created (id : String) : String := "created player " ++ id

end IncrementalGame.Reply
