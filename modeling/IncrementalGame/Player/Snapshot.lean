import IncrementalGame.Player.Basic

/-!
# Snapshots of players

A player is kept as a JSON object with a field for each part.  Writing cannot fail; a number that is
not finite is written as null, and reading it back does.  A finite number is written with the
shortest digits that denote it, and read back in the way of JSON numbers, which may end at a
neighbour of it.

Reading is lenient about fields and strict about their values.  A field that is missing has the
value of a blank player, a field of another name is passed over, whatever valid JSON it holds, and
an array lists the fields in their order.  A field may not occur twice.  The states of shinies and
the statistics need all their fields.  Integers have neither a point nor an exponent nor a sign and
must fit, while any number may stand where a fraction is allowed.
-/

namespace IncrementalGame.Snapshot

/-! ## Writing -/

/-- A table as an object. -/
def encodeMap {α : Type} (encode : α → Json) (t : KeyMap α) : Json :=
  .obj (t.entries.map fun e => (e.1, encode e.2))

/-- A natural number. -/
def encodeNat (n : Nat) : Json := .num (.int n)

/-- A number; null if it is not finite. -/
def encodeReal (x : Float) : Json := .num (.real x)

/-- The state of a shiny. -/
def encodeShiny (s : ShinyState) : Json :=
  .obj [("active", .bool s.active), ("last_spawn_ms", encodeNat s.lastSpawn.toNat)]

/-- The statistics of a resource. -/
def encodeStats (s : ResourceStats) : Json :=
  .obj [("max", encodeNat s.max.toNat), ("earned", encodeNat s.earned.toNat),
    ("per_tick", encodeReal s.perTick)]

/-- The fields of a player. -/
def encodeFields (p : Player) : List (String × Json) :=
  [ ("id", .str p.id),
    ("resources", encodeMap (fun n => encodeNat n.toNat) p.resources),
    ("carry", encodeMap encodeReal p.carry),
    ("buildings", encodeMap (fun n => encodeNat n.toNat) p.buildings),
    ("upgrades", encodeMap .bool p.upgrades),
    ("multipliers", encodeMap encodeReal p.multipliers),
    ("achievements", encodeMap (fun n => encodeNat n.toNat) p.achievements),
    ("prestige", encodeNat p.prestige.toNat),
    ("log", .arr (p.log.map .str)),
    ("shinies", encodeMap encodeShiny p.shinies),
    ("stats", encodeMap encodeStats p.stats),
    ("last_update_ms", encodeNat p.lastUpdate.toNat) ]

/-- The text of a player. -/
def encode (p : Player) : String := (Json.obj (encodeFields p)).render

/-! ## Reading -/

/-- A text. -/
def decodeText : Document → Option String
  | .text s => s
  | _ => none

/-- A truth value. -/
def decodeBool : Document → Option Bool
  | .bool b => some b
  | _ => none

/-- A natural number below a bound. -/
def decodeNat (bound : Nat) : Document → Option Nat
  | .number literal =>
    match literal.toInt? with
    | some n => if 0 ≤ n ∧ n.toNat < bound then some n.toNat else none
    | none => none
  | _ => none

/-- A whole number of 64 bits. -/
def decode64 (d : Document) : Option UInt64 := (decodeNat UInt64.size d).map UInt64.ofNat

/-- A whole number of 32 bits. -/
def decode32 (d : Document) : Option UInt32 := (decodeNat UInt32.size d).map UInt32.ofNat

/-- A finite number. -/
def decodeReal : Document → Option Float
  | .number literal => literal.toFloat?
  | _ => none

/-- The entries of an object. -/
def decodeEntries {α : Type} (decode : Document → Option α) :
    List (Option String × Document) → Option (List (String × α))
  | [] => some []
  | (key, value) :: rest =>
    match key, decode value, decodeEntries decode rest with
    | some key, some value, some rest => some ((key, value) :: rest)
    | _, _, _ => none

/-- A table; of a repeated key the last value stands. -/
def decodeMap {α : Type} (decode : Document → Option α) : Document → Option (KeyMap α)
  | .object fields => (decodeEntries decode fields).map KeyMap.ofList
  | _ => none

/-- A list. -/
def decodeList {α : Type} (decode : Document → Option α) : Document → Option (List α)
  | .array items => items.mapM decode
  | _ => none

/-- The values of named fields, in the order of the names, each if it is there.  An object gives
them by their keys, none of which may occur twice, and an array by their places. -/
def fieldsOf (names : List String) : Document → Option (List (Option Document))
  | .object fields =>
    if fields.any (fun f => f.1.isNone) then none
    else
      let named := fields.filterMap fun f => f.1.map fun key => (key, f.2)
      let found := names.map fun name => named.filter (fun f => f.1 == name)
      if found.any (fun l => decide (1 < l.length)) then none
      else some (found.map fun l => l.head?.map (·.2))
  | .array items =>
    if names.length < items.length then none
    else some (items.map some ++ List.replicate (names.length - items.length) none)
  | _ => none

/-- A field that has to be there. -/
def required {α : Type} (decode : Document → Option α) (field : Option Document) : Option α :=
  field.bind decode

/-- A field that has another value if it is missing. -/
def optional {α : Type} (decode : Document → Option α) (fallback : α) :
    Option Document → Option α
  | none => some fallback
  | some d => decode d

/-- The state of a shiny. -/
def decodeShiny (d : Document) : Option ShinyState :=
  match fieldsOf ["active", "last_spawn_ms"] d with
  | some [active, lastSpawn] => do
    let active ← required decodeBool active
    let lastSpawn ← required decode64 lastSpawn
    return ⟨active, lastSpawn⟩
  | _ => none

/-- The statistics of a resource. -/
def decodeStats (d : Document) : Option ResourceStats :=
  match fieldsOf ["max", "earned", "per_tick"] d with
  | some [max, earned, perTick] => do
    let max ← required decode64 max
    let earned ← required decode64 earned
    let perTick ← required decodeReal perTick
    return ⟨max, earned, perTick⟩
  | _ => none

/-- The names of the fields of a player. -/
def playerFields : List String :=
  ["id", "resources", "carry", "buildings", "upgrades", "multipliers", "achievements", "prestige",
    "log", "shinies", "stats", "last_update_ms"]

/-- A player. -/
def decodePlayer (d : Document) : Option Player :=
  match fieldsOf playerFields d with
  | some [id, resources, carry, buildings, upgrades, multipliers, achievements, prestige, log,
      shinies, stats, lastUpdate] => do
    let id ← optional decodeText "" id
    let resources ← optional (decodeMap decode64) .empty resources
    let carry ← optional (decodeMap decodeReal) .empty carry
    let buildings ← optional (decodeMap decode32) .empty buildings
    let upgrades ← optional (decodeMap decodeBool) .empty upgrades
    let multipliers ← optional (decodeMap decodeReal) .empty multipliers
    let achievements ← optional (decodeMap decode32) .empty achievements
    let prestige ← optional decode32 0 prestige
    let log ← optional (decodeList decodeText) [] log
    let shinies ← optional (decodeMap decodeShiny) .empty shinies
    let stats ← optional (decodeMap decodeStats) .empty stats
    let lastUpdate ← optional decode64 0 lastUpdate
    return ⟨id, resources, carry, buildings, upgrades, multipliers, achievements, prestige, log,
      shinies, stats, lastUpdate⟩
  | _ => none

/-- The player of a text. -/
def decode (blob : String) : Option Player := (Document.read blob).bind decodePlayer

end IncrementalGame.Snapshot
