import IncrementalGame.Economy.Error
import IncrementalGame.Toml.Document

/-!
# Settings of an economy

What may be set apart from the catalog: how long results of formulas are remembered, how many
messages a player's log keeps, which part of its cost a sold building brings back, and the seed of
chance.

Settings are written in TOML.  A field that is missing has its default, a field of another name is
passed over, and a list gives the fields in their order.
-/

namespace IncrementalGame

/-- What may be set for an economy. -/
structure Settings where
  /-- How long the result of a formula is remembered, in milliseconds. -/
  memoLifetime : UInt64
  /-- How many messages a player's log keeps. -/
  logCapacity : UInt64
  /-- Which part of its cost a sold building brings back. -/
  refundRatio : Float
  /-- The seed of chance, unless chance is to differ from run to run. -/
  seed : Option UInt64
  deriving DecidableEq

namespace Settings

/-- The settings where nothing is set. -/
def default : Settings := ⟨300000, 10, 0.5, none⟩

instance : Inhabited Settings := ⟨.default⟩

/-- What is wrong with some settings: the first thing that is. -/
def fault? (s : Settings) : Option SettingFault :=
  if s.memoLifetime = 0 then some .noLifetime
  else if s.logCapacity = 0 then some .noLog
  else if 0.0 ≤ s.refundRatio ∧ s.refundRatio ≤ 1.0 then none
  else some (.refundRatio s.refundRatio)

/-- The settings, if nothing is wrong with them. -/
def checked (s : Settings) : Except SettingFault Settings :=
  match s.fault? with
  | some fault => .error fault
  | none => .ok s

/-! ## As they are written -/

/-- The values of named fields, in the order of the names, each if it is there.  A table gives them
by their keys and a list by their places; a date has no field of any name. -/
def fieldsOf (names : List String) : Toml → Option (List (Option Toml))
  | .table _ fields => some (names.map fun name => Toml.find name fields)
  | .list items => some ((List.range names.length).map fun i => items[i]?)
  | .listed tables => some ((List.range names.length).map fun i => tables[i]?)
  | .moment _ => some (names.map fun _ => none)
  | _ => none

/-- A field that has a default. -/
def field {α : Type} (decode : Toml → Option α) (default : α) : Option Toml → Option α
  | none => some default
  | some written => decode written

/-- A natural number. -/
def natural : Toml → Option UInt64
  | .integer n => if 0 ≤ n then some (UInt64.ofNat n.toNat) else none
  | _ => none

/-- A number, which may be written as an integer. -/
def number : Toml → Option Float
  | .real x => some x
  | .integer n => some (Binary64.ofInt n)
  | _ => none

/-- The names of the fields. -/
def fieldNames : List String :=
  ["expression_cache_ttl_ms", "player_log_capacity", "sell_refund_ratio", "rng_seed"]

/-- The settings of a TOML value. -/
def ofToml (t : Toml) : Option Settings :=
  match fieldsOf fieldNames t with
  | some [memoLifetime, logCapacity, refundRatio, seed] => do
    let memoLifetime ← field natural default.memoLifetime memoLifetime
    let logCapacity ← field natural default.logCapacity logCapacity
    let refundRatio ← field number default.refundRatio refundRatio
    let seed ← field (fun t => (natural t).map some) default.seed seed
    return ⟨memoLifetime, logCapacity, refundRatio, seed⟩
  | _ => none

/-- The settings of a TOML text. -/
def ofText (source : String) : Except SettingFault Settings :=
  match (Toml.read source).bind ofToml with
  | some settings => settings.checked
  | none => .error .unreadable

end Settings

end IncrementalGame
