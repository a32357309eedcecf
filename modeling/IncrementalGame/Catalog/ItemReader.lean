import IncrementalGame.Catalog.Flaw
import IncrementalGame.Catalog.Item

/-!
# Items as they are written

An item is written as a mapping.  Its fields are read one by one in a fixed order, and the first
that is not of the right shape is the flaw of the item.

* A number may be written as an integer or as a real number, and a field that is null counts as
  absent.
* An effect is a mapping, or a shorthand `kind:target:expression`; what follows the second colon is
  the expression as a whole, and for a multiplier a number there is its value.
* A gate is a `chance`, a number or a text such as `25%`, or a `condition` that is not blank.  For
  an achievement `condition` is the condition of its only level instead.
* Requirements are a list of keys, or one text with commas.
-/

namespace IncrementalGame.Catalog

/-- The fields of a mapping. -/
abbrev Fields := List (String × Json)

/-- The value of a field. -/
def get? (fields : Fields) (field : String) : Option Json := KeyMap.lookup field fields

/-- A field that is a text, if it is there. -/
def textField (fields : Fields) (field : String) : Except Flaw (Option String) :=
  match get? fields field with
  | none | some .null => .ok none
  | some (.str s) => .ok (some s)
  | some found => .error (.wrongShape field .string found)

/-- A field that is a number, if it is there. -/
def numberField (fields : Fields) (field : String) : Except Flaw (Option Float) :=
  match get? fields field with
  | none | some .null => .ok none
  | some (.num n) => .ok (some n.toFloat)
  | some found => .error (.wrongShape field .number found)

/-- The amounts of a mapping, none of them negative. -/
def amounts (field : String) : Fields → Except Flaw (List (String × Float))
  | [] => .ok []
  | (key, .num n) :: rest =>
    if 0.0 ≤ n.toFloat then do
      let others ← amounts field rest
      return (key, n.toFloat) :: others
    else .error (.negativeAmount field key)
  | (key, found) :: _ => .error (.amountNotNumber field key found)

/-- A field that maps keys to amounts. -/
def amountsField (fields : Fields) (field : String) : Except Flaw (KeyMap Float) :=
  match get? fields field with
  | none | some .null => .ok .empty
  | some (.obj entries) => do
    let entries ← amounts field entries
    return KeyMap.ofList entries
  | some found => .error (.wrongShape field .mapping found)

/-- The keys of a list. -/
def keys (field : String) : List Json → Except Flaw (List String)
  | [] => .ok []
  | .str s :: rest => do
    let others ← keys field rest
    return s :: others
  | found :: _ => .error (.entryNotString field found)

/-- A field that is a list of keys, or a text with commas between them. -/
def keysField (fields : Fields) (field : String) : Except Flaw (List String) :=
  match get? fields field with
  | none | some .null => .ok []
  | some (.str s) =>
    .ok (((Text.splitAt ',' s.toList).map Text.trim).filter (· ≠ []) |>.map String.ofList)
  | some (.arr items) => keys field items
  | some found => .error (.wrongShape field .keyList found)

/-- Whether a text has nothing but blanks. -/
def isBlankText (s : String) : Bool := (Text.trim s.toList).isEmpty

/-- A text, unless it is blank. -/
def unlessBlank (s : Option String) : Option String := s.filter (fun s => !isBlankText s)

/-! ## Effects -/

/-- The parts of a shorthand: kind, target, and what follows the second colon. -/
def shorthandParts (s : List Char) : List Char × Option (List Char × Option (List Char)) :=
  let kind := s.takeWhile (· != ':')
  match s.dropWhile (· != ':') with
  | [] => (kind, none)
  | _ :: rest =>
    let target := rest.takeWhile (· != ':')
    match rest.dropWhile (· != ':') with
    | [] => (kind, some (target, none))
    | _ :: expression => (kind, some (target, some expression))

/-- What the last part of a shorthand says: a fixed amount, or a formula. -/
def shorthandAmount (kind : EffectKind) (part : Option (List Char)) : Float × Option String :=
  match part.map Text.trim with
  | none | some [] => (0.0, none)
  | some text =>
    match kind, Binary64.ofText? text with
    | .multiplies, some x => (x, none)
    | _, _ => (0.0, some (String.ofList text))

/-- An effect written as a shorthand. -/
def effectOfText (written : String) : Except Flaw Effect :=
  match shorthandParts written.toList with
  | (_, none) => .error (.effectWithoutTarget written)
  | (kind, some (target, part)) =>
    match EffectKind.ofText? kind with
    | none => .error (.unknownEffect (String.ofList kind))
    | some k =>
      let (value, expression) := shorthandAmount k part
      .ok ⟨k, String.ofList (Text.trim target), value, expression, none⟩

/-- An effect written as a mapping. -/
def effectOfFields (fields : Fields) : Except Flaw Effect := do
  match ← textField fields "type" with
  | none => .error .effectWithoutKind
  | some written =>
    match EffectKind.ofText? written.toList with
    | none => .error (.unknownEffect written)
    | some kind => do
      let target ← textField fields "target"
      let value ← numberField fields "value"
      let expression ← textField fields "expression"
      let condition ← textField fields "condition"
      return ⟨kind, target.getD "", value.getD 0.0, unlessBlank expression, unlessBlank condition⟩

/-- An effect. -/
def effect : Json → Except Flaw Effect
  | .str s => effectOfText s
  | .obj fields => effectOfFields fields
  | found => .error (.effectShape found)

/-- A list of effects. -/
def effects : List Json → Except Flaw (List Effect)
  | [] => .ok []
  | e :: rest => do
    let e ← effect e
    let others ← effects rest
    return e :: others

/-- The effects of an item; a single one needs no list. -/
def effectsField (fields : Fields) : Except Flaw (List Effect) :=
  match get? fields "effects" with
  | none | some .null => .ok []
  | some (.arr items) => effects items
  | some (.str s) => effects [.str s]
  | some (.obj e) => effects [.obj e]
  | some found => .error (.wrongShape "effects" .list found)

/-! ## Gates -/

/-- A text without the signs of one kind at its end. -/
def dropEnd (c : Char) (s : List Char) : List Char := (s.reverse.dropWhile (· == c)).reverse

/-- A percentage written as a text. -/
def percentage? (written : String) : Option Float :=
  Binary64.ofText? (Text.trim (dropEnd '%' (Text.trim written.toList)))

/-- The gate of an item. -/
def gateField (fields : Fields) : Except Flaw (Option Gate) :=
  match get? fields "chance" with
  | some (.num n) => .ok (some (.chance n.toFloat))
  | some (.str s) =>
    match percentage? s with
    | some p => .ok (some (.chance p))
    | none => .error (.notPercentage s)
  | none | some .null => do
    let condition ← textField fields "condition"
    return (unlessBlank condition).map .condition
  | some found => .error (.wrongShape "chance" .percentage found)

/-! ## Achievement levels -/

/-- The number of a level: a positive whole number, or the given one where none is written. -/
def levelNumber (fields : Fields) (fallback : Nat) : Except Flaw UInt32 := do
  match ← numberField fields "level" with
  | none => return UInt32.ofNat (min fallback (UInt32.size - 1))
  | some n =>
    if 1.0 ≤ n ∧ Binary64.isWhole n then return n.toUInt32
    else .error (.levelNumber n)

/-- A level of an achievement. -/
def level (fields : Fields) (fallback : Nat) : Except Flaw AchievementLevel := do
  let number ← levelNumber fields fallback
  match ← textField fields "condition" with
  | none => .error (.levelWithoutCondition number)
  | some condition => do
    let rewards ← amountsField fields "rewards"
    return ⟨number, condition, rewards⟩

/-- The levels of a list, the first of which has the given index. -/
def levels (index : Nat) : List Json → Except Flaw (List AchievementLevel)
  | [] => .ok []
  | .obj fields :: rest => do
    let l ← level fields (index + 1)
    let others ← levels (index + 1) rest
    return l :: others
  | _ :: _ => .error (.levelNotMapping index)

/-- The levels of an achievement: a list, or its own condition as the only one. -/
def levelsField (fields : Fields) : Except Flaw (List AchievementLevel) :=
  match get? fields "levels" with
  | some (.arr items) => levels 0 items
  | some _ => .error .levelsNotList
  | none =>
    if (get? fields "condition").isSome then do
      let l ← level fields 1
      return [l]
    else .ok []

/-! ## Items -/

/-- The category of achievements. -/
def achievementsCategory : String := "achievements"

/-- The fields that have a place of their own in an item. -/
def knownFields : List String :=
  ["name", "type", "description", "cost", "effects", "initial", "reqs"]

/-- The first amount of an item. -/
def initialField (fields : Fields) : Except Flaw Float := do
  let initial := (← numberField fields "initial").getD 0.0
  if initial < 0.0 then .error .negativeInitial else return initial

/-- The levels and the gate of an item; achievements have the former, all others the latter. -/
def levelsAndGate (category : String) (fields : Fields) :
    Except Flaw (List AchievementLevel × Option Gate) := do
  if category = achievementsCategory then
    let levels ← levelsField fields
    return (levels, none)
  else
    let gate ← gateField fields
    return ([], gate)

/-- An item of some fields. -/
def itemOfFields (category key : String) (fields : Fields) : Except Flaw Item := do
  let initial ← initialField fields
  let effects ← effectsField fields
  let (levels, gate) ← levelsAndGate category fields
  let name ← textField fields "name"
  let tag ← textField fields "type"
  let description ← textField fields "description"
  let cost ← amountsField fields "cost"
  let requirements ← keysField fields "reqs"
  return {
    category, key, tag, cost, effects, gate, initial, requirements, levels
    name := name.getD key
    description := description.getD ""
    properties := KeyMap.ofList (fields.filter fun f => !knownFields.contains f.1) }

/-- An item. -/
def item (category key : String) : Json → Except Refusal Item
  | .obj fields =>
    match itemOfFields category key fields with
    | .ok item => .ok item
    | .error flaw => .error ⟨category, key, flaw⟩
  | found => .error ⟨category, key, .itemNotMapping found⟩

end IncrementalGame.Catalog
