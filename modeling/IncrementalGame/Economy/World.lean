import IncrementalGame.Economy.Settings
import IncrementalGame.Event.Basic
import IncrementalGame.Formula.Evaluator
import IncrementalGame.Player.Basic

/-!
# What the rules act on

An `Economy` is a catalog with settings that are in order.  Its rules act on a `World`: one player,
the events raised and not yet told, and the evaluator that all formulas go to.

A rule that cannot be refused is a `Rule`, and one that can is an `Action`.  An action that is
refused keeps the world it has come to, so that a refusal leaves the player and the events as they
were is a fact about each action and not about their type.

A player's log and the events go together: `announce` writes one message and raises one event, and
no rule does either without the other.

A formula that is broken off breaks off the rule that has asked for it, and all that the rule is
part of.  The world remembers it (`World.broken`).  What a rule would still do then asks for nothing
any more and comes to nothing: neither what it gives nor the world that it leaves counts, apart from
the evaluator, which is as it was at the break (`Rule.result?`).
-/

namespace IncrementalGame

/-- A catalog with settings that are in order. -/
structure Economy where
  catalog : Catalog
  settings : Settings
  sound : settings.fault? = none

/-- What the rules of an economy act on. -/
structure World where
  player : Player
  /-- The events raised and not yet told, oldest first. -/
  raised : List Event
  evaluator : Formula.Evaluator
  /-- Whether a formula has broken off what was going on. -/
  broken : Bool

/-- A rule that cannot be refused. -/
abbrev Rule (α : Type) := StateM World α

/-- A rule that can be refused. -/
abbrev Action (α : Type) := ExceptT EconomyError (StateM World) α

namespace Economy

/-- The economy of a catalog and settings, if these are in order. -/
def create (catalog : Catalog) (settings : Settings) : Except SettingFault Economy :=
  match h : settings.fault? with
  | some fault => .error fault
  | none => .ok ⟨catalog, settings, h⟩

/-- The evaluator that the formulas of an economy go to at first.  Where no seed is set, chance
starts from the given one. -/
def evaluator (e : Economy) (seed : UInt64) : Formula.Evaluator :=
  .ofSeed (e.settings.seed.getD seed) e.settings.memoLifetime.toNat

end Economy

namespace Rule

/-- The player as it is. -/
def player : Rule Player := do return (← get).player

/-- Changes the player. -/
def change (f : Player → Player) : Rule Unit := modify fun w => { w with player := f w.player }

/-- What a rule gives and the world that it leaves, or nothing if it is broken off. -/
def result? {α : Type} (rule : Rule α) (w : World) : Option (α × World) :=
  let (a, v) := rule w
  if v.broken then none else some (a, v)

/-- Asks the evaluator, unless something has been broken off before. -/
def consult {α : Type} (question : StateM Formula.Evaluator (Except Formula.EvalError α)) :
    Rule (Except Formula.EvalError α) := fun w =>
  if w.broken then (.error .unboundedDraw, w)
  else
    let (answer, evaluator) := question w.evaluator
    (answer, { w with evaluator := evaluator, broken := Formula.brokenOff answer })

/-- Writes a message to the player's log, and raises an event. -/
def announce (e : Economy) (message : String) (event : Event) : Rule Unit :=
  modify fun w =>
    { w with
      player := w.player.pushLog message e.settings.logCapacity.toNat
      raised := w.raised ++ [event] }

/-- The names that formulas may use: those of the player, and over them some more. -/
def formulaVariables (extra : Formula.Variables) : Rule Formula.Variables := do
  return (← player).formulaVariables.overlay extra

/-- What a formula amounts to, or nothing if it has no value. -/
def amountOf (formula : String) (vars : Formula.Variables) : Rule (Option Float) := do
  return (← consult (Formula.Evaluator.evaluate formula vars)).toOption

/-- Whether a condition holds; one that has no value does not. -/
def holds (formula : String) (vars : Formula.Variables) : Rule Bool := do
  return (← consult (Formula.Evaluator.holds formula vars)).toOption.getD false

/-- Whether a condition holds, where there is one. -/
def holdsIfAny (condition : Option String) (vars : Formula.Variables) : Rule Bool :=
  match condition with
  | some formula => holds formula vars
  | none => pure true

/-- Whether something of so many percent comes about. -/
def chance (percent : Float) : Rule Bool := do
  return (← consult (.ok <$> Formula.Evaluator.rollPercent percent)).toOption.getD false

/-- Whether a gate is passed, where there is one. -/
def passes (gate : Option Gate) (vars : Formula.Variables) : Rule Bool :=
  match gate with
  | some (.chance percent) => chance percent
  | some (.condition formula) => holds formula vars
  | none => pure true

/-- How much an effect is about, or nothing if its formula has no value. -/
def amount (effect : Effect) (vars : Formula.Variables) : Rule (Option Float) :=
  match effect.expression with
  | some formula => amountOf formula vars
  | none => pure (some effect.value)

end Rule

end IncrementalGame
