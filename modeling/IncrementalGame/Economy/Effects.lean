import IncrementalGame.Economy.World

/-!
# Effects

What each kind of effect does to a player.  An effect whose condition does not hold is skipped, and
one whose formula has no value fails; neither changes the player, and neither keeps the effects
after it from happening.

A spawn carries out the yields of its shiny, each under its own condition, and fails if one of them
does, though the others have happened by then.  The gate of the shiny plays no part.

A list of effects stands behind one gate, which is tried once before the first of them.
-/

namespace IncrementalGame

/-- What became of an effect. -/
inductive Outcome where
  | applied
  | skipped
  | failed
  deriving DecidableEq, Inhabited

/-- What became of a list of effects. -/
structure BlockReport where
  /-- Whether the gate was not passed, so that nothing happened. -/
  gated : Bool
  applied : Nat
  skipped : Nat
  failed : Nat
  deriving DecidableEq, Inhabited

/-- The report where the gate was not passed. -/
def BlockReport.shut : BlockReport := ⟨true, 0, 0, 0⟩

/-- The report on what became of each effect. -/
def BlockReport.ofOutcomes (outcomes : List Outcome) : BlockReport :=
  ⟨false, outcomes.count .applied, outcomes.count .skipped, outcomes.count .failed⟩

namespace Economy

/-- The target of a reset that means every resource. -/
def everyResource : String := "all"

/-- Sets a resource, or every one, back to its first amount; an unknown one is left alone. -/
def reset (e : Economy) (target : String) (p : Player) : Player :=
  if target = everyResource then p.resetResources e.catalog
  else if p.resources.contains target || e.catalog.resources.contains target then
    p.setResource target (e.catalog.initialAmount target)
  else p

/-- Starts the time of a shiny. -/
def grant (shiny : String) (now : UInt64) (p : Player) : Player :=
  { p with shinies := p.shinies.insert shiny ⟨true, now⟩ }

/-- Scales the lasting multiplier of a resource. -/
def scale (resource : String) (factor : Float) (p : Player) : Player :=
  { p with multipliers := p.multipliers.insert resource (p.multiplier resource * factor) }

/-- Changes the player by the amount of an effect, if it has one. -/
def withAmount (effect : Effect) (vars : Formula.Variables) (f : Float → Player → Player) :
    Rule Outcome := do
  match ← Rule.amount effect vars with
  | some x => do
    Rule.change (f x)
    return .applied
  | none => return .failed

/-- Carries out an effect if its condition holds. -/
def onCondition (effect : Effect) (extra : Formula.Variables)
    (act : Formula.Variables → Rule Outcome) : Rule Outcome := do
  let vars ← Rule.formulaVariables extra
  if ← Rule.holdsIfAny effect.condition vars then act vars else return .skipped

/-- Adds the amount of an effect to its target. -/
def credit (effect : Effect) (extra : Formula.Variables) : Rule Outcome :=
  onCondition effect extra fun vars => withAmount effect vars fun x p =>
    p.addResource effect.target x

/-- Carries out the yields of a shiny; there are none of an unknown one. -/
def spawn (e : Economy) (shiny : String) (extra : Formula.Variables) : Rule Outcome := do
  match e.catalog.shinies.get? shiny with
  | none => return .applied
  | some item => do
    let outcomes ← (item.effectsOf .yields).mapM fun effect => credit effect extra
    return if outcomes.contains .failed then .failed else .applied

/-- Carries out an effect.  The variables are those of the player at this moment, and `extra`. -/
def apply (e : Economy) (now : UInt64) (extra : Formula.Variables) (effect : Effect) :
    Rule Outcome :=
  onCondition effect extra fun vars =>
    match effect.kind with
    | .yields => withAmount effect vars fun x p => p.addResource effect.target x
    | .multiplies => withAmount effect vars (scale effect.target)
    | .grants => do
      Rule.change (grant effect.target now)
      return .applied
    | .spawns => e.spawn effect.target extra
    | .resets => do
      Rule.change (e.reset effect.target)
      return .applied

/-- Tries the gate of a list of effects, and carries them out in order. -/
def execute (e : Economy) (now : UInt64) (extra : Formula.Variables) (block : EffectBlock) :
    Rule BlockReport := do
  let vars ← Rule.formulaVariables extra
  if ← Rule.passes block.gate vars then
    let outcomes ← block.effects.mapM (e.apply now extra)
    return .ofOutcomes outcomes
  else return .shut

end Economy

end IncrementalGame
