import IncrementalGame.Cache
import IncrementalGame.Formula.Eval

/-!
# Formulas with a memory

An `Evaluator` computes formulas and remembers what they amounted to, so that a formula asked again
with the same variables is neither parsed nor computed.  It remembers under the text of the formula
and the whole snapshot of variables (`memoKey`), for as long as its lifetime says, and only what
does not hang on chance; errors are not remembered.

Several evaluators may share one memory (`Evaluators`), each with a generator of its own.
-/

namespace IncrementalGame.Formula

open IncrementalGame.Random (Generator)

/-- One binding of a snapshot as it stands in a key. -/
def bindingText (name : String) (x : Float) : String := name ++ "=" ++ Binary64.plain x ++ ";"

/-- What a result is remembered under: the formula, a bar, and every variable with its value. -/
def memoKey (formula : String) (vars : Variables) : String :=
  vars.foldl (fun key name x => key ++ bindingText name x) (formula ++ "|")

/-- What an evaluator works with. -/
structure Evaluator where
  memo : Cache Float
  /-- Where chance comes from. -/
  generator : Generator
  /-- How long a result is remembered. -/
  lifetime : Nat
  instant : Nat
  deriving Inhabited

namespace Evaluator

/-- How long results are remembered unless something else is asked for, in milliseconds. -/
def defaultLifetime : Nat := 300000

/-- An evaluator that remembers nothing yet. -/
def ofSeed (seed : UInt64) (lifetime : Nat) : Evaluator :=
  ⟨Cache.empty, Generator.ofSeed seed, lifetime, 0⟩

/-- Computes a formula that is not remembered, and remembers the result if it may. -/
def compute (key formula : String) (vars : Variables) (ev : Evaluator) :
    Except EvalError Float × Evaluator :=
  match parse formula with
  | .error e => (.error e, ev)
  | .ok tree =>
    match tree.amount vars ev.generator with
    | (.error e, g) => (.error e, { ev with generator := g })
    | (.ok x, g) =>
      let ev := { ev with generator := g }
      if tree.isRandom then (.ok x, ev)
      else (.ok x, { ev with memo := ev.memo.set ev.instant key x ev.lifetime })

/-- What a formula amounts to. -/
def evaluate (formula : String) (vars : Variables) : StateM Evaluator (Except EvalError Float) :=
  fun ev =>
    let key := memoKey formula vars
    match ev.memo.get ev.instant key with
    | (some x, memo) => (.ok x, { ev with memo := memo })
    | (none, memo) => compute key formula vars { ev with memo := memo }

/-- Whether a condition holds: it amounts to anything but zero. -/
def holds (condition : String) (vars : Variables) : StateM Evaluator (Except EvalError Bool) := do
  match ← evaluate condition vars with
  | .ok x => return .ok (x != 0.0)
  | .error e => return .error e

/-- True with the probability of so many percent. -/
def rollPercent (p : Float) : StateM Evaluator Bool := fun ev =>
  let (b, g) := ev.generator.percent p
  (b, { ev with generator := g })

end Evaluator

/-- Several generators over one memory. -/
structure Evaluators where
  memo : Cache Float
  /-- The generator of each evaluator. -/
  generators : List Generator
  /-- How long a result is remembered. -/
  lifetime : Nat
  instant : Nat
  deriving Inhabited

namespace Evaluators

/-- Lets one of the evaluators do something; there is no answer if it does not exist. -/
def onOne {α : Type} (i : Nat) (action : StateM Evaluator α) : StateM Evaluators (Option α) :=
  fun evs =>
    match evs.generators[i]? with
    | none => (none, evs)
    | some g =>
      let (a, ev) := action ⟨evs.memo, g, evs.lifetime, evs.instant⟩
      (some a, { evs with memo := ev.memo, generators := evs.generators.set i ev.generator })

/-- Forgets every result. -/
def forget : StateM Evaluators Unit := fun evs => ((), { evs with memo := evs.memo.clear })

/-- Forgets the stale results. -/
def purge : StateM Evaluators Nat := fun evs =>
  let (n, memo) := evs.memo.purge evs.instant
  (n, { evs with memo := memo })

/-- Moves the clock on. -/
def wait (duration : Nat) : StateM Evaluators Unit := fun evs =>
  ((), { evs with instant := evs.instant + duration })

end Evaluators

end IncrementalGame.Formula
