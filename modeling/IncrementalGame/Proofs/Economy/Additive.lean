import Mathlib.Tactic.Common
import IncrementalGame.Economy.Simulation
import IncrementalGame.Proofs.Economy.Rules

/-!
# Rules add to what has been raised

No rule looks at the events that were raised before it acts: they stay in front of those that it
raises, and make no other difference (`Rule.Additive`).  This passes through sequences, choices and
loops, and all that a simulation does is additive, so to tell the events of each step at once or all
of them in the end comes to the same.
-/

namespace IncrementalGame

/-- The world in which some events have been raised before all others. -/
def World.after (earlier : List Event) (w : World) : World :=
  { w with raised := earlier ++ w.raised }

namespace Rule

/-- Whether a rule does not hang on what was raised before, and keeps it. -/
def Additive {α : Type} (rule : Rule α) : Prop :=
  ∀ earlier w, rule (w.after earlier) = ((rule w).1, (rule w).2.after earlier)

section Closure

variable {α β : Type}

theorem Additive.bind {rule : Rule α} {f : α → Rule β} (h : rule.Additive)
    (hf : ∀ a, (f a).Additive) : Additive (rule >>= f) := by
  intro earlier w
  rw [bind_apply, bind_apply, h]
  exact hf _ _ _

theorem additive_pure (a : α) : Additive (pure a : Rule α) := fun _ _ => rfl

theorem additive_ite {p : Prop} [Decidable p] {rule other : Rule α} (h : rule.Additive)
    (hother : other.Additive) : Additive (if p then rule else other) := by
  split
  · exact h
  · exact hother

theorem additive_player : player.Additive := fun _ _ => rfl

theorem additive_change (f : Player → Player) : (change f).Additive := fun _ _ => rfl

theorem additive_consult (question : StateM Formula.Evaluator (Except Formula.EvalError α)) :
    (consult question).Additive := by
  intro earlier w
  cases h : w.broken with
  | true => rw [consult_of_broken question h, consult_of_broken question (w := w.after earlier) h]
  | false =>
    rw [consult_of_unbroken question h, consult_of_unbroken question (w := w.after earlier) h]
    rfl

theorem additive_announce (e : Economy) (message : String) (event : Event) :
    (announce e message event).Additive := by
  intro earlier w
  simp only [announce, World.after]
  show ((), World.mk _ (earlier ++ w.raised ++ [event]) _ _) = _
  rw [List.append_assoc]
  rfl

theorem additive_foldlM {f : β → α → Rule β} (h : ∀ b a, (f b a).Additive) (l : List α) (b : β) :
    Additive (l.foldlM f b) := by
  induction l generalizing b with
  | nil =>
    rw [List.foldlM_nil]
    exact additive_pure b
  | cons a l ih =>
    rw [List.foldlM_cons]
    exact (h b a).bind fun b => ih b

end Closure

theorem additive_holds (formula : String) (vars : Formula.Variables) :
    (holds formula vars).Additive := (additive_consult _).bind fun _ => additive_pure _

theorem additive_chance (percent : Float) : (chance percent).Additive :=
  (additive_consult _).bind fun _ => additive_pure _

theorem additive_holdsIfAny (condition : Option String) (vars : Formula.Variables) :
    (holdsIfAny condition vars).Additive := by
  cases condition with
  | some formula => exact additive_holds formula vars
  | none => exact additive_pure true

theorem additive_passes (gate : Option Gate) (vars : Formula.Variables) :
    (passes gate vars).Additive := by
  cases gate with
  | none => exact additive_pure true
  | some gate =>
    cases gate with
    | chance percent => exact additive_chance percent
    | condition formula => exact additive_holds formula vars

theorem additive_amount (effect : Effect) (vars : Formula.Variables) :
    (amount effect vars).Additive := by
  unfold amount
  cases effect.expression with
  | some formula => exact (additive_consult _).bind fun _ => additive_pure _
  | none => exact additive_pure _

end Rule

namespace Economy

open Rule (additive_pure additive_ite additive_player additive_change additive_foldlM)

variable (e : Economy)

/-! ## Ticks -/

theorem additive_addYields (vars : Formula.Variables) (effects : List Effect) (totals : Totals) :
    (addYields vars effects totals).Additive := by
  induction effects generalizing totals with
  | nil => exact additive_pure totals
  | cons effect rest ih =>
    unfold addYields
    refine (Rule.additive_holdsIfAny _ vars).bind fun _ => additive_ite ?_ (ih totals)
    refine (Rule.additive_amount effect vars).bind fun amount => ?_
    cases amount with
    | some x => exact ih _
    | none => exact ih totals

theorem additive_addBuilding (vars : Formula.Variables) (key : String) (owned : UInt32)
    (totals : Totals) : (e.addBuilding vars key owned totals).Additive := by
  unfold addBuilding
  refine additive_ite (additive_pure totals) ?_
  cases e.catalog.buildings.get? key with
  | none => exact additive_pure totals
  | some item =>
    refine (Rule.additive_passes item.gate _).bind fun _ => ?_
    exact additive_ite (additive_addYields _ _ totals) (additive_pure totals)

theorem additive_totalYield : e.totalYield.Additive :=
  additive_player.bind fun _ =>
    additive_foldlM (fun totals _ => e.additive_addBuilding _ _ _ totals) _ _

theorem additive_addFactors (vars : Formula.Variables) (effects : List Effect) (totals : Totals) :
    (addFactors vars effects totals).Additive := by
  induction effects generalizing totals with
  | nil => exact additive_pure totals
  | cons effect rest ih =>
    unfold addFactors
    refine (Rule.additive_amount effect vars).bind fun amount => ?_
    cases amount with
    | some x => exact ih _
    | none => exact ih totals

theorem additive_addUpgrade (vars : Formula.Variables) (key : String) (owned : Bool)
    (totals : Totals) : (e.addUpgrade vars key owned totals).Additive := by
  unfold addUpgrade
  split
  · exact additive_addFactors vars _ totals
  · exact additive_pure totals

theorem additive_totalMultiplier : e.totalMultiplier.Additive :=
  additive_player.bind fun _ =>
    additive_foldlM (fun totals _ => e.additive_addUpgrade _ _ _ totals) _ _

theorem additive_expireShinies (now : UInt64) : (e.expireShinies now).Additive :=
  additive_player.bind fun _ => (additive_change _).bind fun _ => additive_pure _

theorem additive_unlock (item : Item) (key : String) (level : AchievementLevel) :
    (e.unlock item key level).Additive :=
  (additive_change _).bind fun _ => (additive_change _).bind fun _ =>
    additive_player.bind fun _ => Rule.additive_announce e _ _

theorem additive_tryLevel (item : Item) (key : String) (level : AchievementLevel) :
    (e.tryLevel item key level).Additive := by
  refine additive_player.bind fun p => additive_ite (additive_pure false) ?_
  refine (Rule.additive_holds _ _).bind fun _ => additive_ite ?_ (additive_pure false)
  exact (e.additive_unlock item key level).bind fun _ => additive_pure true

theorem additive_tryLevels (item : Item) (key : String) (levels : List AchievementLevel) :
    (e.tryLevels item key levels).Additive := by
  induction levels with
  | nil => exact additive_pure []
  | cons level rest ih =>
    exact (e.additive_tryLevel item key level).bind fun _ => ih.bind fun _ => additive_pure _

theorem additive_tryItems (items : List (String × Item)) : (e.tryItems items).Additive := by
  induction items with
  | nil => exact additive_pure []
  | cons entry rest ih =>
    exact (e.additive_tryLevels entry.2 entry.1 _).bind fun _ => ih.bind fun _ => additive_pure _

/-- **A tick is additive.** -/
theorem additive_tick (now : UInt64) : (e.tick now).Additive := by
  refine e.additive_totalYield.bind fun yields => ?_
  refine e.additive_totalMultiplier.bind fun multipliers => ?_
  refine additive_player.bind fun p => ?_
  refine (additive_change _).bind fun _ => (additive_change _).bind fun _ => ?_
  refine (e.additive_expireShinies now).bind fun expired => ?_
  refine (e.additive_tryItems _).bind fun unlocked => ?_
  exact (additive_change _).bind fun _ => additive_pure _

end Economy

/-! ## Purchases -/

namespace Action

open Rule (additive_pure additive_player additive_change)

/-- Whether an action is additive; a refusal is something to come to. -/
def Additive {α : Type} (action : Action α) : Prop :=
  Rule.Additive (α := Except EconomyError α) action

section Closure

variable {α β : Type}

theorem additive_lift {rule : Rule α} (h : rule.Additive) : Additive (liftM rule : Action α) :=
  Rule.Additive.bind h fun a => additive_pure (Except.ok a)

/-- What cannot fail is followed by the rest. -/
theorem additive_lift_bind {rule : Rule α} {f : α → Action β} (h : rule.Additive)
    (hf : ∀ a, (f a).Additive) : Additive ((liftM rule : Action α) >>= f) :=
  Rule.Additive.bind h hf

/-- What fails is followed by nothing. -/
theorem additive_bind {action : Action α} {f : α → Action β} (h : action.Additive)
    (hf : ∀ a, (f a).Additive) : Additive (action >>= f) := by
  refine Rule.Additive.bind (f := ExceptT.bindCont f) h fun result => ?_
  cases result with
  | ok a => exact hf a
  | error refusal => exact additive_pure _

/-- A refusal is followed by nothing. -/
theorem additive_throw_bind (refusal : EconomyError) (f : α → Action β) :
    Additive ((throw refusal : Action α) >>= f) := additive_pure _

theorem additive_ok (a : α) : Additive (pure a : Action α) := additive_pure _

theorem additive_throw (refusal : EconomyError) : Additive (throw refusal : Action α) :=
  additive_pure _

end Closure

theorem additive_require (item : Item) : (require item).Additive := by
  refine additive_lift_bind additive_player fun p => ?_
  split
  · exact additive_ok ()
  · exact additive_throw _

theorem additive_pay (cost : KeyMap Float) : (pay cost).Additive := by
  refine additive_lift_bind additive_player fun p => ?_
  split
  · exact additive_lift (additive_change _)
  · exact additive_throw _

end Action

namespace Economy

open IncrementalGame.Action (additive_lift_bind additive_bind additive_ok additive_throw
  additive_throw_bind)
open Rule (additive_pure additive_ite additive_player additive_change)

variable (e : Economy)

theorem additive_buyUpgrade (item : Item) : (e.buyUpgrade item).Additive := by
  refine additive_lift_bind additive_player fun p => ?_
  split
  · exact additive_throw_bind _ _
  · refine additive_bind (Action.additive_require item) fun _ => ?_
    refine additive_bind (Action.additive_pay item.cost) fun _ => ?_
    refine additive_lift_bind (additive_change _) fun _ => ?_
    refine additive_lift_bind additive_player fun _ => ?_
    exact additive_lift_bind (Rule.additive_announce e _ _) fun _ => additive_ok _

theorem additive_buyBuilding (item : Item) : (e.buyBuilding item).Additive := by
  refine additive_bind (Action.additive_require item) fun _ => ?_
  refine additive_lift_bind additive_player fun _ => ?_
  refine additive_bind (Action.additive_pay _) fun _ => ?_
  refine additive_lift_bind additive_player fun _ => ?_
  refine additive_lift_bind (additive_change _) fun _ => ?_
  refine additive_lift_bind additive_player fun _ => ?_
  exact additive_lift_bind (Rule.additive_announce e _ _) fun _ => additive_ok _

/-- **A purchase is additive.** -/
theorem additive_buy (key : String) : (e.buy key).Additive := by
  unfold buy
  split
  · exact e.additive_buyUpgrade _
  · exact e.additive_buyBuilding _
  · exact additive_throw _

theorem additive_tryBuy (key : String) : (e.tryBuy key).Additive :=
  Rule.Additive.bind (e.additive_buy key) fun _ => additive_pure _

/-! ## Simulations -/

theorem additive_succeeding {attempt : String → Rule Bool} (h : ∀ key, (attempt key).Additive)
    (keys : List String) : (succeeding attempt keys).Additive := by
  induction keys with
  | nil => exact additive_pure []
  | cons key rest ih => exact (h key).bind fun _ => ih.bind fun _ => additive_pure _

theorem additive_buyAll : e.buyAll.Additive := by
  refine Rule.Additive.bind (additive_succeeding (fun key => ?_) _) fun _ => ?_
  · exact additive_player.bind fun p => additive_ite (additive_pure false) (e.additive_tryBuy key)
  · refine Rule.Additive.bind (additive_succeeding (fun key => ?_) _) fun _ => additive_pure _
    exact additive_ite (additive_pure false) (e.additive_tryBuy key)

theorem additive_simulateFrom (stride : UInt64) (steps index : Nat) (clock : UInt64) :
    (e.simulateFrom stride steps index clock).Additive := by
  induction steps generalizing index clock with
  | zero => exact additive_pure _
  | succ steps ih =>
    refine e.additive_buyAll.bind fun _ => (e.additive_tick _).bind fun _ => ?_
    exact (ih _ _).bind fun _ => additive_pure _

/-- **A simulation is additive.** -/
theorem additive_simulate (steps : Nat) (stride : UInt64) : (e.simulate steps stride).Additive :=
  additive_player.bind fun _ => e.additive_simulateFrom stride steps 0 _

end Economy

end IncrementalGame
