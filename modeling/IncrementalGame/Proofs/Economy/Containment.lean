import IncrementalGame.Proofs.Economy.Breaks

/-!
# Failures stay where they are

An effect whose condition does not hold is skipped, and one whose formula has no value fails.  In
both cases the player is left as he was (`Economy.contained_apply`), unless the effect is a spawn, of
which only some yields may have failed.  The effects after it go on as if it had not been there: the
block without all that was skipped or failed, and without the yields that failed in a spawn, brings
the player to the same end (`Economy.execute_contains`).

A formula that is broken off is no failure of its effect, and is not contained: the whole block is
broken off, with no report on any effect.

What is left out is a matter of each spawn, not of its shiny, as the same yield may fail in one
spawn and not in another.  So a block from which something is left out is a list of `Part`s, in
which a spawn stands with the yields that it is left with.  The blocks of economies, from which
nothing is left out, are such lists too (`Economy.executeParts_partOf`).

The two runs that are compared do not remember the same, since what was left out has asked nothing.
The comparison therefore rests on rules not feeling what is remembered (`Rule.Blind`): the two
worlds stay alike, part by part.  Where names contain separators it fails, as a formula may then be
answered by what is remembered of another one, which only an effect that is skipped has asked
(`Economy.exists_disturbed`).
-/

namespace IncrementalGame

open Formula (Faithful Separable)

/-! ## Attempts -/

/-- One effect of a block as it was carried out. -/
structure Attempt where
  effect : Effect
  /-- The world that it found. -/
  before : World
  outcome : Outcome
  /-- The world that it left. -/
  after : World

namespace Economy

/-- Effects carried out one after the other. -/
def attempts (e : Economy) (now : UInt64) (extra : Formula.Variables) :
    List Effect → World → List Attempt
  | [], _ => []
  | effect :: rest, w =>
    let done := e.apply now extra effect w
    ⟨effect, w, done.1, done.2⟩ :: attempts e now extra rest done.2

variable (e : Economy) (now : UInt64) (extra : Formula.Variables) (effects : List Effect)
  (w : World)

theorem map_effect_attempts : (e.attempts now extra effects w).map (·.effect) = effects := by
  induction effects generalizing w with
  | nil => rfl
  | cons effect rest ih => exact congrArg (effect :: ·) (ih _)

theorem map_outcome_attempts :
    (e.attempts now extra effects w).map (·.outcome) = (effects.mapM (e.apply now extra) w).1 := by
  induction effects generalizing w with
  | nil => rfl
  | cons effect rest ih =>
    rw [Rule.mapM_cons_apply, attempts, List.map_cons, ih]

/-- An attempt is what its effect does to the world that it found. -/
theorem apply_of_mem_attempts {attempt : Attempt} (h : attempt ∈ e.attempts now extra effects w) :
    e.apply now extra attempt.effect attempt.before = (attempt.outcome, attempt.after) := by
  induction effects generalizing w with
  | nil => exact absurd h List.not_mem_nil
  | cons effect rest ih =>
    rcases List.mem_cons.mp h with rfl | h
    · rfl
    · exact ih _ h

/-- Effects are broken off just if one of them is. -/
theorem broken_mapM_apply :
    (effects.mapM (e.apply now extra) w).2.broken = true ↔ w.broken = true ∨
      ∃ attempt ∈ e.attempts now extra effects w, attempt.after.broken = true := by
  induction effects generalizing w with
  | nil =>
    rw [List.mapM_nil]
    exact ⟨.inl, fun h => h.elim id fun ⟨_, hmem, _⟩ => absurd hmem List.not_mem_nil⟩
  | cons effect rest ih =>
    have hstuck : w.broken = true → (e.apply now extra effect w).2.broken = true :=
      fun h => ((e.keeps_apply now extra effect w).stuck h).1
    rw [Rule.mapM_cons_apply, attempts, List.exists_mem_cons_iff]
    refine (ih _).trans ⟨.inr, fun h => ?_⟩
    exact h.elim (fun hbroken => .inl (hstuck hbroken)) id

end Economy

/-! ## Effects that do not happen -/

/-- Whether a rule leaves the player and the events as they were wherever it does not come to be
applied. -/
def Rule.Contained (rule : Rule Outcome) : Prop :=
  ∀ w, (rule w).1 ≠ .applied → Still w (rule w).2

namespace Economy

theorem contained_withAmount (effect : Effect) (vars : Formula.Variables)
    (f : Float → Player → Player) : (withAmount effect vars f).Contained := by
  intro w hnot
  rw [withAmount_apply] at hnot ⊢
  cases hamount : (Rule.amount effect vars w).1 with
  | some x =>
    rw [hamount] at hnot
    exact absurd rfl hnot
  | none => exact Rule.keeps_amount effect vars w

theorem contained_onCondition (effect : Effect) (extra : Formula.Variables)
    {act : Formula.Variables → Rule Outcome} (h : ∀ vars, (act vars).Contained) :
    (onCondition effect extra act).Contained := by
  intro w hnot
  have htried := Rule.keeps_holdsIfAny effect.condition (w.player.formulaVariables.overlay extra) w
  rw [onCondition_apply] at hnot ⊢
  split at hnot
  next hheld =>
    rw [if_pos hheld]
    exact IsTrans.trans _ _ _ htried (h _ _ hnot)
  next hunheld =>
    rw [if_neg hunheld]
    exact htried

theorem contained_credit (effect : Effect) (extra : Formula.Variables) :
    (credit effect extra).Contained :=
  contained_onCondition effect extra fun vars => contained_withAmount effect vars _

/-- **An effect that is skipped or fails leaves the player as he was**, unless it is a spawn. -/
theorem contained_apply (e : Economy) (now : UInt64) (extra : Formula.Variables) {effect : Effect}
    (hkind : effect.kind ≠ .spawns) : (e.apply now extra effect).Contained := by
  refine contained_onCondition effect extra fun vars => ?_
  cases hkind' : effect.kind with
  | yields | multiplies => exact contained_withAmount effect vars _
  | spawns => exact absurd hkind' hkind
  | grants | resets => exact fun _ hnot => absurd rfl hnot

end Economy

/-! ## Reports -/

/-- Each effect is counted once. -/
theorem BlockReport.sum_ofOutcomes (outcomes : List Outcome) :
    let report := ofOutcomes outcomes
    report.applied + report.skipped + report.failed = outcomes.length := by
  induction outcomes with
  | nil => rfl
  | cons outcome rest ih =>
    simp only [ofOutcomes] at ih ⊢
    cases outcome <;> simp <;> omega

namespace Economy

/-- Tries a gate, and does something behind it. -/
def behindGate (gate : Option Gate) (extra : Formula.Variables) (rule : Rule (List Outcome)) :
    Rule BlockReport := do
  let vars ← Rule.formulaVariables extra
  if ← Rule.passes gate vars then
    let outcomes ← rule
    return .ofOutcomes outcomes
  else return .shut

theorem behindGate_apply (gate : Option Gate) (extra : Formula.Variables)
    (rule : Rule (List Outcome)) (w : World) :
    let tried := Rule.passes gate (w.player.formulaVariables.overlay extra) w
    behindGate gate extra rule w =
      if tried.1 then (.ofOutcomes (rule tried.2).1, (rule tried.2).2) else (.shut, tried.2) := by
  intro tried
  show (if tried.1 then rule >>= fun outcomes => pure (.ofOutcomes outcomes) else
    pure .shut : Rule BlockReport) tried.2 = _
  split <;> rfl

theorem execute_eq_behindGate (e : Economy) (now : UInt64) (extra : Formula.Variables)
    (block : EffectBlock) :
    e.execute now extra block =
      behindGate block.gate extra (block.effects.mapM (e.apply now extra)) := rfl

end Economy

/-! ## First amounts -/

namespace Catalog

/-- The first amounts of resources. -/
def firstAmounts (c : Catalog) : KeyMap Float := c.resources.map fun _ item => item.initial

theorem get?_firstAmounts (c : Catalog) (resource : String) :
    c.firstAmounts.get? resource = (c.resources.get? resource).map (·.initial) :=
  KeyMap.get?_map _ _ _

theorem initialAmount_eq (c : Catalog) (resource : String) :
    c.initialAmount resource = ((c.resources.get? resource).map (·.initial)).getD 0.0 := by
  rw [initialAmount]
  cases c.resources.get? resource <;> rfl

end Catalog

/-! ## Blocks from which something is left out -/

/-- An effect of a block from which something may have been left out. -/
inductive Part where
  /-- An effect that is no spawn. -/
  | single (effect : Effect)
  /-- A spawn, with the yields that it is left with. -/
  | spawn (effect : Effect) (yields : List Effect)
  deriving DecidableEq

namespace Economy

variable (e : Economy) (now : UInt64) (extra : Formula.Variables)

/-- Carries out a part of a block. -/
def perform : Part → Rule Outcome
  | .single effect => e.apply now extra effect
  | .spawn effect yields => onCondition effect extra fun _ => creditAll yields extra

/-- Tries a gate, and carries out the parts behind it in order. -/
def executeParts (gate : Option Gate) (parts : List Part) : Rule BlockReport :=
  behindGate gate extra (parts.mapM (e.perform now extra))

/-- An effect from which nothing is left out. -/
def partOf (effect : Effect) : Part :=
  if effect.kind = .spawns then .spawn effect (e.yieldsOf effect.target) else .single effect

section

variable {e} {other : Economy}

/-- A reset looks at nothing of a catalog but the first amounts of resources. -/
theorem reset_congr (h : other.catalog.firstAmounts = e.catalog.firstAmounts) (target : String) :
    e.reset target = other.reset target := by
  have hget (key : String) : (e.catalog.resources.get? key).map (·.initial) =
      (other.catalog.resources.get? key).map (·.initial) := by
    rw [← Catalog.get?_firstAmounts, ← Catalog.get?_firstAmounts, h]
  have hcontains (key : String) :
      e.catalog.resources.contains key = other.catalog.resources.contains key := by
    rw [KeyMap.contains, ← Option.isSome_map (f := (·.initial)), hget, Option.isSome_map]
    rfl
  have hinitial : e.catalog.initialAmount = other.catalog.initialAmount := by
    funext key
    rw [Catalog.initialAmount_eq, Catalog.initialAmount_eq, hget]
  funext p
  simp only [reset, Player.resetResources, hinitial, hcontains, KeyMap.keys_eq_of_isSome hcontains]

/-- Of a catalog nothing but the yields of shinies and the first amounts of resources matters to an
effect. -/
theorem perform_partOf (h : other.catalog.firstAmounts = e.catalog.firstAmounts) (effect : Effect) :
    e.perform now extra (other.partOf effect) = other.apply now extra effect := by
  rw [partOf]
  split
  next hkind => exact (other.apply_of_spawns now extra hkind).symm
  next hkind =>
    rw [perform, apply, apply]
    cases hkind' : effect.kind with
    | yields | multiplies | grants => rfl
    | spawns => exact absurd hkind' hkind
    | resets => simp only [reset_congr h]

/-- A block of some economy is a block from which nothing is left out. -/
theorem executeParts_partOf (h : other.catalog.firstAmounts = e.catalog.firstAmounts)
    (gate : Option Gate) (effects : List Effect) :
    e.executeParts now extra gate (effects.map other.partOf) =
      other.execute now extra ⟨gate, effects⟩ := by
  rw [executeParts, execute_eq_behindGate, List.mapM_map]
  simp only [Function.comp_def, perform_partOf now extra h]

end

end Economy

/-- The yields that do not fail when all of them are tried one after the other. -/
def unfailing (extra : Formula.Variables) : List Effect → World → List Effect
  | [], _ => []
  | effect :: rest, w =>
    let tried := Economy.credit effect extra w
    if tried.1 = .failed then unfailing extra rest tried.2
    else effect :: unfailing extra rest tried.2

/-- What is left of an attempt: nothing of an effect that was skipped or failed, and of a spawn the
yields that did not fail. -/
def Attempt.left (e : Economy) (extra : Formula.Variables) (attempt : Attempt) : List Part :=
  if attempt.effect.kind = .spawns then
    let yields := e.yieldsOf attempt.effect.target
    let tried := Rule.holdsIfAny attempt.effect.condition
      (attempt.before.player.formulaVariables.overlay extra) attempt.before
    [.spawn attempt.effect (if tried.1 then unfailing extra yields tried.2 else yields)]
  else if attempt.outcome = .applied then [.single attempt.effect] else []

/-! ## Two runs, one of which leaves out -/

/-- What changes neither the player nor the events, and is not broken off, may be left out. -/
theorem Alike.leave_out {α : Type} {v w : World} (h : Alike v w) {rule : Rule α}
    (hblind : rule.Blind) (hstill : Still v (rule v).2) (hunbroken : rule.Keeps Unbroken) :
    Alike (rule v).2 w where
  player := h.player.trans hstill.player.symm
  raised := h.raised.trans hstill.raised.symm
  broken := h.broken.trans (hstill.stuck.broken_eq (hunbroken v)).symm
  plain := hstill.player ▸ h.plain
  faithful := (hblind v w h).2.2.faithful
  faithful' := h.faithful'

section

variable {extra : Formula.Variables}

namespace Economy

variable {e : Economy} (now : UInt64) {v w : World}

/-- Yields bring the same player without those that fail, and without these none fails. -/
theorem alike_unfailing {yields : List Effect} (hyields : ∀ effect ∈ yields, effect.Tame)
    (hextra : Separable extra) (h : Alike v w) :
    let done := (unfailing extra yields v).mapM (fun effect => credit effect extra) w
    Alike (yields.mapM (fun effect => credit effect extra) v).2 done.2 ∧ .failed ∉ done.1 := by
  induction yields generalizing v w with
  | nil => exact ⟨h, List.not_mem_nil⟩
  | cons effect rest ih =>
    have hrest := fun effect heffect => hyields effect (List.mem_cons_of_mem _ heffect)
    have heffect := hyields effect List.mem_cons_self
    have hblind := blind_credit heffect hextra
    have hunbroken : (credit effect extra).Keeps Unbroken :=
      unbroken_credit fun formula hformula => (heffect.certain formula hformula).safe
    obtain ⟨hsame, -, halike⟩ := hblind v w h
    rw [unfailing, Rule.mapM_cons_apply]
    split
    next hfailed =>
      have hnot : (credit effect extra v).1 ≠ .applied := by
        rw [hfailed]
        exact Outcome.noConfusion
      exact ih hrest (h.leave_out hblind (contained_credit effect extra v hnot) hunbroken)
    next hkept =>
      obtain ⟨hdone, hnone⟩ := ih hrest halike
      rw [Rule.mapM_cons_apply]
      refine ⟨hdone, fun hfailed => ?_⟩
      rcases List.mem_cons.mp hfailed with hfailed | hfailed
      · exact hkept (hsame.symm.trans hfailed.symm)
      · exact hnone hfailed

/-- A spawn does what it has done with the yields that it is left with, and does not fail. -/
theorem alike_spawn {effect : Effect} (heffect : e.Gentle effect) (hkind : effect.kind = .spawns)
    (hextra : Separable extra) (h : Alike v w) :
    let yields := e.yieldsOf effect.target
    let tried :=
      Rule.holdsIfAny effect.condition (v.player.formulaVariables.overlay extra) v
    let left := if tried.1 then unfailing extra yields tried.2 else yields
    let done := e.perform now extra (.spawn effect left) w
    Alike (e.apply now extra effect v).2 done.2 ∧ done.1 ≠ .failed := by
  intro yields tried left
  have hvars := KeyMap.Plain.overlay h.plain.separable hextra
  obtain ⟨hsame, -, halike⟩ := Rule.blind_holdsIfAny (fun _ => heffect.condition) hvars v w h
  rw [e.apply_of_spawns now extra hkind, perform, onCondition_apply, onCondition_apply, h.player,
    hsame]
  cases hheld : tried.1 with
  | true =>
    obtain ⟨hdone, hnone⟩ := alike_unfailing (heffect.yields hkind) hextra halike
    simp only [left, hheld, if_true, creditAll_apply, List.contains_iff_mem]
    rw [if_neg hnone]
    exact ⟨hdone, Outcome.noConfusion⟩
  | false =>
    simp only [Bool.false_eq_true, if_false]
    exact ⟨halike, Outcome.noConfusion⟩

/-- **What is left of an attempt does what the attempt has done**, and does not fail. -/
theorem alike_left {effect : Effect} (heffect : e.Gentle effect) (hextra : Separable extra)
    (h : Alike v w) :
    let tried := e.apply now extra effect v
    let done := (Attempt.left e extra ⟨effect, v, tried.1, tried.2⟩).mapM (e.perform now extra) w
    Alike tried.2 done.2 ∧ .failed ∉ done.1 := by
  intro tried
  rw [Attempt.left]
  split
  next hkind =>
    obtain ⟨hdone, hnot⟩ := alike_spawn now heffect hkind hextra h
    rw [Rule.mapM_singleton_apply]
    exact ⟨hdone, fun hfailed => hnot (List.mem_singleton.mp hfailed).symm⟩
  next hkind =>
    have hblind := blind_apply heffect now hextra
    obtain ⟨hsame, -, halike⟩ := hblind v w h
    split
    next happlied =>
      rw [Rule.mapM_singleton_apply]
      refine ⟨halike, fun hfailed => ?_⟩
      have hnot : Outcome.applied = .failed :=
        (happlied.symm.trans hsame.symm).trans (List.mem_singleton.mp hfailed).symm
      exact Outcome.noConfusion hnot
    next hnot =>
      have hunbroken : (e.apply now extra effect).Keeps Unbroken := unbroken_apply now heffect.safe
      exact ⟨h.leave_out hblind (contained_apply e now extra hkind v hnot) hunbroken,
        List.not_mem_nil⟩

/-- **What is left of a block does what the block has done**, and nothing of it fails. -/
theorem alike_left_attempts {effects : List Effect} (heffects : ∀ effect ∈ effects, e.Gentle effect)
    (hextra : Separable extra) (h : Alike v w) :
    let parts := (e.attempts now extra effects v).flatMap (Attempt.left e extra)
    let done := parts.mapM (e.perform now extra) w
    Alike (effects.mapM (e.apply now extra) v).2 done.2 ∧ .failed ∉ done.1 := by
  induction effects generalizing v w with
  | nil => exact ⟨h, List.not_mem_nil⟩
  | cons effect rest ih =>
    obtain ⟨hfirst, hnone⟩ :=
      alike_left now (heffects effect List.mem_cons_self) hextra h
    have hrest := ih (fun effect heffect => heffects effect (List.mem_cons_of_mem _ heffect)) hfirst
    simp only [attempts, List.flatMap_cons, List.mapM_append, Rule.mapM_cons_apply]
    refine ⟨hrest.1, fun hfailed => ?_⟩
    exact (List.mem_append.mp hfailed).elim hnone hrest.2

/-! ## Blocks -/

/-- A question leaves nothing wrong behind, where its answer does not. -/
theorem faithful_consult {α : Type}
    (question : StateM Formula.Evaluator (Except Formula.EvalError α))
    (hmemo : ∀ ev : Formula.Evaluator, Faithful ev.memo → Faithful (question ev).2.memo)
    (h : Faithful w.evaluator.memo) : Faithful (Rule.consult question w).2.evaluator.memo := by
  cases hbroken : w.broken with
  | true =>
    rw [Rule.consult_of_broken question hbroken]
    exact h
  | false =>
    rw [Rule.consult_of_unbroken question hbroken]
    exact hmemo _ h

/-- A gate leaves nothing wrong behind that is remembered. -/
theorem faithful_passes (gate : Option Gate) {vars : Formula.Variables} (hvars : Separable vars)
    (h : Faithful w.evaluator.memo) : Faithful (Rule.passes gate vars w).2.evaluator.memo := by
  cases gate with
  | none => exact h
  | some gate =>
    cases gate with
    | chance percent =>
      exact faithful_consult (.ok <$> Formula.Evaluator.rollPercent percent) (fun _ hev => hev) h
    | condition formula =>
      exact faithful_consult (Formula.Evaluator.holds formula vars)
        (fun ev hev => ev.faithful_holds hev formula hvars) h

/-- A block whose gate is open is a row of attempts. -/
theorem execute_apply (e : Economy) (now : UInt64) (extra : Formula.Variables) (block : EffectBlock)
    (w : World) :
    let tried := Rule.passes block.gate (w.player.formulaVariables.overlay extra) w
    e.execute now extra block w = if tried.1 then
      (.ofOutcomes ((e.attempts now extra block.effects tried.2).map (·.outcome)),
        (block.effects.mapM (e.apply now extra) tried.2).2)
    else (.shut, tried.2) := by
  intro tried
  rw [e.map_outcome_attempts now extra block.effects tried.2]
  exact (congrFun (e.execute_eq_behindGate now extra block) w).trans (behindGate_apply _ _ _ w)

/-- A block is broken off just if its gate is or one of its effects. -/
theorem broken_execute (e : Economy) (now : UInt64) (extra : Formula.Variables)
    (block : EffectBlock) (w : World) :
    let tried := Rule.passes block.gate (w.player.formulaVariables.overlay extra) w
    (e.execute now extra block w).2.broken = true ↔ tried.2.broken = true ∨
      tried.1 = true ∧ ∃ attempt ∈ e.attempts now extra block.effects tried.2,
        attempt.after.broken = true := by
  intro tried
  rw [execute_apply]
  split
  next hopen =>
    rw [and_iff_right hopen]
    exact e.broken_mapM_apply now extra block.effects tried.2
  next hshut => exact ⟨.inl, fun h => h.elim id fun hattempt => absurd hattempt.1 hshut⟩

/-- A report counts every attempt. -/
theorem BlockReport.sum_ofOutcomes_attempts (e : Economy) (now : UInt64) (extra : Formula.Variables)
    (effects : List Effect) (w : World) :
    let report := BlockReport.ofOutcomes ((e.attempts now extra effects w).map (·.outcome))
    report.applied + report.skipped + report.failed = effects.length := by
  intro report
  rw [BlockReport.sum_ofOutcomes, List.length_map, ← List.length_map (·.effect),
    e.map_effect_attempts now extra effects w]

section

variable {e : Economy} (now : UInt64) {extra : Formula.Variables} {block : EffectBlock} {w : World}

/-- Only its gate breaks off a block in which no effect hangs on chance. -/
theorem broken_execute_of_gentle (hgentle : ∀ effect ∈ block.effects, e.Gentle effect) :
    (e.execute now extra block w).2.broken =
      (Rule.passes block.gate (w.player.formulaVariables.overlay extra) w).2.broken := by
  have heffects : (block.effects.mapM (e.apply now extra)).Keeps Unbroken :=
    Rule.keeps_mapM fun effect heffect => unbroken_apply now (hgentle effect heffect).safe
  rw [execute_apply]
  split
  · exact (e.keeps_mapM_apply now extra _ _).stuck.broken_eq (heffects _)
  · rfl

/-- **What is left of a block behind its gate** comes to the same player as the block, is broken off
just if the block is, and nothing of it fails. -/
theorem executeParts_left (hplain : w.player.Plain) (hextra : Separable extra)
    (hfaithful : Faithful w.evaluator.memo) (hgentle : ∀ effect ∈ block.effects, e.Gentle effect) :
    let tried := Rule.passes block.gate (w.player.formulaVariables.overlay extra) w
    let parts := (e.attempts now extra block.effects tried.2).flatMap (Attempt.left e extra)
    let left := e.executeParts now extra block.gate parts w
    left.2.player = (e.execute now extra block w).2.player ∧
      left.2.broken = (e.execute now extra block w).2.broken ∧ left.1.failed = 0 := by
  intro tried parts left
  have htried : Still w tried.2 := Rule.keeps_passes _ _ w
  have hvars := KeyMap.Plain.overlay hplain.separable hextra
  have hmemo := faithful_passes block.gate hvars hfaithful
  have halike : Alike tried.2 tried.2 :=
    ⟨rfl, rfl, rfl, htried.player ▸ hplain, hmemo, hmemo⟩
  obtain ⟨hattempts, hnone⟩ := alike_left_attempts now hgentle hextra halike
  have hleft : left = if tried.1 then _ else _ := behindGate_apply _ _ _ w
  rw [hleft, execute_apply]
  split
  · exact ⟨hattempts.player, hattempts.broken, List.count_eq_zero.mpr hnone⟩
  · exact ⟨rfl, rfl, rfl⟩

end

/-- **Failures are contained.**  A block is broken off just if its gate is or one of its effects,
which no effect is that asks for no real draw.  Else, if its gate is shut, it leaves the player as he
was, and if not, it is a row of attempts, one at each effect, all of which the report counts.  An
attempt that is skipped or fails leaves the player as it found him, unless it is at a spawn.

If no formula that the effects may ask hangs on chance, no name can be mistaken for more than a name,
and nothing wrong is remembered at first, then only the gate can break off the block, and the block
without what was skipped or failed, and without the yields that failed in a spawn, brings the player
to the same end, and nothing of it fails.  An economy in which the shinies have just the other yields
carries out this block. -/
theorem execute_contains (e : Economy) (now : UInt64) (extra : Formula.Variables)
    (block : EffectBlock) (w : World) :
    let tried := Rule.passes block.gate (w.player.formulaVariables.overlay extra) w
    let attempts := e.attempts now extra block.effects tried.2
    let run := e.execute now extra block
    (run.result? w = none ↔ tried.2.broken = true ∨
        tried.1 = true ∧ ∃ attempt ∈ attempts, attempt.after.broken = true) ∧
      (w.broken = false → (∀ formula ∈ e.askedBy block, Formula.Safe formula) →
        ∃ report v, run.result? w = some (report, v)) ∧
      (∀ report v, run.result? w = some (report, v) →
        (tried.1 = false → report = .shut ∧ v.player = w.player) ∧
          (tried.1 = true → report = .ofOutcomes (attempts.map (·.outcome)) ∧
            attempts.map (·.effect) = block.effects ∧ report.gated = false ∧
            report.applied + report.skipped + report.failed = block.effects.length)) ∧
      (∀ attempt ∈ attempts, attempt.effect.kind ≠ .spawns → attempt.outcome ≠ .applied →
        attempt.after.player = attempt.before.player) ∧
      (w.player.Plain → Separable extra → Faithful w.evaluator.memo →
        (∀ effect ∈ block.effects, e.Gentle effect) →
        let parts := attempts.flatMap (Attempt.left e extra)
        let left := e.executeParts now extra block.gate parts
        (run.result? w = none ↔ tried.2.broken = true) ∧
          (left.result? w).map (·.2.player) = (run.result? w).map (·.2.player) ∧
          (∀ report v, left.result? w = some (report, v) → report.failed = 0) ∧
          ∀ (other : Economy) (effects : List Effect),
            other.catalog.firstAmounts = e.catalog.firstAmounts → effects.map other.partOf = parts →
            other.execute now extra ⟨block.gate, effects⟩ w = left w) := by
  intro tried attempts run
  have htried : Still w tried.2 := Rule.keeps_passes _ _ w
  refine ⟨Rule.result?_eq_none_iff.trans (broken_execute e now extra block w),
    fun hbroken hsafe => ?_, fun report v hresult => ?_,
    fun attempt hattempt hkind hnot => ?_, fun hplain hextra hfaithful hgentle => ?_⟩
  · exact ⟨_, _, Rule.result?_of_unbroken (unbroken_execute now hsafe w hbroken)⟩
  · obtain ⟨-, hrun⟩ := Rule.result?_eq_some_iff.mp hresult
    have hdone := (execute_apply e now extra block w).symm.trans hrun
    refine ⟨fun hshut => ?_, fun hopen => ?_⟩
    · rw [if_neg (by rw [hshut]; exact Bool.false_ne_true)] at hdone
      obtain ⟨rfl, rfl⟩ := Prod.mk.inj hdone
      exact ⟨rfl, htried.player⟩
    · rw [if_pos hopen] at hdone
      obtain ⟨rfl, rfl⟩ := Prod.mk.inj hdone
      exact ⟨rfl, e.map_effect_attempts now extra block.effects tried.2, rfl,
        BlockReport.sum_ofOutcomes_attempts e now extra block.effects tried.2⟩
  · have happly := e.apply_of_mem_attempts now extra block.effects tried.2 hattempt
    have hstill := contained_apply e now extra hkind attempt.before
    rw [happly] at hstill
    exact (hstill hnot).player
  · intro parts left
    have hbroken : (run w).2.broken = tried.2.broken := broken_execute_of_gentle now hgentle
    obtain ⟨hplayer, hsame, hnone⟩ := executeParts_left now hplain hextra hfaithful hgentle
    refine ⟨by rw [Rule.result?_eq_none_iff, hbroken], ?_, fun report v hresult => ?_,
      fun other effects hresources hparts => ?_⟩
    · rw [Rule.result?_apply, Rule.result?_apply, hsame]
      split
      · rfl
      · exact congrArg some hplayer
    · obtain ⟨-, hdone⟩ := Rule.result?_eq_some_iff.mp hresult
      exact (congrArg (·.1.failed) hdone).symm.trans hnone
    · rw [← executeParts_partOf now extra hresources, hparts]

/-! ### A shower of stars -/

/-- A document of a star that yields ten gold, behind some other yields. -/
def showerDocument (others : List Json) : Json := .obj [
  ("resources", .obj [("gold", .obj [])]),
  ("shinies", .obj [("star", .obj [("effects", .arr (others ++ [yieldDocument "gold" 10]))])])]

/-- The economy of the shower, in which one yield of a star has no value at first. -/
def showerEconomy : Economy := .ofDocument (showerDocument [.str "yield:gold:1 / gold"])

/-- The shower without this yield. -/
def clearEconomy : Economy := .ofDocument (showerDocument [])

/-- One who has nothing yet. -/
def watcher : World where
  player := Player.start "ann" showerEconomy.catalog 0
  raised := []
  evaluator := showerEconomy.evaluator 0
  broken := false

/-- A yield that has no value once a star has come. -/
def faintYield : Effect := ⟨.yields, "gold", 0.0, some "1 / (gold - 10)", none⟩

/-- A yield that does not happen. -/
def unheldYield : Effect := ⟨.yields, "gold", 7.0, none, some "gold > 100"⟩

/-- A factor that has a value always. -/
def brightening : Effect := ⟨.multiplies, "gold", 3.0, none, none⟩

/-- A gate of chance that is always passed, and behind it one effect for each way to go on. -/
def shower : EffectBlock :=
  ⟨some (.chance 100.0), [spawnOf "star", faintYield, unheldYield, brightening]⟩

/-- In the shower the spawn and one yield fail, and another yield is skipped.  What is left of it is
a shower in the clear. -/
theorem execute_contains_of_watcher :
    let tried := Rule.passes shower.gate (watcher.player.formulaVariables.overlay .empty) watcher
    let attempts := showerEconomy.attempts 1 .empty shower.effects tried.2
    let clear := clearEconomy.execute 1 .empty ⟨shower.gate, [spawnOf "star", brightening]⟩
    tried.1 = true ∧ attempts.map (·.outcome) = [.failed, .failed, .skipped, .applied] ∧
      (∃ attempt ∈ attempts, attempt.effect = faintYield ∧ attempt.outcome = .failed ∧
        attempt.after.player = attempt.before.player) ∧
      ∃ v, (showerEconomy.execute 1 .empty shower).result? watcher = some (⟨false, 1, 1, 2⟩, v) ∧
        (clear.result? watcher).map (·.2.player) = some v.player := by
  intro tried attempts clear
  obtain ⟨-, hgiven, hreported, hkept, hleft⟩ :=
    execute_contains showerEconomy 1 .empty shower watcher
  obtain ⟨report, v, hresult⟩ := hgiven rfl (by decide +kernel)
  obtain ⟨-, hplayer, -, hother⟩ := hleft (Player.plain_start "ann" (by decide +kernel) 0)
    (by decide +kernel) Formula.faithful_empty (by decide +kernel)
  have hclear := hother clearEconomy [spawnOf "star", brightening] (by decide +kernel)
    (by decide +kernel)
  have htried : tried.1 = true := by decide +kernel
  have houtcomes : attempts.map (·.outcome) = [.failed, .failed, .skipped, .applied] := by
    decide +kernel
  obtain ⟨hreport, heffects, -, -⟩ := (hreported report v hresult).2 htried
  have hcounted : report = ⟨false, 1, 1, 2⟩ :=
    hreport.trans (congrArg BlockReport.ofOutcomes houtcomes)
  change attempts.map (·.effect) = shower.effects at heffects
  change ∀ attempt ∈ attempts, _ at hkept
  refine ⟨htried, houtcomes, ?_, v, hcounted ▸ hresult, ?_⟩
  · -- the second attempt is at the yield that fails
    clear_value attempts
    have hfaint : attempts[1]?.map (·.effect) = some faintYield := by
      rw [← List.getElem?_map, heffects]
      rfl
    have houtcome : attempts[1]?.map (·.outcome) = some .failed := by
      rw [← List.getElem?_map, houtcomes]
      rfl
    obtain ⟨attempt, hget, heffect⟩ := Option.map_eq_some_iff.mp hfaint
    rw [hget] at houtcome
    have hfailed : attempt.outcome = .failed := Option.some.inj houtcome
    have hattempt := List.mem_of_getElem? hget
    exact ⟨attempt, hattempt, heffect, hfailed,
      hkept attempt hattempt (by rw [heffect]; decide) (by rw [hfailed]; decide)⟩
  · rw [hresult, ← Rule.result?_congr hclear] at hplayer
    exact hplayer

/-- Extra variables around a resource whose name goes on like a formula.  Once there is some of it,
two formulas have one key. -/
def misleadingExtra : Formula.Variables :=
  .ofList [("a", 1.0), ("b')|a:earned", 0.0), ("b')|a:max", 0.0), ("b')|a:ps", 0.0)]

/-- **A skipped effect may disturb the ones after it** where names contain separators.  The formula
of the factor cannot be read, so that the factor fails; but behind the yield that is skipped, it is
answered by what is remembered of the condition of this yield. -/
theorem exists_disturbed :
    let skipped : Effect := ⟨.yields, "gold", 5.0, none, some "have('|a=1;b')"⟩
    let named : Effect := ⟨.yields, "b')|a", 1.0, none, none⟩
    let unreadable : Effect := ⟨.multiplies, "gold", 0.0, some "have('", none⟩
    let whole : EffectBlock := ⟨none, [skipped, named, unreadable]⟩
    let done := showerEconomy.execute 1 misleadingExtra whole watcher
    let left := showerEconomy.execute 1 misleadingExtra ⟨none, [named, unreadable]⟩ watcher
    watcher.evaluator.memo.entries.isEmpty ∧
      (∀ effect ∈ whole.effects, ∀ formula ∈ showerEconomy.asked effect,
        Formula.Certain formula) ∧
      (showerEconomy.attempts 1 misleadingExtra whole.effects watcher).map (·.outcome) =
        [.skipped, .applied, .applied] ∧
      left.1 = ⟨false, 1, 0, 1⟩ ∧ left.2.player ≠ done.2.player := by
  decide +kernel

end Economy

end

end IncrementalGame
