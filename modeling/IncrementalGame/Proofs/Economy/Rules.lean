import Mathlib.Order.Defs.Unbundled
import IncrementalGame.Proofs.Economy.Quiet

/-!
# What a rule makes of the world

A rule keeps a relation if it relates every world to the one the rule leads to (`Rule.Keeps`).  For
a reflexive and transitive relation this passes through sequences, choices and loops, so a rule is
judged by its parts: lists of effects, the sums of a tick and passes over the achievements by the
gates, conditions and amounts they ask for and by the changes they make (`keeps_execute_of`,
`keeps_totalYield_of`, `keeps_totalMultiplier_of`, `keeps_unlockAchievements_of`).

Two relations serve for the parts that raise no event.

* `Still` --- neither the player nor the events have changed.  Formulas, conditions and gates are
  still, and so are the sums of a tick (`keeps_totalYield`, `keeps_totalMultiplier`).
* `Hushed` --- the player has changed quietly, and the events not at all.  Effects, in whatever
  block, are hushed (`keeps_execute`).

Either also says that a break is final (`Stuck`): what was broken off stays so, and asks the evaluator
for nothing any more.
-/

namespace IncrementalGame

namespace Rule

/-- Whether a rule relates every world to the one it leads to. -/
def Keeps (R : World → World → Prop) {α : Type} (rule : Rule α) : Prop := ∀ w, R w (rule w).2

section Closure

variable {R S : World → World → Prop} {α β : Type}

theorem Keeps.mono {rule : Rule α} (h : rule.Keeps R) (hRS : ∀ {v w}, R v w → S v w) :
    rule.Keeps S := fun w => hRS (h w)

/-- A sequence is followed step by step. -/
theorem bind_apply (rule : Rule α) (f : α → Rule β) (w : World) :
    (rule >>= f) w = f (rule w).1 (rule w).2 := rfl

/-- A list of things is done one after the other. -/
theorem mapM_cons_apply (f : α → Rule β) (a : α) (l : List α) (w : World) :
    (a :: l).mapM f w = ((f a w).1 :: (l.mapM f (f a w).2).1, (l.mapM f (f a w).2).2) := by
  rw [List.mapM_cons]
  rfl

theorem mapM_singleton_apply (f : α → Rule β) (a : α) (w : World) :
    [a].mapM f w = ([(f a w).1], (f a w).2) := by
  rw [mapM_cons_apply, List.mapM_nil]
  rfl

theorem Keeps.bind [IsTrans World R] {rule : Rule α} {f : α → Rule β} (h : rule.Keeps R)
    (hf : ∀ a, (f a).Keeps R) : Keeps R (rule >>= f) :=
  fun w => IsTrans.trans w (rule w).2 _ (h w) (hf (rule w).1 (rule w).2)

theorem keeps_ite {p : Prop} [Decidable p] {rule other : Rule α} (h : rule.Keeps R)
    (hother : other.Keeps R) : Keeps R (if p then rule else other) := by
  split
  · exact h
  · exact hother

variable [Std.Refl R]

theorem keeps_pure (a : α) : Keeps R (pure a : Rule α) := fun w => Std.Refl.refl w

/-- Asking for the player changes nothing. -/
theorem keeps_player : Keeps R player := fun w => Std.Refl.refl w

variable [IsTrans World R]

theorem keeps_mapM {f : α → Rule β} {l : List α} (h : ∀ a ∈ l, (f a).Keeps R) :
    Keeps R (l.mapM f) := by
  induction l with
  | nil =>
    rw [List.mapM_nil]
    exact keeps_pure []
  | cons a l ih =>
    obtain ⟨ha, hl⟩ := List.forall_mem_cons.mp h
    rw [List.mapM_cons]
    exact ha.bind fun b => (ih hl).bind fun bs => keeps_pure _

theorem keeps_foldlM {f : β → α → Rule β} {l : List α} (h : ∀ a ∈ l, ∀ b, (f b a).Keeps R)
    (b : β) : Keeps R (l.foldlM f b) := by
  induction l generalizing b with
  | nil =>
    rw [List.foldlM_nil]
    exact keeps_pure b
  | cons a l ih =>
    obtain ⟨ha, hl⟩ := List.forall_mem_cons.mp h
    rw [List.foldlM_cons]
    exact (ha b).bind fun b => ih hl b

/-- Making names of the player changes nothing. -/
theorem keeps_formulaVariables (extra : Formula.Variables) : Keeps R (formulaVariables extra) :=
  keeps_player.bind fun _ => keeps_pure _

end Closure

end Rule

/-! ## Rules by their questions -/

namespace Economy

open Rule (keeps_pure keeps_player keeps_ite keeps_mapM keeps_foldlM)

section Questions

variable {R : World → World → Prop} [Std.Refl R] [IsTrans World R]
variable {e : Economy} {effect : Effect} {effects : List Effect} {vars extra : Formula.Variables}

theorem keeps_withAmount (hamount : (Rule.amount effect vars).Keeps R)
    {f : Float → Player → Player} (hchange : ∀ x, (Rule.change (f x)).Keeps R) :
    (withAmount effect vars f).Keeps R := by
  refine hamount.bind fun amount => ?_
  cases amount with
  | some x => exact (hchange x).bind fun _ => keeps_pure _
  | none => exact keeps_pure _

theorem keeps_onCondition (hcondition : ∀ vars, (Rule.holdsIfAny effect.condition vars).Keeps R)
    {act : Formula.Variables → Rule Outcome} (hact : ∀ vars, (act vars).Keeps R) :
    (onCondition effect extra act).Keeps R :=
  (Rule.keeps_formulaVariables extra).bind fun vars =>
    (hcondition vars).bind fun _ => keeps_ite (hact vars) (keeps_pure _)

theorem keeps_execute_of {now : UInt64} {block : EffectBlock}
    (hgate : ∀ vars, (Rule.passes block.gate vars).Keeps R)
    (heffects : ∀ effect ∈ block.effects, (e.apply now extra effect).Keeps R) :
    (e.execute now extra block).Keeps R :=
  (Rule.keeps_formulaVariables extra).bind fun vars => (hgate vars).bind fun _ =>
    keeps_ite ((keeps_mapM heffects).bind fun _ => keeps_pure _) (keeps_pure _)

theorem keeps_addYields
    (h : ∀ effect ∈ effects, (Rule.holdsIfAny effect.condition vars).Keeps R ∧
      (Rule.amount effect vars).Keeps R) (totals : Totals) :
    (addYields vars effects totals).Keeps R := by
  induction effects generalizing totals with
  | nil => exact keeps_pure totals
  | cons effect rest ih =>
    obtain ⟨⟨hcondition, hamount⟩, hrest⟩ := List.forall_mem_cons.mp h
    unfold addYields
    refine hcondition.bind fun holds => keeps_ite ?_ (ih hrest totals)
    refine hamount.bind fun amount => ?_
    cases amount with
    | some x => exact ih hrest _
    | none => exact ih hrest totals

theorem keeps_addFactors (h : ∀ effect ∈ effects, (Rule.amount effect vars).Keeps R)
    (totals : Totals) : (addFactors vars effects totals).Keeps R := by
  induction effects generalizing totals with
  | nil => exact keeps_pure totals
  | cons effect rest ih =>
    obtain ⟨hamount, hrest⟩ := List.forall_mem_cons.mp h
    unfold addFactors
    refine hamount.bind fun amount => ?_
    cases amount with
    | some x => exact ih hrest _
    | none => exact ih hrest totals

/-- Adding up what buildings yield keeps what is kept by the gates of buildings and by the conditions
and amounts of their yields. -/
theorem keeps_totalYield_of
    (h : ∀ key item, e.catalog.buildings.get? key = some item → ∀ vars,
      (Rule.passes item.gate vars).Keeps R ∧ ∀ effect ∈ item.effectsOf .yields,
        (Rule.holdsIfAny effect.condition vars).Keeps R ∧ (Rule.amount effect vars).Keeps R) :
    e.totalYield.Keeps R := by
  refine keeps_player.bind fun p => keeps_foldlM (fun entry _ totals => ?_) _
  unfold addBuilding
  refine keeps_ite (keeps_pure totals) ?_
  cases hitem : e.catalog.buildings.get? entry.1 with
  | none => exact keeps_pure totals
  | some item =>
    obtain ⟨hgate, hyields⟩ := h entry.1 item hitem (countVariables p.formulaVariables entry.2)
    exact hgate.bind fun _ => keeps_ite (keeps_addYields hyields totals) (keeps_pure totals)

/-- Adding up the multipliers of upgrades keeps what is kept by their amounts. -/
theorem keeps_totalMultiplier_of
    (h : ∀ key item, e.catalog.upgrades.get? key = some item → ∀ vars,
      ∀ effect ∈ item.effectsOf .multiplies, (Rule.amount effect vars).Keeps R) :
    e.totalMultiplier.Keeps R := by
  refine keeps_player.bind fun p => keeps_foldlM (fun entry _ totals => ?_) _
  unfold addUpgrade
  split
  next item _ hitem => exact keeps_addFactors (h entry.1 item hitem p.formulaVariables) totals
  next => exact keeps_pure totals

theorem keeps_tryLevels {item : Item} {key : String} {levels : List AchievementLevel}
    (h : ∀ level ∈ levels, (e.tryLevel item key level).Keeps R) :
    (e.tryLevels item key levels).Keeps R := by
  induction levels with
  | nil => exact keeps_pure []
  | cons level rest ih =>
    obtain ⟨hlevel, hrest⟩ := List.forall_mem_cons.mp h
    exact hlevel.bind fun _ => (ih hrest).bind fun _ => keeps_pure _

/-- A pass over the achievements keeps what is kept by trying their levels. -/
theorem keeps_unlockAchievements_of
    (h : ∀ key item, e.catalog.achievements.get? key = some item →
      ∀ level ∈ item.levels, (e.tryLevel item key level).Keeps R) :
    e.unlockAchievements.Keeps R := by
  have hitems : ∀ items : List (String × Item),
      (∀ entry ∈ items, e.catalog.achievements.get? entry.1 = some entry.2) →
        (e.tryItems items).Keeps R := by
    intro items hfound
    induction items with
    | nil => exact keeps_pure []
    | cons entry rest ih =>
      obtain ⟨hentry, hrest⟩ := List.forall_mem_cons.mp hfound
      refine (keeps_tryLevels fun level hlevel => ?_).bind fun _ =>
        (ih hrest).bind fun _ => keeps_pure _
      exact h entry.1 entry.2 hentry level (List.mem_mergeSort.mp hlevel)
  exact hitems _ fun _ hentry => KeyMap.mem_entries_iff.mp hentry

end Questions

end Economy

/-! ## Breaks -/

/-- Whether what was broken off stays so, and asks for nothing any more. -/
def Stuck (v w : World) : Prop := v.broken = true → w.broken = true ∧ w.evaluator = v.evaluator

theorem Stuck.of_eq {v w : World} (hbroken : w.broken = v.broken)
    (hevaluator : w.evaluator = v.evaluator) : Stuck v w :=
  fun h => ⟨hbroken.trans h, hevaluator⟩

theorem Stuck.trans {u v w : World} (h : Stuck u v) (h' : Stuck v w) : Stuck u w := by
  intro hbroken
  obtain ⟨hthen, hsame⟩ := h hbroken
  obtain ⟨hlast, hsame'⟩ := h' hthen
  exact ⟨hlast, hsame'.trans hsame⟩

namespace Rule

variable {α : Type} (question : StateM Formula.Evaluator (Except Formula.EvalError α)) {w : World}

/-- Once something was broken off there is no answer. -/
theorem consult_of_broken (h : w.broken = true) :
    consult question w = (.error .unboundedDraw, w) := by rw [consult, if_pos h]

/-- Otherwise the evaluator answers, and may break off what is going on. -/
theorem consult_of_unbroken (h : w.broken = false) :
    consult question w = ((question w.evaluator).1,
      { w with
        evaluator := (question w.evaluator).2
        broken := Formula.brokenOff (question w.evaluator).1 }) := by
  rw [consult, if_neg (by rw [h]; exact Bool.false_ne_true)]
  rfl

theorem result?_apply (rule : Rule α) (w : World) :
    rule.result? w = if (rule w).2.broken then none else some (rule w) := rfl

/-- What a rule gives goes by what it comes to. -/
theorem result?_congr {rule other : Rule α} {v : World} (h : rule v = other w) :
    rule.result? v = other.result? w := by rw [result?_apply, result?_apply, h]

/-- What a rule gives is given if it is not broken off. -/
theorem result?_of_unbroken {rule : Rule α} (h : (rule w).2.broken = false) :
    rule.result? w = some (rule w) := by
  rw [result?_apply, h]
  rfl

/-- Nothing is given just if something was broken off. -/
theorem result?_eq_none_iff {rule : Rule α} :
    rule.result? w = none ↔ (rule w).2.broken = true := by
  rw [result?_apply]
  split <;> simp_all

theorem result?_eq_some_iff {rule : Rule α} {a : α} {v : World} :
    rule.result? w = some (a, v) ↔ v.broken = false ∧ rule w = (a, v) := by
  rw [result?_apply]
  constructor
  · intro h
    split at h
    next => exact absurd h (by simp)
    next hbroken =>
      have hrule := Option.some_inj.mp h
      rw [hrule, Bool.not_eq_true] at hbroken
      exact ⟨hbroken, hrule⟩
  · rintro ⟨hbroken, hrule⟩
    rw [hrule, if_neg (by rw [hbroken]; exact Bool.false_ne_true)]

end Rule

/-! ## Rules that only ask -/

/-- Whether neither the player nor the events differ. -/
structure Still (v w : World) : Prop where
  player : w.player = v.player
  raised : w.raised = v.raised
  stuck : Stuck v w

instance : Std.Refl Still := ⟨fun _ => ⟨rfl, rfl, .of_eq rfl rfl⟩⟩

instance : IsTrans World Still :=
  ⟨fun _ _ _ h h' => ⟨h'.player.trans h.player, h'.raised.trans h.raised, h.stuck.trans h'.stuck⟩⟩

namespace Rule

/-- A rule that only asks leaves the player as he is. -/
theorem Keeps.player_eq {α : Type} {rule : Rule α} (h : rule.Keeps Still) {w v : World} {a : α}
    (hrule : rule w = (a, v)) : v.player = w.player := by
  have hstill := (h w).player
  rw [hrule] at hstill
  exact hstill

theorem keeps_consult {α : Type}
    (question : StateM Formula.Evaluator (Except Formula.EvalError α)) :
    Keeps Still (consult question) := by
  intro w
  cases h : w.broken with
  | true =>
    rw [consult_of_broken question h]
    exact Std.Refl.refl w
  | false =>
    rw [consult_of_unbroken question h]
    exact ⟨rfl, rfl, fun hbroken => absurd (h.symm.trans hbroken) Bool.false_ne_true⟩

theorem keeps_amountOf (formula : String) (vars : Formula.Variables) :
    Keeps Still (amountOf formula vars) := (keeps_consult _).bind fun _ => keeps_pure _

theorem keeps_holds (formula : String) (vars : Formula.Variables) :
    Keeps Still (holds formula vars) := (keeps_consult _).bind fun _ => keeps_pure _

theorem keeps_chance (percent : Float) : Keeps Still (chance percent) :=
  (keeps_consult _).bind fun _ => keeps_pure _

theorem keeps_holdsIfAny (condition : Option String) (vars : Formula.Variables) :
    Keeps Still (holdsIfAny condition vars) := by
  cases condition with
  | some formula => exact keeps_holds formula vars
  | none => exact keeps_pure true

theorem keeps_passes (gate : Option Gate) (vars : Formula.Variables) :
    Keeps Still (passes gate vars) := by
  cases gate with
  | none => exact keeps_pure true
  | some gate =>
    cases gate with
    | chance percent => exact keeps_chance percent
    | condition formula => exact keeps_holds formula vars

theorem keeps_amount (effect : Effect) (vars : Formula.Variables) :
    Keeps Still (amount effect vars) := by
  unfold amount
  cases effect.expression with
  | some formula => exact keeps_amountOf formula vars
  | none => exact keeps_pure _

end Rule

namespace Economy

/-- Adding up what buildings yield only asks. -/
theorem keeps_totalYield (e : Economy) : e.totalYield.Keeps Still :=
  keeps_totalYield_of fun _ item _ vars => ⟨Rule.keeps_passes item.gate vars, fun effect _ =>
    ⟨Rule.keeps_holdsIfAny effect.condition vars, Rule.keeps_amount effect vars⟩⟩

/-- Adding up the multipliers of upgrades only asks. -/
theorem keeps_totalMultiplier (e : Economy) : e.totalMultiplier.Keeps Still :=
  keeps_totalMultiplier_of fun _ _ _ vars effect _ => Rule.keeps_amount effect vars

end Economy

/-! ## Rules that change the player quietly -/

/-- Whether the player has changed quietly and the events not at all. -/
structure Hushed (catalog : Catalog) (v w : World) : Prop where
  quiet : Quiet catalog v.player w.player
  raised : w.raised = v.raised
  stuck : Stuck v w

instance (catalog : Catalog) : Std.Refl (Hushed catalog) :=
  ⟨fun _ => ⟨.refl _, rfl, .of_eq rfl rfl⟩⟩

instance (catalog : Catalog) : IsTrans World (Hushed catalog) :=
  ⟨fun _ _ _ h h' => ⟨h.quiet.trans h'.quiet, h'.raised.trans h.raised, h.stuck.trans h'.stuck⟩⟩

theorem Still.hushed (catalog : Catalog) {v w : World} (h : Still v w) : Hushed catalog v w := by
  refine ⟨?_, h.raised, h.stuck⟩
  rw [h.player]
  exact .refl v.player

variable {catalog : Catalog}

/-- Only the player has changed, and quietly. -/
theorem Quiet.hushed {w : World} {p : Player} (h : Quiet catalog w.player p) :
    Hushed catalog w { w with player := p } := ⟨h, rfl, .of_eq rfl rfl⟩

theorem Rule.keeps_change {f : Player → Player} (h : ∀ p, Quiet catalog p (f p)) :
    (Rule.change f).Keeps (Hushed catalog) := fun w => (h w.player).hushed

/-- A rule that only asks is hushed. -/
theorem Rule.Keeps.hushed {α : Type} {rule : Rule α} (h : rule.Keeps Still) :
    rule.Keeps (Hushed catalog) := h.mono (Still.hushed catalog)

namespace Economy

open Rule (keeps_pure keeps_player keeps_ite keeps_mapM keeps_change)

theorem keeps_credit (effect : Effect) (extra : Formula.Variables) :
    (credit effect extra).Keeps (Hushed catalog) :=
  keeps_onCondition (fun vars => (Rule.keeps_holdsIfAny _ vars).hushed) fun vars =>
    keeps_withAmount (Rule.keeps_amount effect vars).hushed fun _ =>
      keeps_change fun p => .step (.add p effect.target _)

theorem keeps_spawn (e : Economy) (shiny : String) (extra : Formula.Variables) :
    (e.spawn shiny extra).Keeps (Hushed catalog) := by
  unfold spawn
  cases e.catalog.shinies.get? shiny with
  | none => exact keeps_pure _
  | some item =>
    exact (keeps_mapM fun effect _ => keeps_credit effect extra).bind fun _ => keeps_pure _

theorem keeps_apply (e : Economy) (now : UInt64) (extra : Formula.Variables) (effect : Effect) :
    (e.apply now extra effect).Keeps (Hushed e.catalog) := by
  refine keeps_onCondition (fun vars => (Rule.keeps_holdsIfAny _ vars).hushed) fun vars => ?_
  have hamount : (Rule.amount effect vars).Keeps (Hushed e.catalog) :=
    (Rule.keeps_amount effect vars).hushed
  cases effect.kind with
  | yields =>
    exact keeps_withAmount hamount fun _ => keeps_change fun p => .step (.add p effect.target _)
  | multiplies =>
    exact keeps_withAmount hamount fun _ => keeps_change fun p => .step (.scale p effect.target _)
  | grants => exact (keeps_change (quiet_grant e.catalog _ now)).bind fun _ => keeps_pure _
  | spawns => exact e.keeps_spawn effect.target extra
  | resets => exact (keeps_change (quiet_reset e _)).bind fun _ => keeps_pure _

theorem keeps_mapM_apply (e : Economy) (now : UInt64) (extra : Formula.Variables)
    (effects : List Effect) : (effects.mapM (e.apply now extra)).Keeps (Hushed e.catalog) :=
  keeps_mapM fun effect _ => e.keeps_apply now extra effect

/-- **Effects raise no event**, and change the player quietly. -/
theorem keeps_execute (e : Economy) (now : UInt64) (extra : Formula.Variables)
    (block : EffectBlock) : (e.execute now extra block).Keeps (Hushed e.catalog) :=
  keeps_execute_of (fun vars => (Rule.keeps_passes block.gate vars).hushed)
    fun effect _ => e.keeps_apply now extra effect

/-- The end of shinies raises no event. -/
theorem keeps_expireShinies (e : Economy) (now : UInt64) :
    (e.expireShinies now).Keeps (Hushed catalog) :=
  keeps_player.bind fun _ =>
    (keeps_change fun p => .step (.shinies p _)).bind fun _ => keeps_pure _

end Economy

end IncrementalGame
