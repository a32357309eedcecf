import IncrementalGame.Proofs.Economy.Actions
import IncrementalGame.Proofs.Economy.Blind
import IncrementalGame.Proofs.Formula.Breaks

/-!
# What is never broken off

A rule is broken off only by a formula, and a formula only by a real draw.  So a rule that asks for no
formula but such as draw no real number is not broken off: it leads from every world that is not
broken to one that is not (`Unbroken`).

This holds of a list of effects whose formulas are such (`Economy.unbroken_execute`), and where all
formulas of a catalog are (`Catalog.Safe`), of ticks and of prestige, whatever the player is
(`Economy.unbroken_tick`, `Economy.unbroken_performPrestige`).
-/

namespace IncrementalGame

/-- Whether nothing has been broken off that was not before. -/
def Unbroken (v w : World) : Prop := v.broken = false → w.broken = false

instance : Std.Refl Unbroken := ⟨fun _ h => h⟩

instance : IsTrans World Unbroken := ⟨fun _ _ _ h h' hbroken => h' (h hbroken)⟩

/-- What is neither mended nor broken off is as it was. -/
theorem Stuck.broken_eq {v w : World} (h : Stuck v w) (h' : Unbroken v w) : w.broken = v.broken := by
  cases hv : v.broken with
  | true => exact (h hv).1
  | false => exact h' hv

/-- A formula that does not hang on chance draws no real number. -/
theorem Formula.Certain.safe {formula : String} (h : Formula.Certain formula) :
    Formula.Safe formula := fun tree hparse =>
  tree.anyCall_mono (fun _ => Formula.Builtin.isRealDraw_of_isRandomName) (h tree hparse)

namespace Rule

theorem unbroken_change (f : Player → Player) : (change f).Keeps Unbroken := fun _ h => h

theorem unbroken_announce (e : Economy) (message : String) (event : Event) :
    (announce e message event).Keeps Unbroken := fun _ h => h

/-- A question that is always answered breaks off nothing. -/
theorem unbroken_consult {α : Type}
    {question : StateM Formula.Evaluator (Except Formula.EvalError α)}
    (h : ∀ ev, Formula.brokenOff (question ev).1 = false) : (consult question).Keeps Unbroken := by
  intro w hw
  rw [consult_of_unbroken question hw]
  exact h w.evaluator

section

variable {formula : String} {vars : Formula.Variables}

theorem unbroken_amountOf (h : Formula.Safe formula) : (amountOf formula vars).Keeps Unbroken :=
  (unbroken_consult fun ev => Formula.Evaluator.brokenOff_evaluate h vars ev).bind fun _ =>
    keeps_pure _

theorem unbroken_holds (h : Formula.Safe formula) : (holds formula vars).Keeps Unbroken := by
  refine (unbroken_consult fun ev => ?_).bind fun _ => keeps_pure _
  rw [Formula.Evaluator.holds_apply, Formula.brokenOff_map]
  exact Formula.Evaluator.brokenOff_evaluate h vars ev

theorem unbroken_holdsIfAny {condition : Option String}
    (h : ∀ formula ∈ condition, Formula.Safe formula) :
    (holdsIfAny condition vars).Keeps Unbroken := by
  cases condition with
  | some formula => exact unbroken_holds (h formula rfl)
  | none => exact keeps_pure true

theorem unbroken_chance (percent : Float) : (chance percent).Keeps Unbroken :=
  (unbroken_consult fun _ => rfl).bind fun _ => keeps_pure _

end

end Rule

/-- The formula of a gate, if it has one. -/
def Gate.formula? : Gate → Option String
  | .chance _ => none
  | .condition formula => some formula

theorem Rule.unbroken_passes {gate : Option Gate} {vars : Formula.Variables}
    (h : ∀ formula ∈ gate.bind Gate.formula?, Formula.Safe formula) :
    (passes gate vars).Keeps Unbroken := by
  cases gate with
  | none => exact keeps_pure true
  | some gate =>
    cases gate with
    | chance percent => exact unbroken_chance percent
    | condition formula => exact unbroken_holds (h formula rfl)

theorem Rule.unbroken_amount {effect : Effect} {vars : Formula.Variables}
    (h : ∀ formula ∈ effect.expression, Formula.Safe formula) :
    (amount effect vars).Keeps Unbroken := by
  unfold amount
  cases hexpression : effect.expression with
  | some formula => exact unbroken_amountOf (h formula hexpression)
  | none => exact keeps_pure _

/-! ## Effects -/

namespace Economy

open Rule (keeps_pure keeps_mapM unbroken_change)

variable {e : Economy} {effect : Effect} {vars extra : Formula.Variables}

theorem unbroken_credit (h : ∀ formula ∈ effect.formulas, Formula.Safe formula) :
    (credit effect extra).Keeps Unbroken :=
  keeps_onCondition
    (fun _ => Rule.unbroken_holdsIfAny fun _ hformula =>
      h _ (Effect.mem_formulas_of_condition hformula))
    fun _ => keeps_withAmount
      (Rule.unbroken_amount fun _ hformula => h _ (Effect.mem_formulas_of_expression hformula))
      fun _ => unbroken_change _

/-- An effect is not broken off if no formula is that it may come to. -/
theorem unbroken_apply (now : UInt64) (h : ∀ formula ∈ e.asked effect, Formula.Safe formula) :
    (e.apply now extra effect).Keeps Unbroken := by
  have hlater := fun formula hformula => h formula (List.mem_append_right _ hformula)
  refine keeps_onCondition (fun _ => Rule.unbroken_holdsIfAny fun formula hformula => ?_)
    fun vars => ?_
  · exact h formula (List.mem_append_left _ (Option.mem_toList.mpr hformula))
  · cases hkind : effect.kind with
    | yields | multiplies =>
      rw [hkind] at hlater
      have hamount : (Rule.amount effect vars).Keeps Unbroken := Rule.unbroken_amount
        fun formula hformula => hlater formula (Option.mem_toList.mpr hformula)
      exact keeps_withAmount hamount fun _ => unbroken_change _
    | grants | resets => exact (unbroken_change _).bind fun _ => keeps_pure _
    | spawns =>
      rw [hkind] at hlater
      simp only [spawn_eq_creditAll]
      refine (keeps_mapM fun y hy => ?_).bind fun _ => keeps_pure _
      exact unbroken_credit fun formula hformula =>
        hlater formula (List.mem_flatMap.mpr ⟨y, hy, hformula⟩)

/-- What hangs on chance in nothing draws no real number. -/
theorem Gentle.safe (h : e.Gentle effect) : ∀ formula ∈ e.asked effect, Formula.Safe formula :=
  fun formula hformula => (h.certain formula hformula).safe

/-- The formulas that a list of effects may come to, that of its gate included. -/
def askedBy (e : Economy) (block : EffectBlock) : List String :=
  (block.gate.bind Gate.formula?).toList ++ block.effects.flatMap e.asked

/-- **A list of effects is not broken off** if no formula is that it may come to. -/
theorem unbroken_execute (now : UInt64) {block : EffectBlock}
    (h : ∀ formula ∈ e.askedBy block, Formula.Safe formula) :
    (e.execute now extra block).Keeps Unbroken := by
  refine keeps_execute_of (fun _ => Rule.unbroken_passes fun formula hformula => ?_)
    fun effect heffect => unbroken_apply now fun formula hformula => ?_
  · exact h formula (List.mem_append_left _ (Option.mem_toList.mpr hformula))
  · exact h formula (List.mem_append_right _ (List.mem_flatMap.mpr ⟨effect, heffect, hformula⟩))

end Economy

/-! ## Catalogs -/

/-- The formulas of an item. -/
def Item.formulas (item : Item) : List String :=
  (item.gate.bind Gate.formula?).toList ++ item.effects.flatMap Effect.formulas ++
    item.levels.map (·.condition)

/-- Whether no formula of a catalog draws a real number. -/
def Catalog.Safe (catalog : Catalog) : Prop :=
  ∀ category ∈ catalog.categories.entries, ∀ entry ∈ category.2.entries,
    ∀ formula ∈ entry.2.formulas, Formula.Safe formula

instance : DecidablePred Catalog.Safe := fun catalog =>
  inferInstanceAs (Decidable (∀ category ∈ catalog.categories.entries,
    ∀ entry ∈ category.2.entries, ∀ formula ∈ entry.2.formulas, Formula.Safe formula))

/-- What hangs on chance in nothing draws no real number. -/
theorem Item.Certain.safe {item : Item} (h : item.Certain) :
    ∀ formula ∈ item.formulas, Formula.Safe formula := by
  intro formula hformula
  rcases List.mem_append.mp hformula with hformula | hformula
  · rcases List.mem_append.mp hformula with hformula | hformula
    · obtain ⟨gate, hgate, hcondition⟩ :=
        Option.bind_eq_some_iff.mp (Option.mem_toList.mp hformula)
      have hcertain := h.gate gate hgate
      cases gate with
      | chance percent => exact absurd hcondition (by simp [Gate.formula?])
      | condition other => exact Option.some_inj.mp hcondition ▸ Formula.Certain.safe hcertain
    · obtain ⟨effect, heffect, hformula⟩ := List.mem_flatMap.mp hformula
      exact (h.effects effect heffect formula hformula).safe
  · obtain ⟨level, hlevel, rfl⟩ := List.mem_map.mp hformula
    exact (h.levels level hlevel).safe

theorem Catalog.Certain.safe {catalog : Catalog} (h : catalog.Certain) : catalog.Safe :=
  fun category hcategory entry hentry => (h category hcategory entry hentry).safe

namespace Catalog.Safe

variable {catalog : Catalog} {name key : String} {item : Item}

theorem of_get? (h : catalog.Safe) (hget : (catalog.category name).get? key = some item) :
    ∀ formula ∈ item.formulas, Formula.Safe formula := by
  obtain ⟨category, hcategory, hitem⟩ := exists_category_of_get? hget
  exact h category hcategory _ hitem

theorem gate (h : catalog.Safe) (hget : (catalog.category name).get? key = some item) :
    ∀ formula ∈ item.gate.bind Gate.formula?, Formula.Safe formula :=
  fun formula hformula => h.of_get? hget formula
    (List.mem_append_left _ (List.mem_append_left _ (Option.mem_toList.mpr hformula)))

theorem effects (h : catalog.Safe) (hget : (catalog.category name).get? key = some item)
    {effect : Effect} (heffect : effect ∈ item.effects) :
    ∀ formula ∈ effect.formulas, Formula.Safe formula :=
  fun formula hformula => h.of_get? hget formula (List.mem_append_left _
    (List.mem_append_right _ (List.mem_flatMap.mpr ⟨effect, heffect, hformula⟩)))

theorem effectsOf (h : catalog.Safe) (hget : (catalog.category name).get? key = some item)
    (kind : EffectKind) :
    ∀ effect ∈ item.effectsOf kind, ∀ formula ∈ effect.formulas, Formula.Safe formula :=
  fun _ heffect => h.effects hget (List.mem_of_mem_filter heffect)

theorem levels (h : catalog.Safe) (hget : (catalog.category name).get? key = some item)
    {level : AchievementLevel} (hlevel : level ∈ item.levels) : Formula.Safe level.condition :=
  h.of_get? hget _ (List.mem_append_right _ (List.mem_map_of_mem hlevel))

end Catalog.Safe

namespace Economy

open Rule (keeps_pure keeps_player keeps_ite unbroken_change)

variable {e : Economy}

theorem safe_asked (h : e.catalog.Safe) {effect : Effect}
    (heffect : ∀ formula ∈ effect.formulas, Formula.Safe formula) :
    ∀ formula ∈ e.asked effect, Formula.Safe formula := by
  intro formula hformula
  rcases List.mem_append.mp hformula with hformula | hformula
  · exact heffect formula (Effect.mem_formulas_of_condition (Option.mem_toList.mp hformula))
  · cases hkind : effect.kind with
    | yields | multiplies =>
      rw [hkind] at hformula
      exact heffect formula (Effect.mem_formulas_of_expression (Option.mem_toList.mp hformula))
    | spawns =>
      rw [hkind] at hformula
      obtain ⟨y, hy, hformula⟩ := List.mem_flatMap.mp hformula
      unfold yieldsOf at hy
      split at hy
      next item hitem => exact h.effectsOf hitem .yields y hy formula hformula
      next => exact absurd hy List.not_mem_nil
    | grants | resets =>
      rw [hkind] at hformula
      exact absurd hformula List.not_mem_nil

/-- The formulas that the effects of an item come to are those of a catalog. -/
theorem safe_askedBy (h : e.catalog.Safe) {name key : String} {item : Item}
    (hget : (e.catalog.category name).get? key = some item) :
    ∀ formula ∈ e.askedBy item.block, Formula.Safe formula := by
  intro formula hformula
  rcases List.mem_append.mp hformula with hformula | hformula
  · exact h.gate hget formula (Option.mem_toList.mp hformula)
  · obtain ⟨effect, heffect, hformula⟩ := List.mem_flatMap.mp hformula
    exact safe_asked h (h.effects hget heffect) formula hformula

/-! ## Ticks -/

theorem unbroken_tryLevel {item : Item} {key : String} {level : AchievementLevel}
    (h : Formula.Safe level.condition) : (e.tryLevel item key level).Keeps Unbroken := by
  have hunlock : (e.unlock item key level).Keeps Unbroken :=
    (unbroken_change _).bind fun _ => (unbroken_change _).bind fun _ =>
      keeps_player.bind fun _ => Rule.unbroken_announce e _ _
  exact keeps_player.bind fun p => keeps_ite (keeps_pure false)
    ((Rule.unbroken_holds h).bind fun _ =>
      keeps_ite (hunlock.bind fun _ => keeps_pure true) (keeps_pure false))

/-- **Where no formula of the catalog draws a real number, no tick is broken off.** -/
theorem unbroken_tick (h : e.catalog.Safe) (now : UInt64) : (e.tick now).Keeps Unbroken := by
  have hyield : e.totalYield.Keeps Unbroken := keeps_totalYield_of fun _ _ hitem _ =>
    ⟨Rule.unbroken_passes (h.gate hitem), fun effect heffect =>
      ⟨Rule.unbroken_holdsIfAny fun _ hformula => h.effectsOf hitem _ effect heffect _
          (Effect.mem_formulas_of_condition hformula),
        Rule.unbroken_amount fun _ hformula => h.effectsOf hitem _ effect heffect _
          (Effect.mem_formulas_of_expression hformula)⟩⟩
  have hmultiplier : e.totalMultiplier.Keeps Unbroken :=
    keeps_totalMultiplier_of fun _ _ hitem _ effect heffect =>
      Rule.unbroken_amount fun _ hformula => h.effectsOf hitem _ effect heffect _
        (Effect.mem_formulas_of_expression hformula)
  have hexpire : (e.expireShinies now).Keeps Unbroken :=
    keeps_player.bind fun _ => (unbroken_change _).bind fun _ => keeps_pure _
  have hunlock : e.unlockAchievements.Keeps Unbroken :=
    keeps_unlockAchievements_of fun _ _ hitem _ hlevel =>
      unbroken_tryLevel (h.levels hitem hlevel)
  refine hyield.bind fun _ => hmultiplier.bind fun _ => keeps_player.bind fun _ => ?_
  refine (unbroken_change _).bind fun _ => (unbroken_change _).bind fun _ => ?_
  exact hexpire.bind fun _ => hunlock.bind fun _ => (unbroken_change _).bind fun _ => keeps_pure _

/-! ## Commands -/

/-- To sell asks for no formula. -/
theorem unbroken_sell (e : Economy) (key : String) (w : World) :
    Unbroken w (e.sell key w).2 := by
  rcases e.sell_cases w key with ⟨_, hsell⟩ | ⟨_, _, -, -, -, hsell⟩
  · rw [hsell]
    exact id
  · rw [hsell]
    exact id

/-- A prestige is broken off just if its effects are. -/
theorem broken_performPrestige {item : Item} (hfound : e.catalog.prestige? = some item) {w : World}
    {q : Player} (hspend : w.player.spend item.cost = .ok q) (now : UInt64) :
    (e.performPrestige now w).2.broken =
      (e.execute now .empty item.block { w with player := q.resetProgress e.catalog }).2.broken := by
  rw [e.performPrestige_ok item w now hfound hspend]
  rfl

/-- **Where no formula of the catalog draws a real number, no prestige is broken off.** -/
theorem unbroken_performPrestige (h : e.catalog.Safe) (now : UInt64) (w : World) :
    Unbroken w (e.performPrestige now w).2 := by
  rcases e.performPrestige_cases w now with ⟨_, hrefused⟩ | ⟨item, q, v, hfound, -, hv, hdone⟩
  · rw [hrefused]
    exact id
  · rw [hdone, hv]
    exact unbroken_execute now (safe_askedBy h hfound)
      { w with player := q.resetProgress e.catalog }

end Economy

end IncrementalGame
