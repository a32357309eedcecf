import IncrementalGame.Proofs.Economy.Spawning
import IncrementalGame.Proofs.Player.Plain

/-!
# Rules do not feel what is remembered

Two worlds are alike if they have the same player, who has plain names, and the same events, and
remember nothing wrong, however much or little that is (`Alike`).  A rule is blind if it comes to
the same in worlds that are alike, and leaves them alike (`Rule.Blind`).

Where the catalog is tame every rule is blind: a formula amounts to the same in both worlds, and the
rest of a rule looks at the player only.  Blindness passes through sequences, choices and loops; in
a sequence, the second part may rely on what the first has come to, such as the names of the
variables or of the resources that are credited.  A single effect asks less of the catalog, namely
that the formulas it comes to do not hang on chance and the names it may bring up are plain
(`Economy.Gentle`, `Economy.blind_apply`).
-/

namespace IncrementalGame

open Formula (Faithful Separable)

/-- Whether two worlds differ at most in what they remember, and remember nothing wrong. -/
structure Alike (v w : World) : Prop where
  player : w.player = v.player
  raised : w.raised = v.raised
  broken : w.broken = v.broken
  plain : v.player.Plain
  faithful : Faithful v.evaluator.memo
  faithful' : Faithful w.evaluator.memo

namespace Rule

/-- Whether a rule comes to the same in worlds that are alike, with a property of what it comes to,
and leaves them alike. -/
def Blind {α : Type} (rule : Rule α) (P : α → Prop := fun _ => True) : Prop :=
  ∀ v w, Alike v w → (rule w).1 = (rule v).1 ∧ P (rule v).1 ∧ Alike (rule v).2 (rule w).2

section Closure

variable {α β : Type} {P : α → Prop} {Q : β → Prop}

theorem Blind.bind {rule : Rule α} {f : α → Rule β} (h : rule.Blind P)
    (hf : ∀ a, P a → (f a).Blind Q) : Blind (rule >>= f) Q := by
  intro v w hvw
  obtain ⟨hsame, ha, halike⟩ := h v w hvw
  rw [bind_apply, bind_apply, hsame]
  exact hf _ ha _ _ halike

theorem blind_pure {a : α} (h : P a) : Blind (pure a : Rule α) P := fun _ _ hvw => ⟨rfl, h, hvw⟩

theorem blind_ite {p : Prop} [Decidable p] {rule other : Rule α} (h : rule.Blind P)
    (hother : other.Blind P) : Blind (if p then rule else other) P := by
  split
  · exact h
  · exact hother

theorem blind_player : player.Blind Player.Plain := by
  intro v w hvw
  exact ⟨hvw.player, hvw.plain, hvw⟩

theorem blind_change {f : Player → Player} (h : ∀ p : Player, p.Plain → (f p).Plain) :
    (change f).Blind := by
  intro v w hvw
  exact ⟨rfl, trivial, congrArg f hvw.player, hvw.raised, hvw.broken, h _ hvw.plain, hvw.faithful,
    hvw.faithful'⟩

theorem blind_announce (e : Economy) (message : String) (event : Event) :
    (announce e message event).Blind := by
  intro v w hvw
  exact ⟨rfl, trivial, congrArg (·.pushLog message e.settings.logCapacity.toNat) hvw.player,
    congrArg (· ++ [event]) hvw.raised, hvw.broken, hvw.plain.pushLog _ _, hvw.faithful,
    hvw.faithful'⟩

theorem blind_mapM {f : α → Rule β} {l : List α} (h : ∀ a ∈ l, (f a).Blind) :
    Blind (l.mapM f) := by
  induction l with
  | nil =>
    rw [List.mapM_nil]
    exact blind_pure trivial
  | cons a l ih =>
    rw [List.mapM_cons]
    refine (h a List.mem_cons_self).bind fun b _ => ?_
    exact (ih fun a ha => h a (List.mem_cons_of_mem _ ha)).bind fun bs _ => blind_pure trivial

theorem blind_foldlM {f : β → α → Rule β} {l : List α}
    (h : ∀ a ∈ l, ∀ b, Q b → (f b a).Blind Q) {b : β} (hb : Q b) : Blind (l.foldlM f b) Q := by
  induction l generalizing b with
  | nil =>
    rw [List.foldlM_nil]
    exact blind_pure hb
  | cons a l ih =>
    rw [List.foldlM_cons]
    refine (h a List.mem_cons_self b hb).bind fun b hb => ?_
    exact ih (fun a ha => h a (List.mem_cons_of_mem _ ha)) hb

/-- A question is blind if its answer does not hang on what is remembered, and nothing wrong is
remembered of it. -/
theorem blind_consult {question : StateM Formula.Evaluator (Except Formula.EvalError α)}
    (hanswer : ∀ ev ev' : Formula.Evaluator, Faithful ev.memo → Faithful ev'.memo →
      (question ev').1 = (question ev).1)
    (hmemo : ∀ ev : Formula.Evaluator, Faithful ev.memo → Faithful (question ev).2.memo) :
    (consult question).Blind := by
  intro v w hvw
  cases h : v.broken with
  | true =>
    rw [consult_of_broken question h, consult_of_broken question (hvw.broken.trans h)]
    exact ⟨rfl, trivial, hvw⟩
  | false =>
    have hsame := hanswer _ _ hvw.faithful hvw.faithful'
    rw [consult_of_unbroken question h, consult_of_unbroken question (hvw.broken.trans h)]
    exact ⟨hsame, trivial, hvw.player, hvw.raised, congrArg Formula.brokenOff hsame, hvw.plain,
      hmemo _ hvw.faithful, hmemo _ hvw.faithful'⟩

end Closure

/-! ## Formulas -/

section

variable {formula : String} {vars extra : Formula.Variables}

theorem blind_formulaVariables (h : Separable extra) :
    (formulaVariables extra).Blind Separable :=
  blind_player.bind fun _ hp => blind_pure (KeyMap.Plain.overlay hp.separable h)

theorem blind_amountOf (h : Formula.Certain formula) (hvars : Separable vars) :
    (amountOf formula vars).Blind := by
  refine Blind.bind (blind_consult ?_ ?_) fun _ _ => blind_pure trivial
  · exact fun ev ev' => Formula.Evaluator.evaluate_of_certain h hvars
  · exact fun ev hev => (ev.evaluate_eq_fresh hev formula hvars).2.2

theorem blind_holds (h : Formula.Certain formula) (hvars : Separable vars) :
    (holds formula vars).Blind := by
  refine Blind.bind (blind_consult ?_ ?_) fun _ _ => blind_pure trivial
  · intro ev ev' hev hev'
    rw [Formula.Evaluator.holds_apply, Formula.Evaluator.holds_apply,
      Formula.Evaluator.evaluate_of_certain h hvars hev hev']
  · exact fun ev hev => ev.faithful_holds hev formula hvars

theorem blind_holdsIfAny {condition : Option String}
    (h : ∀ formula, condition = some formula → Formula.Certain formula) (hvars : Separable vars) :
    (holdsIfAny condition vars).Blind := by
  cases condition with
  | some formula => exact blind_holds (h formula rfl) hvars
  | none => exact blind_pure trivial

theorem blind_passes {gate : Option Gate} (h : ∀ g ∈ gate, g.Certain) (hvars : Separable vars) :
    (passes gate vars).Blind := by
  cases gate with
  | none => exact blind_pure trivial
  | some gate =>
    cases gate with
    | chance percent => exact (h _ rfl).elim
    | condition formula => exact blind_holds (h _ rfl) hvars

variable {effect : Effect}

theorem blind_amount (h : ∀ formula, effect.expression = some formula → Formula.Certain formula)
    (hvars : Separable vars) : (amount effect vars).Blind := by
  unfold amount
  cases hexpression : effect.expression with
  | some formula => exact blind_amountOf (h formula hexpression) hvars
  | none => exact blind_pure trivial

end

end Rule

/-! ## Effects -/

/-- Whether the formulas of an effect do not hang on chance, and its target is plain. -/
structure Effect.Tame (effect : Effect) : Prop where
  certain : ∀ formula ∈ effect.formulas, Formula.Certain formula
  target : PlainName effect.target

namespace Effect.Tame

variable {effect : Effect} {formula : String}

theorem condition (h : effect.Tame) (hformula : effect.condition = some formula) :
    Formula.Certain formula := h.certain formula (mem_formulas_of_condition hformula)

theorem expression (h : effect.Tame) (hformula : effect.expression = some formula) :
    Formula.Certain formula := h.certain formula (mem_formulas_of_expression hformula)

end Effect.Tame

theorem Item.Certain.tame {item : Item} (h : item.Certain) (hplain : item.Plain) :
    ∀ effect ∈ item.effects, effect.Tame :=
  fun effect heffect => ⟨h.effects effect heffect, hplain.targets effect heffect⟩

/-- The effects of one kind are among the effects. -/
theorem Item.Certain.tame_effectsOf {item : Item} (h : item.Certain) (hplain : item.Plain)
    (kind : EffectKind) : ∀ effect ∈ item.effectsOf kind, effect.Tame :=
  fun effect heffect => h.tame hplain effect (List.mem_of_mem_filter heffect)

namespace Economy

open Rule (blind_pure blind_player blind_ite blind_change blind_mapM blind_foldlM)

variable {e : Economy} {effect : Effect} {vars extra : Formula.Variables}

theorem blind_withAmount
    (heffect : ∀ formula, effect.expression = some formula → Formula.Certain formula)
    (hvars : Separable vars) {f : Float → Player → Player}
    (h : ∀ x (p : Player), p.Plain → (f x p).Plain) : (withAmount effect vars f).Blind := by
  refine (Rule.blind_amount heffect hvars).bind fun amount _ => ?_
  cases amount with
  | some x => exact (blind_change (h x)).bind fun _ _ => blind_pure trivial
  | none => exact blind_pure trivial

theorem blind_onCondition
    (heffect : ∀ formula, effect.condition = some formula → Formula.Certain formula)
    (hextra : Separable extra) {act : Formula.Variables → Rule Outcome}
    (h : ∀ vars, Separable vars → (act vars).Blind) :
    (onCondition effect extra act).Blind := by
  refine (Rule.blind_formulaVariables hextra).bind fun vars hvars => ?_
  refine (Rule.blind_holdsIfAny heffect hvars).bind fun _ _ => ?_
  exact blind_ite (h vars hvars) (blind_pure trivial)

theorem blind_credit (heffect : effect.Tame) (hextra : Separable extra) :
    (credit effect extra).Blind :=
  blind_onCondition (fun _ => heffect.condition) hextra fun _ hvars =>
    blind_withAmount (fun _ => heffect.expression) hvars fun x _ hp =>
      hp.addResource heffect.target x

theorem blind_creditAll {yields : List Effect} (h : ∀ effect ∈ yields, effect.Tame)
    (hextra : Separable extra) : (creditAll yields extra).Blind :=
  (blind_mapM fun effect heffect => blind_credit (h effect heffect) hextra).bind
    fun _ _ => blind_pure trivial

theorem plain_reset (h : e.catalog.resources.Plain) (target : String) {p : Player} (hp : p.Plain) :
    (e.reset target p).Plain := by
  rw [reset]
  split
  · exact hp.resetResources h
  · split
    next hknown =>
      have htarget : PlainName target := by
        rw [Bool.or_eq_true, KeyMap.contains, KeyMap.contains] at hknown
        rcases hknown with hknown | hknown
        · exact hp.resources.of_mem_keys (KeyMap.isSome_get?_iff.mp hknown)
        · exact h.of_mem_keys (KeyMap.isSome_get?_iff.mp hknown)
      exact hp.setResource htarget _
    · exact hp

/-- The formulas that an effect may come to. -/
def asked (e : Economy) (effect : Effect) : List String :=
  effect.condition.toList ++
    match effect.kind with
    | .yields | .multiplies => effect.expression.toList
    | .spawns => (e.yieldsOf effect.target).flatMap Effect.formulas
    | .grants | .resets => []

/-- The names of the resources that an effect may bring up. -/
def broughtUp (e : Economy) (effect : Effect) : List String :=
  match effect.kind with
  | .yields => [effect.target]
  | .spawns => (e.yieldsOf effect.target).map (·.target)
  | .resets => e.catalog.resources.keys
  | .multiplies | .grants => []

/-- Whether no formula that an effect may come to hangs on chance, and all names that it may bring
up are plain. -/
structure Gentle (e : Economy) (effect : Effect) : Prop where
  certain : ∀ formula ∈ e.asked effect, Formula.Certain formula
  plain : ∀ name ∈ e.broughtUp effect, PlainName name

instance (e : Economy) : DecidablePred e.Gentle := fun effect =>
  decidable_of_iff
    ((∀ formula ∈ e.asked effect, Formula.Certain formula) ∧
      ∀ name ∈ e.broughtUp effect, PlainName name)
    ⟨fun ⟨hcertain, hplain⟩ => ⟨hcertain, hplain⟩, fun ⟨hcertain, hplain⟩ => ⟨hcertain, hplain⟩⟩

namespace Gentle

theorem condition (h : e.Gentle effect) {formula : String}
    (hformula : effect.condition = some formula) : Formula.Certain formula :=
  h.certain formula (List.mem_append_left _ (Option.mem_toList.mpr hformula))

theorem expression (h : e.Gentle effect) (hkind : effect.kind = .yields ∨ effect.kind = .multiplies)
    {formula : String} (hformula : effect.expression = some formula) : Formula.Certain formula := by
  refine h.certain formula (List.mem_append_right _ ?_)
  rcases hkind with hkind | hkind <;> rw [hkind] <;> exact Option.mem_toList.mpr hformula

theorem target (h : e.Gentle effect) (hkind : effect.kind = .yields) : PlainName effect.target :=
  h.plain effect.target (by rw [broughtUp, hkind]; exact List.mem_singleton_self _)

/-- The yields that a gentle effect spawns are tame. -/
theorem yields (h : e.Gentle effect) (hkind : effect.kind = .spawns) :
    ∀ y ∈ e.yieldsOf effect.target, y.Tame := by
  intro y hy
  constructor
  · intro formula hformula
    refine h.certain formula (List.mem_append_right _ ?_)
    rw [hkind]
    exact List.mem_flatMap.mpr ⟨y, hy, hformula⟩
  · refine h.plain y.target ?_
    rw [broughtUp, hkind]
    exact List.mem_map_of_mem hy

theorem resources (h : e.Gentle effect) (hkind : effect.kind = .resets) :
    e.catalog.resources.Plain := by
  intro entry hentry
  refine h.plain entry.1 ?_
  rw [broughtUp, hkind]
  exact List.mem_map_of_mem hentry

end Gentle

/-- In a tame catalog tame effects are gentle. -/
theorem gentle_of_tame (h : e.catalog.Tame) (heffect : effect.Tame) : e.Gentle effect := by
  have hyields : ∀ y ∈ e.yieldsOf effect.target, y.Tame := by
    unfold yieldsOf
    split
    next item hitem =>
      exact (h.certain.of_get? hitem).tame_effectsOf (h.plain.of_get? hitem).2 .yields
    next => exact fun y hy => absurd hy List.not_mem_nil
  constructor
  · intro formula hformula
    rcases List.mem_append.mp hformula with hformula | hformula
    · exact heffect.condition (Option.mem_toList.mp hformula)
    · cases hkind : effect.kind with
      | yields | multiplies =>
        rw [hkind] at hformula
        exact heffect.expression (Option.mem_toList.mp hformula)
      | spawns =>
        rw [hkind] at hformula
        obtain ⟨y, hy, hformula⟩ := List.mem_flatMap.mp hformula
        exact (hyields y hy).certain formula hformula
      | grants | resets =>
        rw [hkind] at hformula
        exact absurd hformula List.not_mem_nil
  · intro name hname
    rw [broughtUp] at hname
    split at hname
    · exact List.mem_singleton.mp hname ▸ heffect.target
    · obtain ⟨y, hy, rfl⟩ := List.mem_map.mp hname
      exact (hyields y hy).target
    · exact (h.plain.category _).of_mem_keys hname
    · exact absurd hname List.not_mem_nil
    · exact absurd hname List.not_mem_nil

/-- **A gentle effect is blind.** -/
theorem blind_apply (heffect : e.Gentle effect) (now : UInt64) (hextra : Separable extra) :
    (e.apply now extra effect).Blind := by
  refine blind_onCondition (fun _ => heffect.condition) hextra fun vars hvars => ?_
  cases hkind : effect.kind with
  | yields =>
    exact blind_withAmount (fun _ => heffect.expression (.inl hkind)) hvars fun x _ hp =>
      hp.addResource (heffect.target hkind) x
  | multiplies =>
    refine blind_withAmount (fun _ => heffect.expression (.inr hkind)) hvars fun x p hp => ?_
    exact ⟨hp.resources, hp.buildings, hp.upgrades, hp.achievements⟩
  | grants =>
    refine (blind_change fun p hp => ?_).bind fun _ _ => blind_pure trivial
    exact ⟨hp.resources, hp.buildings, hp.upgrades, hp.achievements⟩
  | spawns =>
    simp only [spawn_eq_creditAll]
    exact blind_creditAll (heffect.yields hkind) hextra
  | resets =>
    refine (blind_change fun p hp => ?_).bind fun _ _ => blind_pure trivial
    exact plain_reset (heffect.resources hkind) effect.target hp

/-- **The effects of an item are blind**, and so is its gate. -/
theorem blind_execute (h : e.catalog.Tame) (now : UInt64) (hextra : Separable extra) {item : Item}
    (hcertain : item.Certain) (hplain : item.Plain) :
    (e.execute now extra item.block).Blind := by
  refine (Rule.blind_formulaVariables hextra).bind fun vars hvars => ?_
  refine (Rule.blind_passes hcertain.gate hvars).bind fun _ _ => ?_
  refine blind_ite ?_ (blind_pure trivial)
  refine (blind_mapM fun effect heffect => ?_).bind fun _ _ => blind_pure trivial
  exact blind_apply (gentle_of_tame h (hcertain.tame hplain effect heffect)) now hextra

/-! ## Ticks -/

theorem blind_addYields (hvars : Separable vars) {effects : List Effect}
    (heffects : ∀ effect ∈ effects, effect.Tame) {totals : Totals} (htotals : totals.Plain) :
    (addYields vars effects totals).Blind KeyMap.Plain := by
  induction effects generalizing totals with
  | nil => exact blind_pure htotals
  | cons effect rest ih =>
    have heffect := heffects effect List.mem_cons_self
    have hrest := fun effect heffect => heffects effect (List.mem_cons_of_mem _ heffect)
    unfold addYields
    refine (Rule.blind_holdsIfAny (fun _ => heffect.condition) hvars).bind fun _ _ => ?_
    refine blind_ite ?_ (ih hrest htotals)
    refine (Rule.blind_amount (fun _ => heffect.expression) hvars).bind fun amount _ => ?_
    cases amount with
    | some x => exact ih hrest (htotals.insert heffect.target _)
    | none => exact ih hrest htotals

theorem separable_countVariables (hvars : Separable vars) (owned : UInt32) :
    Separable (countVariables vars owned) :=
  (KeyMap.Plain.insert hvars (by decide) _).insert (by decide) _

theorem blind_addBuilding (h : e.catalog.Tame) (hvars : Separable vars) (key : String)
    (owned : UInt32) {totals : Totals} (htotals : totals.Plain) :
    (e.addBuilding vars key owned totals).Blind KeyMap.Plain := by
  unfold addBuilding
  refine blind_ite (blind_pure htotals) ?_
  cases hitem : e.catalog.buildings.get? key with
  | none => exact blind_pure htotals
  | some item =>
    have hcertain := h.certain.of_get? hitem
    have hplain := (h.plain.of_get? hitem).2
    have hcount := separable_countVariables hvars owned
    refine (Rule.blind_passes hcertain.gate hcount).bind fun _ _ => ?_
    exact blind_ite (blind_addYields hcount (hcertain.tame_effectsOf hplain _) htotals)
      (blind_pure htotals)

theorem blind_totalYield (h : e.catalog.Tame) : e.totalYield.Blind KeyMap.Plain :=
  blind_player.bind fun _ hp => blind_foldlM
    (fun entry _ _ htotals => blind_addBuilding h hp.separable entry.1 entry.2 htotals)
    KeyMap.plain_empty

theorem blind_addFactors (hvars : Separable vars) {effects : List Effect}
    (heffects : ∀ effect ∈ effects, effect.Tame) (totals : Totals) :
    (addFactors vars effects totals).Blind := by
  induction effects generalizing totals with
  | nil => exact blind_pure trivial
  | cons effect rest ih =>
    have hrest := fun effect heffect => heffects effect (List.mem_cons_of_mem _ heffect)
    unfold addFactors
    have heffect := heffects effect List.mem_cons_self
    refine (Rule.blind_amount (fun _ => heffect.expression) hvars).bind fun amount _ => ?_
    cases amount with
    | some x => exact ih hrest _
    | none => exact ih hrest totals

theorem blind_addUpgrade (h : e.catalog.Tame) (hvars : Separable vars) (key : String)
    (owned : Bool) (totals : Totals) : (e.addUpgrade vars key owned totals).Blind := by
  unfold addUpgrade
  split
  next item hitem =>
    exact blind_addFactors hvars
      ((h.certain.of_get? hitem).tame_effectsOf (h.plain.of_get? hitem).2 _) totals
  · exact blind_pure trivial

theorem blind_totalMultiplier (h : e.catalog.Tame) : e.totalMultiplier.Blind :=
  blind_player.bind fun _ hp => blind_foldlM
    (fun entry _ totals _ => blind_addUpgrade h hp.separable entry.1 entry.2 totals) trivial

theorem blind_expireShinies (now : UInt64) : (e.expireShinies now).Blind := by
  refine blind_player.bind fun p _ => ?_
  refine (blind_change fun q hq => ?_).bind fun _ _ => blind_pure trivial
  exact ⟨hq.resources, hq.buildings, hq.upgrades, hq.achievements⟩

/-! ## Achievements -/

section

variable {item : Item} {key : String}

theorem blind_unlock (hkey : PlainName key) {level : AchievementLevel}
    (hrewards : level.rewards.Plain) : (e.unlock item key level).Blind := by
  refine (blind_change fun p hp => ?_).bind fun _ _ => ?_
  · exact ⟨hp.resources, hp.buildings, hp.upgrades, hp.achievements.insert hkey _⟩
  · refine (blind_change fun p hp => hp.addAll hrewards).bind fun _ _ => ?_
    exact blind_player.bind fun _ _ => Rule.blind_announce e _ _

theorem blind_tryLevel (hkey : PlainName key) {level : AchievementLevel}
    (hcondition : Formula.Certain level.condition) (hrewards : level.rewards.Plain) :
    (e.tryLevel item key level).Blind := by
  refine blind_player.bind fun p hp => blind_ite (blind_pure trivial) ?_
  refine (Rule.blind_holds hcondition hp.separable).bind fun _ _ => ?_
  exact blind_ite ((blind_unlock hkey hrewards).bind fun _ _ => blind_pure trivial)
    (blind_pure trivial)

theorem blind_tryLevels (hkey : PlainName key) {levels : List AchievementLevel}
    (h : ∀ level ∈ levels, Formula.Certain level.condition ∧ level.rewards.Plain) :
    (e.tryLevels item key levels).Blind := by
  induction levels with
  | nil => exact blind_pure trivial
  | cons level rest ih =>
    obtain ⟨hcondition, hrewards⟩ := h level List.mem_cons_self
    unfold tryLevels
    refine (blind_tryLevel hkey hcondition hrewards).bind fun _ _ => ?_
    exact (ih fun level hlevel => h level (List.mem_cons_of_mem _ hlevel)).bind
      fun _ _ => blind_pure trivial

theorem blind_tryItems {items : List (String × Item)}
    (h : ∀ entry ∈ items, PlainName entry.1 ∧ entry.2.Certain ∧ entry.2.Plain) :
    (e.tryItems items).Blind := by
  induction items with
  | nil => exact blind_pure trivial
  | cons entry rest ih =>
    obtain ⟨hkey, hcertain, hplain⟩ := h entry List.mem_cons_self
    have hlevels : ∀ level ∈ levelsInOrder entry.2,
        Formula.Certain level.condition ∧ level.rewards.Plain := by
      intro level hlevel
      have hmem : level ∈ entry.2.levels := List.mem_mergeSort.mp hlevel
      exact ⟨hcertain.levels level hmem, hplain.rewards level hmem⟩
    unfold tryItems
    refine (blind_tryLevels hkey hlevels).bind fun _ _ => ?_
    exact (ih fun entry hentry => h entry (List.mem_cons_of_mem _ hentry)).bind
      fun _ _ => blind_pure trivial

theorem blind_unlockAchievements (h : e.catalog.Tame) : e.unlockAchievements.Blind := by
  refine blind_tryItems fun entry hentry => ?_
  have hget := KeyMap.mem_entries_iff.mp hentry
  obtain ⟨hkey, hplain⟩ := h.plain.of_get? hget
  exact ⟨hkey, h.certain.of_get? hget, hplain⟩

end

/-- **A tick is blind.** -/
theorem blind_tick (h : e.catalog.Tame) (now : UInt64) : (e.tick now).Blind := by
  refine (blind_totalYield h).bind fun yields hyields => ?_
  refine (blind_totalMultiplier h).bind fun multipliers _ => ?_
  refine blind_player.bind fun p _ => ?_
  have hcredited : (credits yields multipliers p).Plain := hyields.map _
  refine (blind_change fun _ hq => hq.addAll hcredited).bind fun _ _ => ?_
  refine (blind_change fun q hq => ?_).bind fun _ _ => ?_
  · exact ⟨hq.resources, hq.buildings, hq.upgrades, hq.achievements⟩
  · refine (blind_expireShinies now).bind fun _ _ => ?_
    refine (blind_unlockAchievements h).bind fun _ _ => ?_
    refine (blind_change fun q hq => ?_).bind fun _ _ => blind_pure trivial
    exact ⟨hq.resources, hq.buildings, hq.upgrades, hq.achievements⟩

end Economy

/-! ## Commands -/

namespace Action

open Rule (blind_pure blind_player blind_change)

/-- Whether an action comes to the same in worlds that are alike, and leaves them alike; a refusal
is something to come to. -/
def Blind {α : Type} (action : Action α) : Prop := Rule.Blind (α := Except EconomyError α) action

section Closure

variable {α β : Type} {P : α → Prop}

theorem blind_lift {rule : Rule α} (h : rule.Blind P) : Blind (liftM rule : Action α) :=
  fun v w hvw => ⟨congrArg Except.ok (h v w hvw).1, trivial, (h v w hvw).2.2⟩

/-- What cannot fail is followed by the rest. -/
theorem blind_lift_bind {rule : Rule α} {f : α → Action β} (h : rule.Blind P)
    (hf : ∀ a, P a → (f a).Blind) : Blind ((liftM rule : Action α) >>= f) :=
  Rule.Blind.bind h hf

/-- What fails is followed by nothing. -/
theorem blind_bind {action : Action α} {f : α → Action β} (h : action.Blind)
    (hf : ∀ a, (f a).Blind) : Blind (action >>= f) := by
  refine Rule.Blind.bind (f := ExceptT.bindCont f) h fun result _ => ?_
  cases result with
  | ok a => exact hf a
  | error refusal => exact blind_pure trivial

/-- A refusal is followed by nothing. -/
theorem blind_throw_bind (refusal : EconomyError) (f : α → Action β) :
    Blind ((throw refusal : Action α) >>= f) := blind_pure trivial

theorem blind_ok (a : α) : Blind (pure a : Action α) := blind_pure trivial

theorem blind_throw (refusal : EconomyError) : Blind (throw refusal : Action α) :=
  blind_pure trivial

end Closure

theorem blind_require (item : Item) : (require item).Blind := by
  refine blind_lift_bind blind_player fun p _ => ?_
  split
  · exact blind_ok ()
  · exact blind_throw _

theorem blind_pay (cost : KeyMap Float) : (pay cost).Blind := by
  refine blind_lift_bind blind_player fun p hp => ?_
  split
  next q hspend => exact blind_lift (blind_change fun _ _ => hp.spend hspend)
  · exact blind_throw _

end Action

namespace Economy

open IncrementalGame.Action (blind_lift_bind blind_bind blind_ok blind_throw blind_throw_bind)
open Rule (blind_player blind_change)

variable {e : Economy} {item : Item}

theorem blind_buyUpgrade (hitem : item.Plain) : (e.buyUpgrade item).Blind := by
  refine blind_lift_bind blind_player fun p _ => ?_
  split
  · exact blind_throw_bind _ _
  · refine blind_bind (Action.blind_require item) fun _ => ?_
    refine blind_bind (Action.blind_pay item.cost) fun _ => ?_
    refine blind_lift_bind (blind_change fun p hp => ?_) fun _ _ => ?_
    · exact ⟨hp.resources, hp.buildings, hp.upgrades.insert hitem.key _, hp.achievements⟩
    · refine blind_lift_bind blind_player fun _ _ => ?_
      exact blind_lift_bind (Rule.blind_announce e _ _) fun _ _ => blind_ok _

theorem blind_buyBuilding (hitem : item.Plain) : (e.buyBuilding item).Blind := by
  refine blind_bind (Action.blind_require item) fun _ => ?_
  refine blind_lift_bind blind_player fun _ _ => ?_
  refine blind_bind (Action.blind_pay _) fun _ => ?_
  refine blind_lift_bind blind_player fun _ _ => ?_
  refine blind_lift_bind (blind_change fun p hp => ?_) fun _ _ => ?_
  · exact ⟨hp.resources, hp.buildings.insert hitem.key _, hp.upgrades, hp.achievements⟩
  · refine blind_lift_bind blind_player fun _ _ => ?_
    exact blind_lift_bind (Rule.blind_announce e _ _) fun _ _ => blind_ok _

/-- **Buying is blind.** -/
theorem blind_buy (h : e.catalog.Tame) (key : String) : (e.buy key).Blind := by
  unfold buy
  split
  next upgrade hupgrade => exact blind_buyUpgrade (h.plain.of_get? hupgrade).2
  next building _ hbuilding => exact blind_buyBuilding (h.plain.of_get? hbuilding).2
  · exact blind_throw _

/-- **Selling is blind.** -/
theorem blind_sell (h : e.catalog.Tame) (key : String) : (e.sell key).Blind := by
  unfold sell
  split
  · exact blind_throw _
  next item hitem =>
    have hkey := (h.plain.of_get? hitem).1
    have hrefund : (item.refund e.settings.refundRatio).Plain :=
      (h.plainCosts _ (KeyMap.mem_entries_iff.mpr hitem)).map _
    refine blind_lift_bind blind_player fun _ _ => ?_
    simp only
    split
    · exact blind_throw_bind _ _
    · refine blind_lift_bind (blind_change fun p hp => hp.addAll hrefund) fun _ _ => ?_
      refine blind_lift_bind (blind_change fun p hp => ?_) fun _ _ => ?_
      · exact ⟨hp.resources, hp.buildings.insert hkey _, hp.upgrades, hp.achievements⟩
      · refine blind_lift_bind blind_player fun _ _ => ?_
        exact blind_lift_bind (Rule.blind_announce e _ _) fun _ _ => blind_ok _

/-- **Prestige is blind.** -/
theorem blind_performPrestige (h : e.catalog.Tame) (now : UInt64) :
    (e.performPrestige now).Blind := by
  unfold performPrestige
  split
  · exact blind_throw _
  next item hitem =>
    refine blind_bind (Action.blind_pay item.cost) fun _ => ?_
    refine blind_lift_bind (blind_change fun p hp => hp.resetProgress h.plain) fun _ _ => ?_
    refine blind_lift_bind (blind_execute h now KeyMap.plain_empty (h.certain.of_get? hitem)
      (h.plain.of_get? hitem).2) fun _ _ => ?_
    refine blind_lift_bind blind_player fun _ _ => ?_
    exact blind_lift_bind (Rule.blind_announce e _ _) fun _ _ => blind_ok _

end Economy

end IncrementalGame
