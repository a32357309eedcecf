import IncrementalGame.Proofs.Economy.Offers

/-!
# What a spawn does

A spawn carries out the yields of its shiny, one after the other, each of which finds the player as
the ones before it have left him (`Economy.spawn_eq_creditAll`).  What becomes of one of them is said
by three rules (`Effect.Pays`): it is skipped if its condition does not hold, it fails if its formula
has no value, and else the player receives its amount.  The rules together, in the order in which the
yields are declared, are all that a spawn does (`Economy.spawn_pays`).

Nothing of the shiny but its yields is looked at.  In particular its gate is never tried: a list of
effects that stands in an item tries the gate of this item, but a spawn comes to the yields of
another item by a way of its own.  So a shiny behind a gate that is shut pays like any other
(`Economy.exists_spawned_behind_gate`).
-/

namespace IncrementalGame

/-- A player who has received payments, one after the other. -/
def Player.receive (p : Player) (payments : Payments) : Player :=
  payments.foldl (fun p payment => p.addResource payment.1 payment.2) p

theorem Player.receive_append (p : Player) (payments others : Payments) :
    p.receive (payments ++ others) = (p.receive payments).receive others := List.foldl_append

/-! ## Yields -/

namespace Effect

/-- What becomes of a yield that is tried in a world, what it pays, and which world it leads to.  Its
formulas use the names of the player as he is then, and some more. -/
inductive Pays (extra : Formula.Variables) (effect : Effect) (w : World) :
    Outcome → Payments → World → Prop where
  | skipped {v : World} :
    Rule.holdsIfAny effect.condition (w.player.formulaVariables.overlay extra) w = (false, v) →
    Pays extra effect w .skipped [] v
  | failed {v u : World} :
    Rule.holdsIfAny effect.condition (w.player.formulaVariables.overlay extra) w = (true, v) →
    Rule.amount effect (w.player.formulaVariables.overlay extra) v = (none, u) →
    Pays extra effect w .failed [] u
  | applied {v u : World} {x : Float} :
    Rule.holdsIfAny effect.condition (w.player.formulaVariables.overlay extra) w = (true, v) →
    Rule.amount effect (w.player.formulaVariables.overlay extra) v = (some x, u) →
    Pays extra effect w .applied [(effect.target, x)]
      { u with player := u.player.addResource effect.target x }

/-- What becomes of yields that are tried one after the other. -/
inductive PayAll (extra : Formula.Variables) :
    List Effect → World → List Outcome → Payments → World → Prop where
  | nil (w : World) : PayAll extra [] w [] [] w
  | cons {effect : Effect} {rest : List Effect} {w v u : World} {outcome : Outcome}
      {outcomes : List Outcome} {first others : Payments} :
    Pays extra effect w outcome first v → PayAll extra rest v outcomes others u →
    PayAll extra (effect :: rest) w (outcome :: outcomes) (first ++ others) u

variable {extra : Formula.Variables} {effect : Effect} {w v : World} {payments : Payments}

/-- The player has received what a yield has paid. -/
theorem Pays.player {outcome : Outcome} (h : effect.Pays extra w outcome payments v) :
    v.player = w.player.receive payments := by
  cases h with
  | skipped hheld => exact (Rule.keeps_holdsIfAny _ _).player_eq hheld
  | failed hheld hamount =>
    exact ((Rule.keeps_amount _ _).player_eq hamount).trans
      ((Rule.keeps_holdsIfAny _ _).player_eq hheld)
  | applied hheld hamount =>
    have hplayer := ((Rule.keeps_amount _ _).player_eq hamount).trans
      ((Rule.keeps_holdsIfAny _ _).player_eq hheld)
    show Player.addResource _ effect.target _ = Player.addResource w.player effect.target _
    rw [hplayer]

theorem PayAll.player {yields : List Effect} {outcomes : List Outcome}
    (h : PayAll extra yields w outcomes payments v) : v.player = w.player.receive payments := by
  induction h with
  | nil => rfl
  | cons hfirst _ ih => rw [ih, hfirst.player, Player.receive_append]

end Effect

namespace Economy

/-- A condition decides between an effect and nothing. -/
theorem onCondition_apply (effect : Effect) (extra : Formula.Variables)
    (act : Formula.Variables → Rule Outcome) (w : World) :
    let vars := w.player.formulaVariables.overlay extra
    let tried := Rule.holdsIfAny effect.condition vars w
    onCondition effect extra act w = if tried.1 then act vars tried.2 else (.skipped, tried.2) := by
  intro vars tried
  show (if tried.1 then act vars else pure .skipped : Rule Outcome) tried.2 = _
  split <;> rfl

/-- What has no amount changes nothing. -/
theorem withAmount_apply (effect : Effect) (vars : Formula.Variables) (f : Float → Player → Player)
    (w : World) :
    let amount := Rule.amount effect vars w
    withAmount effect vars f w =
      match amount.1 with
      | some x => (.applied, { amount.2 with player := f x amount.2.player })
      | none => (.failed, amount.2) := by
  intro amount
  rw [withAmount, Rule.bind_apply]
  show (match amount.1 with
    | some x => do
      Rule.change (f x)
      return .applied
    | none => return .failed : Rule Outcome) amount.2 = _
  cases amount.1 <;> rfl

/-- **To credit a yield is to follow the rules.** -/
theorem pays_credit (effect : Effect) (extra : Formula.Variables) (w : World) :
    ∃ payments, effect.Pays extra w (credit effect extra w).1 payments (credit effect extra w).2 := by
  rw [credit, onCondition_apply]
  rcases hheld : Rule.holdsIfAny effect.condition (w.player.formulaVariables.overlay extra) w with
    ⟨holds, v⟩
  cases holds with
  | false => exact ⟨[], .skipped hheld⟩
  | true =>
    simp only [if_true]
    rw [withAmount_apply]
    rcases hamount : Rule.amount effect (w.player.formulaVariables.overlay extra) v with ⟨amount, u⟩
    cases amount with
    | none => exact ⟨[], .failed hheld hamount⟩
    | some x => exact ⟨_, .applied hheld hamount⟩

theorem payAll_mapM_credit (yields : List Effect) (extra : Formula.Variables) (w : World) :
    let done := yields.mapM (fun effect => credit effect extra) w
    ∃ payments, Effect.PayAll extra yields w done.1 payments done.2 := by
  induction yields generalizing w with
  | nil => exact ⟨[], .nil w⟩
  | cons effect rest ih =>
    obtain ⟨first, hfirst⟩ := pays_credit effect extra w
    obtain ⟨others, hothers⟩ := ih (credit effect extra w).2
    rw [Rule.mapM_cons_apply]
    exact ⟨first ++ others, .cons hfirst hothers⟩

/-! ## Spawns -/

/-- The yields of a shiny; there are none of an unknown one. -/
def yieldsOf (e : Economy) (shiny : String) : List Effect :=
  match e.catalog.shinies.get? shiny with
  | some item => item.effectsOf .yields
  | none => []

/-- Credits yields one after the other, and fails if one of them does. -/
def creditAll (yields : List Effect) (extra : Formula.Variables) : Rule Outcome := do
  let outcomes ← yields.mapM fun effect => credit effect extra
  return if outcomes.contains .failed then .failed else .applied

theorem creditAll_apply (yields : List Effect) (extra : Formula.Variables) (w : World) :
    let done := yields.mapM (fun effect => credit effect extra) w
    creditAll yields extra w =
      (if done.1.contains .failed then .failed else .applied, done.2) := rfl

/-- A spawn looks at nothing of a shiny but its yields. -/
theorem spawn_eq_creditAll (e : Economy) (shiny : String) (extra : Formula.Variables) :
    e.spawn shiny extra = creditAll (e.yieldsOf shiny) extra := by
  unfold spawn yieldsOf
  cases e.catalog.shinies.get? shiny with
  | none => rfl
  | some item => rfl

theorem apply_of_spawns (e : Economy) (now : UInt64) (extra : Formula.Variables) {effect : Effect}
    (h : effect.kind = .spawns) :
    e.apply now extra effect =
      onCondition effect extra fun _ => creditAll (e.yieldsOf effect.target) extra := by
  rw [apply, h]
  simp only [spawn_eq_creditAll]

/-- **What a spawn pays.**  Where its own condition does not hold it is skipped.  Else the yields of
its shiny are tried in the order in which they are declared, and the player receives what those pay
whose conditions hold; it fails if one of them does.  Two catalogs in which the shiny has the same
yields make no difference, whatever gates stand before them. -/
theorem spawn_pays (e : Economy) (now : UInt64) (extra : Formula.Variables) (effect : Effect)
    (hkind : effect.kind = .spawns) (w : World) :
    let tried := Rule.holdsIfAny effect.condition (w.player.formulaVariables.overlay extra) w
    (tried.1 = false →
        e.apply now extra effect w = (.skipped, tried.2) ∧ tried.2.player = w.player) ∧
      (tried.1 = true → ∃ outcomes payments v,
        Effect.PayAll extra (e.yieldsOf effect.target) tried.2 outcomes payments v ∧
          v.player = w.player.receive payments ∧
          e.apply now extra effect w =
            (if outcomes.contains .failed then .failed else .applied, v)) ∧
      ∀ other : Economy, other.yieldsOf effect.target = e.yieldsOf effect.target →
        other.apply now extra effect = e.apply now extra effect := by
  intro tried
  have hplayer : tried.2.player = w.player := (Rule.keeps_holdsIfAny _ _ w).1
  rw [e.apply_of_spawns now extra hkind, onCondition_apply]
  refine ⟨fun hunheld => ?_, fun hheld => ?_, fun other hyields => ?_⟩
  · rw [if_neg (by rw [hunheld]; exact Bool.false_ne_true)]
    exact ⟨rfl, hplayer⟩
  · obtain ⟨payments, hpays⟩ := payAll_mapM_credit (e.yieldsOf effect.target) extra tried.2
    rw [if_pos hheld, creditAll_apply]
    exact ⟨_, payments, _, hpays, hplayer ▸ hpays.player, rfl⟩
  · rw [other.apply_of_spawns now extra hkind, hyields]

/-! ### A night sky -/

/-- A yield of a fixed amount. -/
def yieldDocument (resource : String) (amount : Int) : Json := .obj [
  ("type", .str "yield"), ("target", .str resource), ("value", .num (.int amount))]

/-- A document of a comet behind a condition that never holds and of a meteor behind a chance of
nothing.  One yield of the comet has no value, another one has a condition without a value, and the
last one looks at what the others have brought. -/
def skyDocument : Json := .obj [
  ("resources", .obj [("dust", .obj []), ("gold", .obj [])]),
  ("shinies", .obj [
    ("comet", .obj [("condition", .str "gold > 1000"), ("effects", .arr [
      .str "yield:dust:1 / gold",
      yieldDocument "gold" 10,
      .obj [("type", .str "yield"), ("target", .str "dust"), ("value", .num (.int 3)),
        ("condition", .str "1 / 0")],
      .str "yield:dust:gold + 1"])]),
    ("meteor", .obj [("chance", .num (.int 0)), ("effects", .arr [yieldDocument "gold" 5])])])]

/-- The economy of the night sky. -/
def skyEconomy : Economy := .ofDocument skyDocument

/-- One who has nothing yet. -/
def stargazer : World where
  player := Player.start "ann" skyEconomy.catalog 0
  raised := []
  evaluator := skyEconomy.evaluator 0
  broken := false

/-- The effect that spawns a shiny. -/
def spawnOf (shiny : String) : Effect := ⟨.spawns, shiny, 0.0, none, none⟩

/-- Of the four yields of the comet one fails, one is skipped, and two pay. -/
theorem spawn_pays_of_stargazer :
    (spawnOf "comet").kind = .spawns ∧
      ∃ outcomes payments v,
        Effect.PayAll .empty (skyEconomy.yieldsOf "comet") stargazer outcomes payments v ∧
          v.player = stargazer.player.receive payments ∧
          skyEconomy.apply 1 .empty (spawnOf "comet") stargazer =
            (if outcomes.contains .failed then .failed else .applied, v) ∧
          v.player.resource "gold" = 10 ∧ v.player.resource "dust" = 11 := by
  have hpays := (spawn_pays skyEconomy 1 .empty (spawnOf "comet") rfl stargazer).2.1 rfl
  obtain ⟨outcomes, payments, v, hall, hplayer, happly⟩ := hpays
  have hbalances : (skyEconomy.apply 1 .empty (spawnOf "comet") stargazer).2.player.resource
        "gold" = 10 ∧
      (skyEconomy.apply 1 .empty (spawnOf "comet") stargazer).2.player.resource "dust" = 11 := by
    decide +kernel
  rw [happly] at hbalances
  exact ⟨rfl, outcomes, payments, v, hall, hplayer, happly, hbalances⟩

/-- **A shiny pays behind a shut gate**, be it a condition that does not hold or a chance of
nothing. -/
theorem exists_spawned_behind_gate :
    (∃ item, skyEconomy.catalog.shinies.get? "comet" = some item ∧
        (Rule.passes item.gate stargazer.player.formulaVariables stargazer).1 = false) ∧
      (skyEconomy.apply 1 .empty (spawnOf "comet") stargazer).2.player ≠ stargazer.player ∧
      (∃ item, skyEconomy.catalog.shinies.get? "meteor" = some item ∧
        (Rule.passes item.gate stargazer.player.formulaVariables stargazer).1 = false) ∧
      (skyEconomy.apply 1 .empty (spawnOf "meteor") stargazer).2.player ≠ stargazer.player := by
  have hshut : ∀ shiny ∈ ["comet", "meteor"],
      ((skyEconomy.catalog.shinies.get? shiny).map fun item =>
        (Rule.passes item.gate stargazer.player.formulaVariables stargazer).1) = some false := by
    decide +kernel
  have hexists : ∀ shiny ∈ ["comet", "meteor"], ∃ item,
      skyEconomy.catalog.shinies.get? shiny = some item ∧
        (Rule.passes item.gate stargazer.player.formulaVariables stargazer).1 = false :=
    fun shiny hshiny => Option.map_eq_some_iff.mp (hshut shiny hshiny)
  exact ⟨hexists "comet" (by simp), by decide +kernel, hexists "meteor" (by simp),
    by decide +kernel⟩

end Economy

end IncrementalGame
