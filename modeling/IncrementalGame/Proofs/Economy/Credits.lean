import IncrementalGame.Proofs.Economy.Awards
import IncrementalGame.Proofs.Economy.Offers

/-!
# What a tick credits

A tick multiplies three numbers for each resource that the buildings of a player yield: the sum of
the yields, the sum of the multipliers of upgrades, and the lasting multiplier.  A resource is listed
in a sum just if something was paid to it (`Economy.Totals.get?_payAll`), so a sum that comes to zero
can be told from one that was never begun, as the lasting multiplier tells a zero from an absent one.

The payment does not tell them apart.  It takes a sum of multipliers that is no further than
`Binary64.epsilon` from zero, or that is no number, for an absent one, and credits the resource as if
no upgrade had anything to do with it (`Economy.tick_credits`).  So an upgrade that is to stop a
resource does nothing, and neither do two whose multipliers cancel
(`Economy.exists_credited_despite_zero`).
-/

namespace IncrementalGame

/-- What is paid to one resource, in order. -/
def amountsTo (resource : String) (payments : Payments) : List Float :=
  payments.filterMap fun payment => if payment.1 = resource then some payment.2 else none

theorem amountsTo_cons_self (resource : String) (x : Float) (payments : Payments) :
    amountsTo resource ((resource, x) :: payments) = x :: amountsTo resource payments :=
  List.filterMap_cons_some (if_pos rfl)

theorem amountsTo_cons_of_ne {resource other : String} (h : other ≠ resource) (x : Float)
    (payments : Payments) :
    amountsTo resource ((other, x) :: payments) = amountsTo resource payments :=
  List.filterMap_cons_none (if_neg h)

namespace Economy

/-- Payments to other resources leave the sum of a resource alone, and those to it are added one
after the other. -/
theorem Totals.getD_payAll (totals : Totals) (payments : Payments) (resource : String) :
    (totals.payAll payments).getD resource 0.0 =
      (amountsTo resource payments).foldl (· + ·) (totals.getD resource 0.0) := by
  induction payments generalizing totals with
  | nil => rfl
  | cons payment rest ih =>
    obtain ⟨other, x⟩ := payment
    rw [payAll, List.foldl_cons, ← payAll, ih]
    by_cases heq : other = resource
    · rw [heq, amountsTo_cons_self, add, KeyMap.update, KeyMap.getD_insert_self, List.foldl_cons]
    · rw [amountsTo_cons_of_ne heq, add, KeyMap.update, KeyMap.getD_insert_of_ne _ (Ne.symm heq)]

theorem Totals.isSome_get?_payAll (totals : Totals) (payments : Payments) (resource : String) :
    ((totals.payAll payments).get? resource).isSome =
      ((totals.get? resource).isSome || !(amountsTo resource payments).isEmpty) := by
  induction payments generalizing totals with
  | nil => exact (Bool.or_false _).symm
  | cons payment rest ih =>
    obtain ⟨other, x⟩ := payment
    rw [payAll, List.foldl_cons, ← payAll, ih, add, KeyMap.update]
    by_cases heq : other = resource
    · rw [heq, KeyMap.get?_insert_self, amountsTo_cons_self]
      simp
    · rw [KeyMap.get?_insert_of_ne _ (Ne.symm heq), amountsTo_cons_of_ne heq]

/-- **A resource is listed in a sum just if something was paid to it**, be it zero. -/
theorem Totals.get?_payAll (payments : Payments) (resource : String) :
    (Totals.payAll .empty payments).get? resource =
      if amountsTo resource payments = [] then none
      else some ((amountsTo resource payments).foldl (· + ·) 0.0) := by
  have hsum := Totals.getD_payAll .empty payments resource
  have hlisted := Totals.isSome_get?_payAll .empty payments resource
  rw [KeyMap.getD] at hsum
  cases hget : (Totals.payAll .empty payments).get? resource with
  | none =>
    rw [hget] at hlisted
    have hnone : amountsTo resource payments = [] := by simpa using hlisted
    rw [if_pos hnone]
  | some x =>
    rw [hget] at hlisted hsum
    have hsome : amountsTo resource payments ≠ [] := by simpa using hlisted
    rw [if_neg hsome]
    exact congrArg some hsum

/-! ## Payment -/

section

variable {sums : Totals} {resource : String}

theorem upgradeFactor_of_none (h : sums.get? resource = none) :
    upgradeFactor sums resource = 1.0 := by
  unfold upgradeFactor
  rw [h]

theorem upgradeFactor_of_far {m : Float} (h : sums.get? resource = some m)
    (hfar : Binary64.epsilon < m.abs) : upgradeFactor sums resource = m := by
  unfold upgradeFactor
  rw [h]
  exact if_pos hfar

theorem upgradeFactor_of_near {m : Float} (h : sums.get? resource = some m)
    (hnear : ¬Binary64.epsilon < m.abs) : upgradeFactor sums resource = 1.0 := by
  unfold upgradeFactor
  rw [h]
  exact if_neg hnear

end

/-- What a harvest credits is what it adds to the balances. -/
theorem resources_harvest (e : Economy) (now : UInt64) (w : World) :
    (e.harvest now w).2.player.resources =
      ((e.tick now w).1.credited.foldl Player.addResource w.player).resources := by
  have hplayer : (e.totalMultiplier (e.totalYield w).2).2.player = w.player :=
    (e.keeps_totalMultiplier _).1.trans (e.keeps_totalYield w).1
  rw [← hplayer]
  rfl

/-- **What a tick credits** to a resource is its yield, times a factor of upgrades, times its
lasting multiplier, all taken from the player before the tick, and added to its balance.  Where no
owned upgrade pays a multiplier for the resource the factor is one.  Where some do, their sum is
listed, whatever it is; it is the factor if it is further than `Binary64.epsilon` from zero, and
otherwise the factor is one as if there were none. -/
theorem tick_credits (e : Economy) (now : UInt64) (w : World) (resource : String) :
    let yields := (e.totalYield w).1
    let sums := (e.totalMultiplier (e.totalYield w).2).1
    let factors := amountsTo resource
      (Offer.paidAll ((e.factorOffers w.player).map Offer.bare) (e.totalYield w).2).1
    let credited := (e.tick now w).1.credited
    let lasting := w.player.multiplier resource
    (e.harvest now w).2.player.resources =
        (credited.foldl Player.addResource w.player).resources ∧
      sums.get? resource =
        (if factors = [] then none else some (factors.foldl (· + ·) 0.0)) ∧
      (yields.get? resource = none → credited.get? resource = none) ∧
      ∀ y, yields.get? resource = some y →
        (factors = [] → credited.get? resource = some (y * 1.0 * lasting)) ∧
        ∀ m, sums.get? resource = some m →
          (Binary64.epsilon < m.abs → credited.get? resource = some (y * m * lasting)) ∧
          (¬Binary64.epsilon < m.abs → credited.get? resource = some (y * 1.0 * lasting)) := by
  intro yields sums factors credited lasting
  have hsums : sums.get? resource =
      if factors = [] then none else some (factors.foldl (· + ·) 0.0) := by
    have hpaid := congrArg Prod.fst (e.totalMultiplier_eq_paid (e.totalYield w).2)
    rw [(e.keeps_totalYield w).1] at hpaid
    exact (congrArg (·.get? resource) hpaid).trans (Totals.get?_payAll _ resource)
  have hcredited : credited.get? resource =
      (yields.get? resource).map fun y => y * upgradeFactor sums resource * lasting := by
    rw [show credited = credits yields sums w.player from e.credited_tick now w, credits,
      KeyMap.get?_map]
  refine ⟨e.resources_harvest now w, hsums, fun hnone => ?_, fun y hy => ⟨fun hno => ?_, ?_⟩⟩
  · rw [hcredited, hnone, Option.map_none]
  · rw [if_pos hno] at hsums
    rw [hcredited, hy, Option.map_some, upgradeFactor_of_none hsums]
  · intro m hm
    rw [hcredited, hy, Option.map_some]
    constructor
    · intro hfar
      rw [upgradeFactor_of_far hm hfar]
    · intro hnear
      rw [upgradeFactor_of_near hm hnear]

/-! ### A drought -/

/-- An item with one effect of a fixed amount. -/
def effectDocument (kind target : String) (amount : Int) : Json := .obj [("effects", .arr [
  .obj [("type", .str kind), ("target", .str target), ("value", .num (.int amount))]])]

/-- A document of a mine and a well, of an upgrade that doubles what the mine yields, and of two
whose multipliers of water cancel. -/
def droughtDocument : Json := .obj [
  ("buildings", .obj [
    ("mine", effectDocument "yield" "gold" 3), ("well", effectDocument "yield" "water" 5)]),
  ("resources", .obj [("gold", .obj []), ("water", .obj [])]),
  ("upgrades", .obj [
    ("cart", effectDocument "multiply" "gold" 2),
    ("curse", effectDocument "multiply" "water" (-4)),
    ("pump", effectDocument "multiply" "water" 4)])]

/-- The economy of the drought. -/
def droughtEconomy : Economy := .ofDocument droughtDocument

/-- One who has the mine, the well and all upgrades. -/
def waterCarrier : World where
  player := { Player.start "ann" droughtEconomy.catalog 0 with
    buildings := .ofList [("mine", 1), ("well", 1)]
    upgrades := .ofList [("cart", true), ("curse", true), ("pump", true)] }
  raised := []
  evaluator := droughtEconomy.evaluator 0
  broken := false

/-- Gold is credited by the sum of its multipliers, which is two, and water as if there were no
multipliers of it, as their sum is zero. -/
theorem tick_credits_of_waterCarrier :
    let v := (droughtEconomy.totalYield waterCarrier).2
    let yields := (droughtEconomy.totalYield waterCarrier).1
    let sums := (droughtEconomy.totalMultiplier v).1
    let credited := (droughtEconomy.tick 1 waterCarrier).1.credited
    (yields.get? "gold" = some 3.0 ∧ sums.get? "gold" = some 2.0 ∧
        credited.get? "gold" = some (3.0 * 2.0 * 1.0)) ∧
      yields.get? "water" = some 5.0 ∧ sums.get? "water" = some 0.0 ∧
        credited.get? "water" = some (5.0 * 1.0 * 1.0) := by
  intro v yields sums credited
  obtain ⟨-, -, -, hgold⟩ := tick_credits droughtEconomy 1 waterCarrier "gold"
  obtain ⟨-, -, -, hwater⟩ := tick_credits droughtEconomy 1 waterCarrier "water"
  have hlasting : waterCarrier.player.multiplier "gold" = 1.0 ∧
      waterCarrier.player.multiplier "water" = 1.0 := by decide +kernel
  rw [hlasting.1] at hgold
  rw [hlasting.2] at hwater
  have hyields : yields = .ofList [("gold", 3.0), ("water", 5.0)] := by decide +kernel
  have hsums : sums = .ofList [("gold", 2.0), ("water", 0.0)] := by decide +kernel
  have hmined : yields.get? "gold" = some 3.0 := by rw [hyields]; decide +kernel
  have hdrawn : yields.get? "water" = some 5.0 := by rw [hyields]; decide +kernel
  have hdoubled : sums.get? "gold" = some 2.0 := by rw [hsums]; decide +kernel
  have hcancelled : sums.get? "water" = some 0.0 := by rw [hsums]; decide +kernel
  exact ⟨⟨hmined, hdoubled, ((hgold 3.0 hmined).2 2.0 hdoubled).1 (by decide +kernel)⟩,
    hdrawn, hcancelled, ((hwater 5.0 hdrawn).2 0.0 hcancelled).2 (by decide +kernel)⟩

/-- **A sum of zero is credited as one**: owned upgrades pay multipliers for water, which sum up to
zero, and five water are credited, not none. -/
theorem exists_credited_despite_zero :
    ∃ y m, (droughtEconomy.totalYield waterCarrier).1.get? "water" = some y ∧
      (droughtEconomy.totalMultiplier (droughtEconomy.totalYield waterCarrier).2).1.get? "water" =
        some m ∧
      y * m * waterCarrier.player.multiplier "water" = 0.0 ∧
      (droughtEconomy.tick 1 waterCarrier).1.credited.get? "water" = some 5.0 :=
  ⟨5.0, 0.0, by decide +kernel⟩

end Economy

end IncrementalGame
