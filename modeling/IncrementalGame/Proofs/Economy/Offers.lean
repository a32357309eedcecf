import Mathlib.Tactic.Common
import IncrementalGame.Proofs.Catalog.Keyed
import IncrementalGame.Proofs.Economy.Rules

/-!
# What is paid in a tick

The sums of a tick are taken over offers: the effects of an item, behind its gate, with the names
their formulas may use.  An offer whose gate is shut pays nothing, and of the effects of an open one
those pay whose condition holds and whose formula has a value.

* The yields of buildings are offers, and what they pay is what a tick adds up
  (`totalYield_eq_paid`).
* The multipliers of upgrades are not: they are paid as if their items had no gates and they
  themselves no conditions (`totalMultiplier_eq_paid`, `Offer.bare`).

So a gate that is shut and a condition that does not hold keep a yield from being paid, and not a
multiplier (`tick_pays`, `exists_paid_behind_gate`).
-/

namespace IncrementalGame

/-! ## Payments -/

/-- What is paid to which resource, one payment after the other. -/
abbrev Payments := List (String × Float)

namespace Economy

/-- Sums to which payments are added. -/
def Totals.payAll (totals : Totals) (payments : Payments) : Totals :=
  payments.foldl (fun totals payment => totals.add payment.1 payment.2) totals

theorem Totals.payAll_append (totals : Totals) (payments others : Payments) :
    totals.payAll (payments ++ others) = (totals.payAll payments).payAll others :=
  List.foldl_append

end Economy

namespace Rule

variable {α β : Type}

/-- Lets a rule act for each member of a list, and joins what it gives. -/
def collect (f : α → Rule (List β)) : List α → Rule (List β)
  | [] => return []
  | a :: l => do
    let first ← f a
    let others ← collect f l
    return first ++ others

variable (f : α → Rule (List β)) (w : World)

theorem collect_cons (a : α) (l : List α) :
    collect f (a :: l) w =
      ((f a w).1 ++ (collect f l (f a w).2).1, (collect f l (f a w).2).2) := rfl

theorem collect_append (l m : List α) :
    collect f (l ++ m) w =
      ((collect f l w).1 ++ (collect f m (collect f l w).2).1,
        (collect f m (collect f l w).2).2) := by
  induction l generalizing w with
  | nil => rfl
  | cons a l ih => rw [List.cons_append, collect_cons, ih, collect_cons, List.append_assoc]

/-- A member that gives nothing may be left out, but for what it leads to. -/
theorem collect_append_cons {a : α} {v : World} (l m : List α)
    (h : f a (collect f l w).2 = ([], v)) :
    collect f (l ++ a :: m) w = ((collect f l w).1 ++ (collect f m v).1, (collect f m v).2) := by
  rw [collect_append, collect_cons, h, List.nil_append]

end Rule

/-! ## Offers -/

/-- Effects of an item that a sum of a tick is taken over. -/
structure Offer where
  gate : Option Gate
  /-- The names that formulas may use. -/
  vars : Formula.Variables
  effects : List Effect
  deriving DecidableEq

/-- What an effect pays: its amount, if its condition holds and its formula has a value. -/
def Effect.paid (vars : Formula.Variables) (effect : Effect) : Rule Payments := do
  if ← Rule.holdsIfAny effect.condition vars then
    return ((← Rule.amount effect vars).map fun x => (effect.target, x)).toList
  else return []

/-- What effects pay. -/
def Effect.paidAll (vars : Formula.Variables) : List Effect → Rule Payments :=
  Rule.collect (Effect.paid vars)

namespace Offer

/-- What an offer pays: what its effects pay, if its gate is passed. -/
def paid (offer : Offer) : Rule Payments := do
  if ← Rule.passes offer.gate offer.vars then Effect.paidAll offer.vars offer.effects
  else return []

/-- What offers pay. -/
def paidAll : List Offer → Rule Payments := Rule.collect paid

/-- The same effects without the gate and without conditions. -/
def bare (offer : Offer) : Offer where
  gate := none
  vars := offer.vars
  effects := offer.effects.map fun effect => { effect with condition := none }

variable {offer : Offer} {v w : World}

theorem paid_of_shut (h : Rule.passes offer.gate offer.vars w = (false, v)) :
    offer.paid w = ([], v) := by
  rw [paid, Rule.bind_apply, h]
  rfl

theorem paid_of_open (h : Rule.passes offer.gate offer.vars w = (true, v)) :
    offer.paid w = Effect.paidAll offer.vars offer.effects v := by
  rw [paid, Rule.bind_apply, h]
  rfl

theorem paid_bare (offer : Offer) (w : World) :
    offer.bare.paid w = Effect.paidAll offer.vars offer.bare.effects w := by
  have hopen : Rule.passes offer.bare.gate offer.bare.vars w = (true, w) := rfl
  exact paid_of_open hopen

end Offer

namespace Effect

variable {vars : Formula.Variables} {effect : Effect} {v w : World}

theorem paid_of_unheld (h : Rule.holdsIfAny effect.condition vars w = (false, v)) :
    effect.paid vars w = ([], v) := by
  rw [paid, Rule.bind_apply, h]
  rfl

theorem paid_of_held (h : Rule.holdsIfAny effect.condition vars w = (true, v)) :
    effect.paid vars w =
      (((Rule.amount effect vars v).1.map fun x => (effect.target, x)).toList,
        (Rule.amount effect vars v).2) := by
  rw [paid, Rule.bind_apply, h]
  rfl

end Effect

namespace Economy

/-! ## Offers of buildings -/

/-- What a building offers in a tick, if there are any of it. -/
def yieldOffer (e : Economy) (p : Player) (key : String) (owned : UInt32) : Option Offer :=
  if owned = 0 then none
  else (e.catalog.buildings.get? key).map fun item =>
    ⟨item.gate, countVariables p.formulaVariables owned, item.effectsOf .yields⟩

/-- What the buildings of a player offer in a tick. -/
def yieldOffers (e : Economy) (p : Player) : List Offer :=
  p.buildings.entries.filterMap fun b => e.yieldOffer p b.1 b.2

/-- What an upgrade offers in a tick, if it is owned. -/
def factorOffer (e : Economy) (p : Player) (key : String) (owned : Bool) : Option Offer :=
  if owned then (e.catalog.upgrades.get? key).map fun item =>
    ⟨item.gate, p.formulaVariables, item.effectsOf .multiplies⟩
  else none

/-- What the upgrades of a player offer in a tick. -/
def factorOffers (e : Economy) (p : Player) : List Offer :=
  p.upgrades.entries.filterMap fun u => e.factorOffer p u.1 u.2

/-! ## Sums of payments -/

/-- A sum over things, each of which offers at most one thing, is what the offers pay. -/
theorem foldlM_eq_paidAll {α : Type} {add : Totals → α → Rule Totals} (offer? : α → Option Offer)
    (hnone : ∀ {a}, offer? a = none → ∀ totals w, add totals a w = (totals, w))
    (hsome : ∀ {a offer}, offer? a = some offer → ∀ totals w,
      add totals a w = (totals.payAll (offer.paid w).1, (offer.paid w).2))
    (l : List α) (totals : Totals) (w : World) :
    l.foldlM add totals w =
      (totals.payAll (Offer.paidAll (l.filterMap offer?) w).1,
        (Offer.paidAll (l.filterMap offer?) w).2) := by
  induction l generalizing totals w with
  | nil => rfl
  | cons a l ih =>
    rw [List.foldlM_cons, Rule.bind_apply]
    cases hoffer : offer? a with
    | none => rw [hnone hoffer, ih, List.filterMap_cons_none hoffer]
    | some offer =>
      rw [hsome hoffer, ih, List.filterMap_cons_some hoffer, Offer.paidAll, Rule.collect_cons,
        Totals.payAll_append]

theorem addYields_eq_paidAll (vars : Formula.Variables) (effects : List Effect) (totals : Totals)
    (w : World) :
    addYields vars effects totals w =
      (totals.payAll (Effect.paidAll vars effects w).1, (Effect.paidAll vars effects w).2) := by
  induction effects generalizing totals w with
  | nil => rfl
  | cons effect rest ih =>
    rw [Effect.paidAll, Rule.collect_cons, addYields, Rule.bind_apply, Totals.payAll_append]
    rcases hheld : Rule.holdsIfAny effect.condition vars w with ⟨holds, v⟩
    cases holds with
    | false =>
      rw [Effect.paid_of_unheld hheld]
      exact ih totals v
    | true =>
      rw [Effect.paid_of_held hheld]
      simp only [if_true, Rule.bind_apply]
      rcases Rule.amount effect vars v with ⟨amount, u⟩
      cases amount with
      | none => exact ih totals u
      | some x => exact ih (totals.add effect.target x) u

theorem addFactors_eq_paidAll (vars : Formula.Variables) (effects : List Effect) (totals : Totals)
    (w : World) :
    addFactors vars effects totals w =
      addYields vars (effects.map fun effect => { effect with condition := none }) totals w := by
  induction effects generalizing totals w with
  | nil => rfl
  | cons effect rest ih =>
    rw [List.map_cons, addFactors, addYields, Rule.bind_apply, Rule.bind_apply]
    show _ = (Rule.amount effect vars >>= fun amount => _) w
    rw [Rule.bind_apply]
    rcases Rule.amount effect vars w with ⟨amount, u⟩
    cases amount with
    | none => exact ih totals u
    | some x => exact ih (totals.add effect.target x) u

variable (e : Economy) (w : World)

/-- **What the buildings of a player yield is what they offer and pay.** -/
theorem totalYield_eq_paid :
    e.totalYield w =
      (Totals.payAll KeyMap.empty (Offer.paidAll (e.yieldOffers w.player) w).1,
        (Offer.paidAll (e.yieldOffers w.player) w).2) := by
  refine foldlM_eq_paidAll (fun b : String × UInt32 => e.yieldOffer w.player b.1 b.2) ?_ ?_ _ _ w
  · intro b hoffer totals v
    rw [yieldOffer] at hoffer
    rw [addBuilding]
    split at hoffer
    next hzero => rw [if_pos hzero]; rfl
    next hzero =>
      rw [if_neg hzero, Option.map_eq_none_iff.mp hoffer]
      rfl
  · intro b offer hoffer totals v
    rw [yieldOffer] at hoffer
    split at hoffer
    next => exact absurd hoffer (by simp)
    next hzero =>
      obtain ⟨item, hitem, rfl⟩ := Option.map_eq_some_iff.mp hoffer
      rw [addBuilding, if_neg hzero, hitem]
      simp only [Rule.bind_apply]
      rcases hpasses : Rule.passes item.gate (countVariables w.player.formulaVariables b.2) v with
        ⟨passed, u⟩
      cases passed with
      | false => rw [Offer.paid_of_shut hpasses]; rfl
      | true =>
        rw [Offer.paid_of_open hpasses]
        exact addYields_eq_paidAll _ _ totals u

/-- **Multipliers of upgrades are paid without gates and conditions.** -/
theorem totalMultiplier_eq_paid :
    e.totalMultiplier w =
      (Totals.payAll KeyMap.empty
          (Offer.paidAll ((e.factorOffers w.player).map Offer.bare) w).1,
        (Offer.paidAll ((e.factorOffers w.player).map Offer.bare) w).2) := by
  rw [factorOffers, List.map_filterMap]
  refine foldlM_eq_paidAll
    (fun u : String × Bool => (e.factorOffer w.player u.1 u.2).map Offer.bare) ?_ ?_ _ _ w
  · rintro ⟨key, owned⟩ hoffer totals v
    cases owned with
    | false => rfl
    | true =>
      have hitem := Option.map_eq_none_iff.mp (Option.map_eq_none_iff.mp hoffer)
      simp only [addUpgrade, hitem]
      rfl
  · rintro ⟨key, owned⟩ offer hoffer totals v
    obtain ⟨whole, hwhole, rfl⟩ := Option.map_eq_some_iff.mp hoffer
    cases owned with
    | false => exact absurd hwhole (by simp [factorOffer])
    | true =>
      obtain ⟨item, hitem, rfl⟩ := Option.map_eq_some_iff.mp hwhole
      simp only [addUpgrade, hitem]
      rw [addFactors_eq_paidAll, addYields_eq_paidAll, Offer.paid_bare]
      rfl

/-! ## Ticks -/

end Economy

theorem Offer.paidAll_of_shut {before after : List Offer} {offer : Offer} {v w : World}
    (h : Rule.passes offer.gate offer.vars (paidAll before w).2 = (false, v)) :
    (paidAll (before ++ offer :: after) w).1 = (paidAll before w).1 ++ (paidAll after v).1 :=
  congrArg Prod.fst (Rule.collect_append_cons paid w before after (paid_of_shut h))

theorem Effect.paidAll_of_unheld {vars : Formula.Variables} {first rest : List Effect}
    {effect : Effect} {v w : World}
    (h : Rule.holdsIfAny effect.condition vars (paidAll vars first w).2 = (false, v)) :
    paidAll vars (first ++ effect :: rest) w =
      ((paidAll vars first w).1 ++ (paidAll vars rest v).1, (paidAll vars rest v).2) :=
  Rule.collect_append_cons (paid vars) w first rest (paid_of_unheld h)

namespace Economy

theorem credited_tick (e : Economy) (now : UInt64) (w : World) :
    (e.tick now w).1.credited =
      credits (e.totalYield w).1 (e.totalMultiplier (e.totalYield w).2).1 w.player := by
  have hplayer : (e.totalMultiplier (e.totalYield w).2).2.player = w.player :=
    (e.keeps_totalMultiplier _).1.trans (e.keeps_totalYield w).1
  rw [← hplayer]
  rfl

/-- **What a tick pays.**  It credits each resource with the yields that buildings pay, times the
multipliers that upgrades pay, where

* a building pays nothing if its gate is shut when it is tried, and a yield pays nothing if its
  condition does not hold or has no value when it is tried, whatever stands before and after it;
* an upgrade pays its multipliers as if it had no gate and they had no conditions. -/
theorem tick_pays (e : Economy) (now : UInt64) (w : World) :
    let yields := (Offer.paidAll (e.yieldOffers w.player) w).1
    let factors := fun v => (Offer.paidAll ((e.factorOffers w.player).map Offer.bare) v).1
    (e.totalYield w).1 = Totals.payAll .empty yields ∧
      (e.totalMultiplier w).1 = Totals.payAll .empty (factors w) ∧
      (e.tick now w).1.credited =
        credits (Totals.payAll .empty yields)
          (Totals.payAll .empty (factors (e.totalYield w).2)) w.player ∧
      ∀ before offer after, e.yieldOffers w.player = before ++ offer :: after → ∀ v,
        (Rule.passes offer.gate offer.vars (Offer.paidAll before w).2 = (false, v) →
          yields = (Offer.paidAll before w).1 ++ (Offer.paidAll after v).1) ∧
        (Rule.passes offer.gate offer.vars (Offer.paidAll before w).2 = (true, v) →
          ∀ first effect rest, offer.effects = first ++ effect :: rest → ∀ u,
            Rule.holdsIfAny effect.condition offer.vars (Effect.paidAll offer.vars first v).2 =
                (false, u) →
              let others := Effect.paidAll offer.vars rest u
              yields = (Offer.paidAll before w).1 ++
                ((Effect.paidAll offer.vars first v).1 ++ others.1 ++
                  (Offer.paidAll after others.2).1)) := by
  intro yields factors
  have hyields := e.totalYield_eq_paid w
  have hfactors := e.totalMultiplier_eq_paid (e.totalYield w).2
  rw [(e.keeps_totalYield w).1] at hfactors
  refine ⟨congrArg Prod.fst hyields, congrArg Prod.fst (e.totalMultiplier_eq_paid w), ?_, ?_⟩
  · rw [credited_tick, congrArg Prod.fst hfactors, congrArg Prod.fst hyields]
  · intro before offer after hoffers v
    have hsplit : yields = (Offer.paidAll (before ++ offer :: after) w).1 := by rw [← hoffers]
    constructor
    · intro hshut
      rw [hsplit, Offer.paidAll_of_shut hshut]
    · intro hopen first effect rest heffects u hunheld
      have hpaid := Offer.paid_of_open hopen
      rw [heffects, Effect.paidAll_of_unheld hunheld] at hpaid
      rw [hsplit, Offer.paidAll, Rule.collect_append, Rule.collect_cons]
      simp only [← Offer.paidAll.eq_1, hpaid]

/-! ### A toll -/

/-- A document of a mill behind a gate that is always shut, of a mine one of whose yields never
happens, and of a pick whose multiplier is behind a gate and a condition that never hold. -/
def tollDocument : Json := .obj [
  ("buildings", .obj [
    ("mill", .obj [("condition", .str "0"), ("effects", .arr [.str "yield:gold:5"])]),
    ("mine", .obj [("effects", .arr [
      .obj [("type", .str "yield"), ("target", .str "gold"), ("value", .num (.int 7)),
        ("condition", .str "1 / 0")],
      .str "yield:gold:2"])])]),
  ("resources", .obj [("gold", .obj [])]),
  ("upgrades", .obj [("pick", .obj [("condition", .str "0"), ("effects", .arr [
    .obj [("type", .str "multiply"), ("target", .str "gold"), ("value", .num (.int 3)),
      ("condition", .str "0")]])])])]

/-- The economy of the toll. -/
def tollEconomy : Economy := .ofDocument tollDocument

/-- One who has a mill, a mine and the pick. -/
def tollkeeper : World where
  player := { Player.start "ann" tollEconomy.catalog 0 with
    buildings := .ofList [("mill", 1), ("mine", 1)]
    upgrades := .ofList [("pick", true)] }
  raised := []
  evaluator := tollEconomy.evaluator 0
  broken := false

/-- What a building offers the tollkeeper. -/
def tollOffer (key : String) : Offer :=
  (tollEconomy.yieldOffer tollkeeper.player key 1).getD ⟨none, .empty, []⟩

/-- The effects of the mine. -/
def tollEffect (index : Nat) : Effect := (tollOffer "mine").effects.getD index default

/-- Of the three yields, one is behind the gate and the condition of another has no value; what is
paid is the third. -/
theorem tick_pays_of_tollkeeper :
    let mill := tollOffer "mill"
    let mine := tollOffer "mine"
    let yields := (Offer.paidAll (tollEconomy.yieldOffers tollkeeper.player) tollkeeper).1
    tollEconomy.yieldOffers tollkeeper.player = [mill, mine] ∧
      mine.effects = [tollEffect 0, tollEffect 1] ∧
      ∃ v u, Rule.passes mill.gate mill.vars tollkeeper = (false, v) ∧
        Rule.passes mine.gate mine.vars v = (true, v) ∧
        Rule.holdsIfAny (tollEffect 0).condition mine.vars v = (false, u) ∧
        yields = (Offer.paidAll [mine] v).1 ∧
        yields = (Effect.paidAll mine.vars [tollEffect 1] u).1 ∧
        yields = [("gold", 2.0)] := by
  obtain ⟨-, -, -, hpays⟩ := tick_pays tollEconomy 1 tollkeeper
  have hoffers : tollEconomy.yieldOffers tollkeeper.player =
      [tollOffer "mill", tollOffer "mine"] := by decide +kernel
  have heffects : (tollOffer "mine").effects = [tollEffect 0, tollEffect 1] := by decide +kernel
  have hgate : (tollOffer "mine").gate = none := by decide +kernel
  have hshut : (Rule.passes (tollOffer "mill").gate (tollOffer "mill").vars tollkeeper).1 =
      false := by decide +kernel
  have hunheld : (Rule.holdsIfAny (tollEffect 0).condition (tollOffer "mine").vars
      (Rule.passes (tollOffer "mill").gate (tollOffer "mill").vars tollkeeper).2).1 = false := by
    decide +kernel
  have hyields : (Offer.paidAll (tollEconomy.yieldOffers tollkeeper.player) tollkeeper).1 =
      [("gold", 2.0)] := by decide +kernel
  generalize tollOffer "mill" = mill, tollOffer "mine" = mine, tollEffect 0 = unheld,
    tollEffect 1 = held, tollkeeper = w, tollEconomy = e at *
  obtain ⟨v, hmill⟩ : ∃ v, Rule.passes mill.gate mill.vars w = (false, v) :=
    ⟨_, Prod.ext hshut rfl⟩
  rw [hmill] at hunheld
  have hmine : Rule.passes mine.gate mine.vars v = (true, v) := by
    rw [hgate]
    rfl
  have htried : (Offer.paidAll [mill] w).2 = v := by
    rw [Offer.paidAll, Rule.collect_cons, Offer.paid_of_shut hmill]
    rfl
  have hleft := (hpays [] mill [mine] hoffers v).1 hmill
  have hkept := (hpays [mill] mine [] hoffers v).2 (htried ▸ hmine) [] unheld [held] heffects _
    (Prod.ext hunheld rfl)
  refine ⟨hoffers, heffects, v, _, hmill, hmine, Prod.ext hunheld rfl, hleft, ?_, hyields⟩
  rw [hkept, Offer.paidAll, Rule.collect_cons, Offer.paid_of_shut hmill]
  exact List.append_nil _

/-- **A multiplier is paid behind a shut gate**, and although its own condition does not hold: the
two gold that the mine yields become six. -/
theorem exists_paid_behind_gate :
    ∃ offer effect, tollEconomy.factorOffers tollkeeper.player = [offer] ∧
      offer.effects = [effect] ∧
      let v := (tollEconomy.totalYield tollkeeper).2
      (Rule.passes offer.gate offer.vars v).1 = false ∧
        (Rule.holdsIfAny effect.condition offer.vars v).1 = false ∧
        (tollEconomy.totalYield tollkeeper).1 = .ofList [("gold", 2.0)] ∧
        (tollEconomy.totalMultiplier v).1 = .ofList [("gold", 3.0)] ∧
        (tollEconomy.tick 1 tollkeeper).1.credited = .ofList [("gold", 6.0)] := by
  refine ⟨(tollEconomy.factorOffer tollkeeper.player "pick" true).getD ⟨none, .empty, []⟩,
    ⟨.multiplies, "gold", 3.0, none, some "0"⟩, ?_⟩
  decide +kernel

end Economy

end IncrementalGame
