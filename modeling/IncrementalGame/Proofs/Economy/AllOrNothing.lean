import IncrementalGame.Proofs.Economy.EventLog

/-!
# All or nothing

A command that is refused has changed nothing: not the player, not the events, not the evaluator.
A command that is not refused has done all it is for, and no more.

* `Paid` --- a cost has been taken, each resource in full, and the other balances are as they were.
  The check before a payment looks at all resources before any is touched, and each of them occurs
  once, so what was checked is what is taken (`paid_of_spend`).
* `Bought` --- a cost was paid for one upgrade or one building.
* `Sold` --- one building is gone, and the accounts of what it brings back have changed.
-/

namespace IncrementalGame

/-! ## Payments -/

/-- Whether a cost has been taken from balances, none of it short, and nothing else has changed. -/
structure Paid (cost : KeyMap Float) (before after : KeyMap UInt64) : Prop where
  /-- What is due is gone, to the unit. -/
  taken : ∀ resource amount, cost.get? resource = some amount →
    (after.getD resource 0).toNat + (costUnits amount).toNat = (before.getD resource 0).toNat
  /-- No balance comes or goes. -/
  listed : ∀ resource, (after.get? resource).isSome = (before.get? resource).isSome
  /-- What is not due is as it was. -/
  untouched : ∀ resource, cost.get? resource = none → after.get? resource = before.get? resource

namespace Player

variable (p : Player)

theorem get?_removeResource (key : String) (amount : Float) (resource : String) :
    (p.removeResource key amount).resources.get? resource =
      (p.resources.get? resource).map fun balance =>
        if resource = key then Saturating.sub64 balance (costUnits amount) else balance := by
  unfold removeResource
  by_cases heq : resource = key
  · subst heq
    cases hbalance : p.resources.get? resource with
    | none => simpa using hbalance
    | some balance => simp
  · cases p.resources.get? key with
    | none => simp [heq]
    | some balance => simp [heq, KeyMap.get?_insert_of_ne _ heq]

/-- Each balance is debited once, with what is due of its resource. -/
theorem get?_debit (cost : KeyMap Float) (resource : String) :
    (p.debit cost).resources.get? resource =
      (p.resources.get? resource).map fun balance =>
        (cost.get? resource).elim balance fun amount =>
          Saturating.sub64 balance (costUnits amount) := by
  obtain ⟨entries, hascending⟩ := cost
  show (entries.foldl (fun p entry => p.removeResource entry.1 entry.2) p).resources.get? resource =
    (p.resources.get? resource).map fun balance =>
      (KeyMap.lookup resource entries).elim balance fun amount =>
        Saturating.sub64 balance (costUnits amount)
  induction entries generalizing p with
  | nil => simp [KeyMap.lookup]
  | cons entry entries ih =>
    obtain ⟨key, amount⟩ := entry
    rw [List.foldl_cons, ih _ hascending.of_cons, get?_removeResource, Option.map_map]
    by_cases heq : key = resource
    · subst heq
      -- the keys ascend, so the resource is not due again
      have hlater : KeyMap.lookup key entries = none :=
        KeyMap.lookup_eq_none_of_lt fun later hmem => List.rel_of_pairwise_cons hascending hmem
      simp [KeyMap.lookup, hlater, Function.comp_def]
    · simp [KeyMap.lookup, heq, Ne.symm heq, Function.comp_def]

/-- To debit a cost changes nothing but balances. -/
theorem exists_debit_eq (cost : KeyMap Float) :
    ∃ resources, p.debit cost = { p with resources := resources } := by
  unfold debit KeyMap.foldl
  induction cost.entries generalizing p with
  | nil => exact ⟨p.resources, rfl⟩
  | cons entry entries ih =>
    obtain ⟨first, hfirst⟩ := p.exists_removeResource_eq entry.1 entry.2
    obtain ⟨last, hlast⟩ := ih (p.removeResource entry.1 entry.2)
    exact ⟨last, hlast.trans (by rw [hfirst])⟩

variable {p} {q : Player} {cost : KeyMap Float}

/-- **What can be spent is spent to the unit.** -/
theorem paid_of_spend (h : p.spend cost = .ok q) :
    Paid cost p.resources q.resources ∧ q = { p with resources := q.resources } := by
  unfold spend at h
  split at h
  next => exact absurd h (by simp)
  next hcovered =>
    obtain rfl : p.debit cost = q := Except.ok.inj h
    refine ⟨⟨?_, ?_, ?_⟩, ?_⟩
    · intro resource amount hdue
      have hle : ¬p.resource resource < costUnits amount := by
        have hentry := List.find?_eq_none.mp hcovered _ (KeyMap.mem_entries_iff.mpr hdue)
        simpa using hentry
      rw [Player.resource, KeyMap.getD, UInt64.lt_iff_toNat_lt] at hle
      rw [KeyMap.getD, KeyMap.getD, get?_debit, hdue]
      cases hbalance : p.resources.get? resource with
      | none =>
        rw [hbalance, Option.getD_none] at hle
        have hzero : (0 : UInt64).toNat = 0 := rfl
        simp only [Option.map_none, Option.getD_none]
        omega
      | some balance =>
        rw [hbalance, Option.getD_some] at hle
        simp only [Option.map_some, Option.getD_some, Option.elim_some, Saturating.toNat_sub64]
        omega
    · intro resource
      rw [get?_debit, Option.isSome_map]
    · intro resource hfree
      rw [get?_debit, hfree]
      simp
    · obtain ⟨resources, hdebit⟩ := p.exists_debit_eq cost
      rw [hdebit]

end Player

/-! ## Credits -/

/-- Whether nothing has changed but the accounts of some resources: their balances, what they carry,
and their statistics. -/
structure Credited (amounts : KeyMap Float) (p q : Player) : Prop where
  /-- The accounts of other resources are as they were. -/
  untouched : ∀ resource, amounts.get? resource = none →
    q.resources.get? resource = p.resources.get? resource ∧
      q.carry.get? resource = p.carry.get? resource ∧
      q.stats.get? resource = p.stats.get? resource
  /-- Only accounts have changed. -/
  accounts : q = { p with resources := q.resources, carry := q.carry, stats := q.stats }

namespace Player

theorem get?_addResource_of_ne (p : Player) {key resource : String} (h : resource ≠ key)
    (amount : Float) :
    (p.addResource key amount).resources.get? resource = p.resources.get? resource ∧
      (p.addResource key amount).carry.get? resource = p.carry.get? resource ∧
      (p.addResource key amount).stats.get? resource = p.stats.get? resource := by
  rcases p.addResource_cases key amount with hadd | hadd | ⟨-, -, hadd⟩
  · rw [hadd]
    exact ⟨rfl, rfl, rfl⟩
  · obtain ⟨resources, hremove⟩ := p.exists_removeResource_eq key (-amount)
    have hget := p.get?_removeResource key (-amount) resource
    rw [hadd]
    refine ⟨?_, ?_, ?_⟩
    · simpa [h] using hget
    · rw [hremove]
    · rw [hremove]
  · rw [hadd]
    exact ⟨KeyMap.get?_insert_of_ne _ h _, KeyMap.get?_insert_of_ne _ h _,
      KeyMap.get?_insert_of_ne _ h _⟩

/-- To add an amount changes only accounts. -/
theorem exists_addResource_eq (p : Player) (key : String) (amount : Float) :
    ∃ resources carry stats, p.addResource key amount =
      { p with resources := resources, carry := carry, stats := stats } := by
  rcases p.addResource_cases key amount with hadd | hadd | ⟨-, -, hadd⟩
  · exact ⟨p.resources, p.carry, p.stats, hadd⟩
  · obtain ⟨resources, hremove⟩ := p.exists_removeResource_eq key (-amount)
    exact ⟨resources, p.carry, p.stats, hadd.trans hremove⟩
  · exact ⟨_, _, _, hadd⟩

theorem exists_addAll_eq (p : Player) (amounts : KeyMap Float) :
    ∃ resources carry stats, amounts.foldl addResource p =
      { p with resources := resources, carry := carry, stats := stats } := by
  unfold KeyMap.foldl
  induction amounts.entries generalizing p with
  | nil => exact ⟨p.resources, p.carry, p.stats, rfl⟩
  | cons entry entries ih =>
    obtain ⟨resources, carry, stats, hfirst⟩ := p.exists_addResource_eq entry.1 entry.2
    obtain ⟨resources', carry', stats', hlast⟩ := ih (p.addResource entry.1 entry.2)
    exact ⟨resources', carry', stats', hlast.trans (by rw [hfirst])⟩

/-- **Amounts that are added change only the accounts of their resources.** -/
theorem credited_addAll (p : Player) (amounts : KeyMap Float) :
    Credited amounts p (amounts.foldl addResource p) := by
  constructor
  · intro resource hfree
    have hothers : ∀ entry ∈ amounts.entries, resource ≠ entry.1 := by
      rintro entry hentry rfl
      exact absurd (hfree.symm.trans (KeyMap.mem_entries_iff.mp hentry)) (by simp)
    clear hfree
    unfold KeyMap.foldl
    generalize amounts.entries = entries at hothers ⊢
    induction entries generalizing p with
    | nil => exact ⟨rfl, rfl, rfl⟩
    | cons entry entries ih =>
      obtain ⟨hne, hothers⟩ := List.forall_mem_cons.mp hothers
      obtain ⟨hresources, hcarry, hstats⟩ := ih (p.addResource entry.1 entry.2) hothers
      obtain ⟨hresources', hcarry', hstats'⟩ := p.get?_addResource_of_ne hne entry.2
      exact ⟨hresources.trans hresources', hcarry.trans hcarry', hstats.trans hstats'⟩
  · obtain ⟨resources, carry, stats, hall⟩ := p.exists_addAll_eq amounts
    rw [hall]

end Player

/-! ## Commands -/

/-- What buying makes of a player: its cost is paid, and there is one upgrade or one building more;
apart from the log that is all. -/
structure Bought (key : String) (purchase : Purchase) (p q : Player) : Prop where
  asked : purchase.key = key
  paid : Paid purchase.cost p.resources q.resources
  /-- It is owned, and nothing else has changed. -/
  owned :
    q = { p with
      resources := q.resources
      upgrades := p.upgrades.insert key true
      log := q.log } ∨
    purchase.owned = Saturating.add32 (p.building key) 1 ∧
      q = { p with
        resources := q.resources
        buildings := p.buildings.insert key purchase.owned
        log := q.log }

/-- What selling makes of a player: there is one building less, and the accounts of what it brings
back have changed; apart from the log that is all. -/
structure Sold (key : String) (refund : KeyMap Float) (p q : Player) : Prop where
  /-- There was one to be sold. -/
  owned : p.building key ≠ 0
  /-- The refund is credited, and the building gone. -/
  credited : Credited refund
    { p with buildings := p.buildings.insert key (p.building key - 1), log := q.log } q

namespace Economy

variable (e : Economy) (w : World) (key : String)

theorem bought_of_buyUpgrade {item : Item} (hkey : item.key = key) {purchase : Purchase} {v : World}
    (h : e.buyUpgrade item w = (.ok purchase, v)) : Bought key purchase w.player v.player := by
  rcases e.buyUpgrade_cases item w with ⟨refusal, hrefused⟩ | ⟨q, -, -, hspend, hok⟩
  · exact absurd h (Fallible.ne_ok_of_error hrefused)
  · obtain ⟨hpurchase, rfl⟩ := Prod.mk.inj (hok.symm.trans h)
    obtain rfl := Except.ok.inj hpurchase
    obtain ⟨hpaid, hq⟩ := Player.paid_of_spend hspend
    refine ⟨hkey, hpaid, .inl ?_⟩
    rw [hq, hkey]
    rfl

theorem bought_of_buyBuilding {item : Item} (hkey : item.key = key) {purchase : Purchase}
    {v : World} (h : e.buyBuilding item w = (.ok purchase, v)) :
    Bought key purchase w.player v.player := by
  rcases e.buyBuilding_cases item w with ⟨refusal, hrefused⟩ | ⟨q, -, hspend, hok⟩
  · exact absurd h (Fallible.ne_ok_of_error hrefused)
  · obtain ⟨hpurchase, rfl⟩ := Prod.mk.inj (hok.symm.trans h)
    obtain rfl := Except.ok.inj hpurchase
    obtain ⟨hpaid, hq⟩ := Player.paid_of_spend hspend
    refine ⟨hkey, hpaid, .inr ⟨?_, ?_⟩⟩
    · rw [hq, hkey]
      rfl
    · rw [hq, hkey]
      rfl

variable {e w key}

/-- What is bought is what was asked for, since every item is listed under its own key. -/
theorem bought_of_buy (hkeyed : e.catalog.Keyed) {purchase : Purchase} {v : World}
    (h : e.buy key w = (.ok purchase, v)) : Bought key purchase w.player v.player := by
  rcases e.buy_cases key with ⟨upgrade, hlisted, hbuy⟩ | ⟨building, -, hlisted, hbuy⟩ | hbuy
  · rw [hbuy] at h
    exact e.bought_of_buyUpgrade w key (hkeyed _ _ _ hlisted).2 h
  · rw [hbuy] at h
    exact e.bought_of_buyBuilding w key (hkeyed _ _ _ hlisted).2 h
  · rw [hbuy, Fallible.throw_apply] at h
    exact absurd (congrArg Prod.fst h) (by simp)

theorem eq_of_buy_error {refusal : EconomyError} {v : World}
    (h : e.buy key w = (.error refusal, v)) : v = w := by
  rcases e.buy_cases key with ⟨upgrade, -, hbuy⟩ | ⟨building, -, -, hbuy⟩ | hbuy
  · rw [hbuy] at h
    rcases e.buyUpgrade_cases upgrade w with ⟨_, hrefused⟩ | ⟨q, -, -, -, hok⟩
    · exact Fallible.state_unique h hrefused
    · exact absurd hok (Fallible.ne_ok_of_error h)
  · rw [hbuy] at h
    rcases e.buyBuilding_cases building w with ⟨_, hrefused⟩ | ⟨q, -, -, hok⟩
    · exact Fallible.state_unique h hrefused
    · exact absurd hok (Fallible.ne_ok_of_error h)
  · rw [hbuy, Fallible.throw_apply] at h
    exact (congrArg Prod.snd h).symm

theorem eq_of_sell_error {refusal : EconomyError} {v : World}
    (h : e.sell key w = (.error refusal, v)) : v = w := by
  rcases e.sell_cases w key with ⟨_, hrefused⟩ | ⟨item, p, -, -, -, hok⟩
  · exact Fallible.state_unique h hrefused
  · exact absurd hok (Fallible.ne_ok_of_error h)

theorem sold_of_sell {refund : KeyMap Float} {v : World} (h : e.sell key w = (.ok refund, v)) :
    Sold key refund w.player v.player := by
  rcases e.sell_cases w key with ⟨_, hrefused⟩ | ⟨item, p, -, howned, hp, hok⟩
  · exact absurd h (Fallible.ne_ok_of_error hrefused)
  · obtain ⟨hrefund, rfl⟩ := Prod.mk.inj (hok.symm.trans h)
    obtain rfl := Except.ok.inj hrefund
    have hcredited := w.player.credited_addAll (item.refund e.settings.refundRatio)
    rw [← hp] at hcredited
    refine ⟨howned, hcredited.untouched, ?_⟩
    obtain ⟨resources, carry, stats, hall⟩ :=
      w.player.exists_addAll_eq (item.refund e.settings.refundRatio)
    rw [hp, hall]
    rfl

theorem eq_of_performPrestige_error {now : UInt64} {refusal : EconomyError} {v : World}
    (h : e.performPrestige now w = (.error refusal, v)) : v = w := by
  rcases e.performPrestige_cases w now with ⟨_, hrefused⟩ | ⟨item, q, u, -, -, -, hok⟩
  · exact Fallible.state_unique h hrefused
  · exact absurd hok (Fallible.ne_ok_of_error h)

/-- **Commands are all or nothing.**  What is refused leaves the player, the events that wait to be
told and the evaluator as they were.  What is bought is paid to the unit, and what is sold is
credited, and nothing else of the player is changed. -/
theorem refused_or_done {document : Json} (e : Economy)
    (hload : Catalog.load document = .ok e.catalog) (w : World) (key : String) (now : UInt64) :
    (∀ refusal v, e.buy key w = (.error refusal, v) → v = w) ∧
      (∀ refusal v, e.sell key w = (.error refusal, v) → v = w) ∧
      (∀ refusal v, e.performPrestige now w = (.error refusal, v) → v = w) ∧
      (∀ purchase v, e.buy key w = (.ok purchase, v) → Bought key purchase w.player v.player) ∧
      ∀ refund v, e.sell key w = (.ok refund, v) → Sold key refund w.player v.player :=
  ⟨fun _ _ => eq_of_buy_error, fun _ _ => eq_of_sell_error, fun _ _ => eq_of_performPrestige_error,
    fun _ _ => bought_of_buy (Catalog.keyed_of_load hload), fun _ _ => sold_of_sell⟩

/-- A player with forty gold and one mill. -/
def miller : World :=
  let w : World := ⟨.start "ann" Session.millEconomy.catalog 0, [], Session.millEconomy.evaluator 0, false⟩
  (Session.millEconomy.buy "mill" w).2

/-- There is no mine, the next mill costs twenty of the gold that is left, and a mill brings half
of its price back. -/
theorem refused_or_done_of_miller :
    (Session.millEconomy.buy "mine" miller).2 = miller ∧
      Bought "mill" ⟨"mill", "buildings", .ofList [("gold", 20.0)], 2⟩ miller.player
        (Session.millEconomy.buy "mill" miller).2.player ∧
      Sold "mill" (.ofList [("gold", 5.0)]) miller.player
        (Session.millEconomy.sell "mill" miller).2.player := by
  obtain ⟨-, -, -, hbought, hsold⟩ :=
    refused_or_done Session.millEconomy Session.load_millDocument miller "mill" 0
  obtain ⟨hrefused, -⟩ :=
    refused_or_done Session.millEconomy Session.load_millDocument miller "mine" 0
  have hbuy : (Session.millEconomy.buy "mill" miller).1.toOption =
      some ⟨"mill", "buildings", .ofList [("gold", 20.0)], 2⟩ := by decide +kernel
  have hsell : (Session.millEconomy.sell "mill" miller).1.toOption =
      some (.ofList [("gold", 5.0)]) := by decide +kernel
  have hmine : (Session.millEconomy.buy "mine" miller).1.toOption = none := by decide +kernel
  obtain ⟨refusal, hmine⟩ := Fallible.exists_error_of_toOption hmine
  exact ⟨hrefused refusal _ hmine, hbought _ _ (Fallible.eq_ok_of_toOption hbuy),
    hsold _ _ (Fallible.eq_ok_of_toOption hsell)⟩

end Economy

end IncrementalGame
