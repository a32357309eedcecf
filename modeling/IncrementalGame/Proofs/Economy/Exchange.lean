import IncrementalGame.Proofs.Economy.AllOrNothing

/-!
# Purchases in either order

Of two things that ask for nothing in advance, either one may be bought first
(`buyBoth_comm`).

What a player is offered under a key (`Economy.deal?`) hangs on what he owns of this key, and a
purchase changes nothing of other keys.  So each of the two is offered at the same price before and
after the other one, and only the payments have to be exchanged.  They take whole units, never more
than there are: the two succeed one after the other just if each balance covers what both ask of it
(`Player.canAfford_lowered`), and that sum does not know an order.

What does show the order is the log, and the order in which the two events are raised.
-/

namespace IncrementalGame

/-! ## Two payments -/

/-- How many units of a resource a cost asks for. -/
def unitsDue (cost : KeyMap Float) (resource : String) : Nat :=
  (cost.get? resource).elim 0 fun amount => (costUnits amount).toNat

/-- Balances from which a cost was taken, as far as it goes. -/
def lowered (balances : KeyMap UInt64) (cost : KeyMap Float) : KeyMap UInt64 :=
  balances.map fun resource balance =>
    (cost.get? resource).elim balance fun amount => Saturating.sub64 balance (costUnits amount)

theorem toNat_getD_lowered (balances : KeyMap UInt64) (cost : KeyMap Float) (resource : String) :
    ((lowered balances cost).getD resource 0).toNat =
      (balances.getD resource 0).toNat - unitsDue cost resource := by
  rw [KeyMap.getD, KeyMap.getD, lowered, KeyMap.get?_map, unitsDue]
  cases balances.get? resource with
  | none => exact (Nat.zero_sub _).symm
  | some balance =>
    cases cost.get? resource with
    | none => rfl
    | some amount => exact Saturating.toNat_sub64 balance (costUnits amount)

/-- Two costs may be taken in either order. -/
theorem lowered_comm (balances : KeyMap UInt64) (cost cost' : KeyMap Float) :
    lowered (lowered balances cost) cost' = lowered (lowered balances cost') cost := by
  apply KeyMap.ext_get?
  intro resource
  simp only [lowered, KeyMap.get?_map]
  cases balances.get? resource with
  | none => rfl
  | some balance =>
    cases cost.get? resource with
    | none => rfl
    | some amount =>
      cases cost'.get? resource with
      | none => rfl
      | some amount' =>
        refine congrArg some (UInt64.toNat_inj.mp ?_)
        simp only [Option.elim_some, Saturating.toNat_sub64]
        omega

namespace Player

variable {p q : Player} {cost cost' : KeyMap Float}

theorem debit_eq_lowered (p : Player) (cost : KeyMap Float) :
    p.debit cost = { p with resources := lowered p.resources cost } := by
  obtain ⟨resources, hdebit⟩ := p.exists_debit_eq cost
  have hresources : resources = lowered p.resources cost := by
    apply KeyMap.ext_get?
    intro resource
    have hget := p.get?_debit cost resource
    rw [hdebit] at hget
    rw [hget, lowered, KeyMap.get?_map]
  rw [hdebit, hresources]

/-- Two costs may be paid in either order. -/
theorem debit_comm (p : Player) (cost cost' : KeyMap Float) :
    (p.debit cost).debit cost' = (p.debit cost').debit cost := by
  simp only [debit_eq_lowered, lowered_comm p.resources cost cost']

theorem canAfford_iff : p.canAfford cost = true ↔
    ∀ resource, unitsDue cost resource ≤ (p.resources.getD resource 0).toNat := by
  rw [canAfford, Option.isNone_iff_eq_none, shortfall?, List.find?_eq_none]
  constructor
  · intro h resource
    rw [unitsDue]
    cases hdue : cost.get? resource with
    | none => exact Nat.zero_le _
    | some amount =>
      have hentry := h _ (KeyMap.mem_entries_iff.mpr hdue)
      rw [decide_eq_true_eq, UInt64.lt_iff_toNat_lt] at hentry
      exact Nat.not_lt.mp hentry
  · rintro h ⟨resource, amount⟩ hentry
    have hdue := h resource
    rw [unitsDue, KeyMap.mem_entries_iff.mp hentry] at hdue
    rw [decide_eq_true_eq, UInt64.lt_iff_toNat_lt]
    exact Nat.not_lt.mpr hdue

theorem spend_eq_ok_iff : p.spend cost = .ok q ↔ p.canAfford cost = true ∧ p.debit cost = q := by
  rw [spend, canAfford]
  cases p.shortfall? cost with
  | none => simp
  | some short => simp

/-- **Two costs are paid one after the other** just if the balances cover their sum. -/
theorem canAfford_lowered :
    (p.canAfford cost = true ∧
        { p with resources := lowered p.resources cost }.canAfford cost' = true) ↔
      ∀ resource, unitsDue cost resource + unitsDue cost' resource ≤
        (p.resources.getD resource 0).toNat := by
  simp only [canAfford_iff, toNat_getD_lowered]
  constructor
  · rintro ⟨hcost, hcost'⟩ resource
    have h := hcost resource
    have h' := hcost' resource
    omega
  · intro h
    refine ⟨fun resource => ?_, fun resource => ?_⟩
    all_goals
      have hboth := h resource
      omega

/-- Whether two players differ at most in their logs. -/
def SameButLog (p q : Player) : Prop := q = { p with log := q.log }

namespace SameButLog

variable {r : Player}

theorem symm (h : SameButLog p q) : SameButLog q p := by
  unfold SameButLog at h ⊢
  rw [h]

theorem trans (h : SameButLog p q) (h' : SameButLog q r) : SameButLog p r := by
  unfold SameButLog at h h' ⊢
  rw [h', h]

theorem pushLog (p : Player) (message : String) (capacity : Nat) :
    SameButLog p (p.pushLog message capacity) := rfl

theorem debit (h : SameButLog p q) (cost : KeyMap Float) :
    SameButLog (p.debit cost) (q.debit cost) := by
  unfold SameButLog at h ⊢
  rw [debit_eq_lowered, debit_eq_lowered, h]

end SameButLog

end Player

/-! ## What a key buys -/

/-- What is agreed on when something is bought. -/
structure Deal where
  /-- What is handed over, and at what price. -/
  receipt : Purchase
  message : String
  event : Event

namespace Economy

variable {e : Economy} {key : String}

/-- The item that is on sale under a key: the upgrade, or else the building. -/
def onSale? (e : Economy) (key : String) : Option Item :=
  (e.catalog.upgrades.get? key).or (e.catalog.buildings.get? key)

/-- What a player is offered under a key. -/
def deal? (e : Economy) (key : String) (p : Player) : Option Deal :=
  match e.catalog.upgrades.get? key, e.catalog.buildings.get? key with
  | some item, _ =>
    if p.hasUpgrade key then none
    else
      some ⟨⟨key, "upgrades", item.cost, 1⟩, "Bought upgrade: " ++ item.name,
        .upgradeBought p.id key⟩
  | none, some item =>
    some ⟨⟨key, "buildings", item.nextCost (p.building key), nextCount p key⟩,
      "Bought building: " ++ item.name ++ " (now have " ++ toString (nextCount p key).toNat ++ ")",
      .buildingBought p.id key (nextCount p key)⟩
  | none, none => none

/-- The player who owns one thing more. -/
def handOver (e : Economy) (key : String) (p : Player) : Player :=
  match e.catalog.upgrades.get? key with
  | some _ => { p with upgrades := p.upgrades.insert key true }
  | none => { p with buildings := p.buildings.insert key (nextCount p key) }

theorem missing_of_free {p : Player} {item : Item} (h : item.requirements = []) :
    p.missing item = [] := by
  rw [Player.missing, h, List.filter_nil]

theorem id_debit (p : Player) (cost : KeyMap Float) : (p.debit cost).id = p.id := by
  rw [Player.debit_eq_lowered]

theorem nextCount_debit (p : Player) (cost : KeyMap Float) (key : String) :
    nextCount (p.debit cost) key = nextCount p key := by
  rw [Player.debit_eq_lowered]
  rfl

/-- **What asks for nothing in advance is bought** just if it is offered and the balances cover its
price. -/
theorem buy_eq_ok_iff (hkeyed : e.catalog.Keyed)
    (hfree : ∀ item, e.onSale? key = some item → item.requirements = []) {w v : World}
    {receipt : Purchase} :
    e.buy key w = (.ok receipt, v) ↔
      ∃ deal, e.deal? key w.player = some deal ∧ w.player.canAfford deal.receipt.cost = true ∧
        deal.receipt = receipt ∧
        w.announced e (e.handOver key (w.player.debit deal.receipt.cost)) deal.message deal.event =
          v := by
  unfold onSale? at hfree
  unfold deal? handOver buy
  cases hupgrade : e.catalog.upgrades.get? key with
  | some item =>
    obtain rfl : item.key = key := (hkeyed _ _ _ hupgrade).2
    have hmet : w.player.missing item = [] := missing_of_free (hfree item (by rw [hupgrade]; rfl))
    constructor
    · intro h
      rcases e.buyUpgrade_cases item w with ⟨_, hrefused⟩ | ⟨q, howned, -, hspend, hok⟩
      · exact absurd h (Fallible.ne_ok_of_error hrefused)
      · obtain ⟨hpays, rfl⟩ := Player.spend_eq_ok_iff.mp hspend
        obtain ⟨hreceipt, rfl⟩ := Prod.mk.inj (hok.symm.trans h)
        refine ⟨_, if_neg (Bool.eq_false_iff.mp howned), hpays, Except.ok.inj hreceipt, ?_⟩
        simp only [id_debit]
    · rintro ⟨deal, hdeal, hpays, rfl, rfl⟩
      dsimp only at hdeal
      split at hdeal
      next => exact absurd hdeal (by simp)
      next howned =>
        cases hdeal
        have hok := e.buyUpgrade_ok item w (by simpa using howned) hmet
          (Player.spend_eq_ok_iff.mpr ⟨hpays, rfl⟩)
        simpa only [id_debit] using hok
  | none =>
    cases hbuilding : e.catalog.buildings.get? key with
    | none =>
      refine iff_of_false ?_ (by simp)
      exact Fallible.ne_ok_of_error (Fallible.throw_apply _ w)
    | some item =>
      obtain rfl : item.key = key := (hkeyed _ _ _ hbuilding).2
      have hmet : w.player.missing item = [] :=
        missing_of_free (hfree item (by rw [hupgrade, hbuilding]; rfl))
      constructor
      · intro h
        rcases e.buyBuilding_cases item w with ⟨_, hrefused⟩ | ⟨q, -, hspend, hok⟩
        · exact absurd h (Fallible.ne_ok_of_error hrefused)
        · obtain ⟨hpays, rfl⟩ := Player.spend_eq_ok_iff.mp hspend
          obtain ⟨hreceipt, rfl⟩ := Prod.mk.inj (hok.symm.trans h)
          rw [nextCount_debit] at hreceipt
          refine ⟨_, rfl, hpays, Except.ok.inj hreceipt, ?_⟩
          simp only [id_debit, nextCount_debit]
      · rintro ⟨deal, hdeal, hpays, rfl, rfl⟩
        cases hdeal
        have hok := e.buyBuilding_ok item w hmet (Player.spend_eq_ok_iff.mpr ⟨hpays, rfl⟩)
        simpa only [id_debit, nextCount_debit] using hok

/-! ### Other keys -/

variable {p q : Player} {one other : String}

/-- What is offered hangs on what is owned of the key. -/
theorem deal?_congr (hid : q.id = p.id) (hupgrade : q.hasUpgrade key = p.hasUpgrade key)
    (hbuilding : q.building key = p.building key) : e.deal? key q = e.deal? key p := by
  unfold deal? nextCount
  rw [hid, hupgrade, hbuilding]

/-- A purchase changes nothing of what is offered under another key. -/
theorem deal?_handOver (hne : one ≠ other) (p : Player) :
    e.deal? other (e.handOver one p) = e.deal? other p := by
  unfold handOver
  split
  · exact deal?_congr rfl (KeyMap.getD_insert_of_ne _ hne.symm _ _) rfl
  · exact deal?_congr rfl rfl (KeyMap.getD_insert_of_ne _ hne.symm _ _)

theorem nextCount_insert (hne : one ≠ other) (p : Player) (count : UInt32) :
    nextCount { p with buildings := p.buildings.insert one count } other = nextCount p other :=
  congrArg (Saturating.add32 · 1) (KeyMap.getD_insert_of_ne _ hne.symm _ _)

/-- Things of two keys may be handed over in either order. -/
theorem handOver_comm (hne : one ≠ other) (p : Player) :
    e.handOver other (e.handOver one p) = e.handOver one (e.handOver other p) := by
  unfold handOver
  cases e.catalog.upgrades.get? one with
  | some _ =>
    cases e.catalog.upgrades.get? other with
    | some _ => simp only [p.upgrades.insert_comm hne]
    | none => rfl
  | none =>
    cases e.catalog.upgrades.get? other with
    | some _ => rfl
    | none =>
      simp only [nextCount_insert hne, nextCount_insert hne.symm, p.buildings.insert_comm hne]

theorem resources_handOver (p : Player) : (e.handOver key p).resources = p.resources := by
  unfold handOver
  split <;> rfl

/-- To pay for a thing and to be handed another one may be done in either order. -/
theorem debit_handOver (p : Player) (cost : KeyMap Float) :
    (e.handOver key p).debit cost = e.handOver key (p.debit cost) := by
  rw [Player.debit_eq_lowered, Player.debit_eq_lowered]
  unfold handOver
  split <;> rfl

theorem handOver_sameButLog (e : Economy) (key : String) (h : p.SameButLog q) :
    (e.handOver key p).SameButLog (e.handOver key q) := by
  unfold Player.SameButLog at h ⊢
  rw [h]
  unfold handOver
  split <;> rfl

/-! ## Two purchases -/

/-- Buys one thing and then another. -/
def buyBoth (e : Economy) (one other : String) : Action (Purchase × Purchase) := do
  let first ← e.buy one
  let second ← e.buy other
  return (first, second)

/-- The world in which a deal was concluded. -/
def concluded (e : Economy) (key : String) (deal : Deal) (w : World) : World :=
  w.announced e (e.handOver key (w.player.debit deal.receipt.cost)) deal.message deal.event

variable {w v : World} {deal deal' : Deal}

/-- A deal changes nothing of what is offered under another key. -/
theorem deal?_concluded (hne : one ≠ other) :
    e.deal? other (e.concluded one deal w).player = e.deal? other w.player := by
  have hlog : e.deal? other (e.concluded one deal w).player =
      e.deal? other (e.handOver one (w.player.debit deal.receipt.cost)) := deal?_congr rfl rfl rfl
  rw [hlog, deal?_handOver hne, Player.debit_eq_lowered]
  exact deal?_congr rfl rfl rfl

theorem canAfford_concluded (cost : KeyMap Float) :
    (w.player.canAfford deal.receipt.cost = true ∧
        (e.concluded key deal w).player.canAfford cost = true) ↔
      ∀ resource, unitsDue deal.receipt.cost resource + unitsDue cost resource ≤
        (w.player.resources.getD resource 0).toNat := by
  have hresources : (e.concluded key deal w).player.resources =
      lowered w.player.resources deal.receipt.cost := by
    refine (resources_handOver (w.player.debit deal.receipt.cost)).trans ?_
    rw [Player.debit_eq_lowered]
  have hsame : (e.concluded key deal w).player.canAfford cost = true ↔
      { w.player with resources := lowered w.player.resources deal.receipt.cost }.canAfford cost =
        true := by
    rw [Player.canAfford_iff, Player.canAfford_iff, hresources]
  rw [← Player.canAfford_lowered, hsame]

/-- The player after two deals has paid for both and owns both, and apart from the log that is
all. -/
theorem player_concluded :
    (e.handOver other (e.handOver one
        ((w.player.debit deal.receipt.cost).debit deal'.receipt.cost))).SameButLog
      (e.concluded other deal' (e.concluded one deal w)).player := by
  have hfirst : (e.handOver one (w.player.debit deal.receipt.cost)).SameButLog
      (e.concluded one deal w).player := .pushLog ..
  have hpaid := hfirst.debit deal'.receipt.cost
  rw [debit_handOver] at hpaid
  exact (e.handOver_sameButLog other hpaid).trans (.pushLog ..)

theorem concluded_comm (hne : one ≠ other) :
    (e.concluded other deal' (e.concluded one deal w)).player.SameButLog
      (e.concluded one deal (e.concluded other deal' w)).player := by
  have hother : (e.handOver one (e.handOver other
        ((w.player.debit deal'.receipt.cost).debit deal.receipt.cost))).SameButLog
      (e.concluded one deal (e.concluded other deal' w)).player := player_concluded
  rw [← handOver_comm hne, Player.debit_comm] at hother
  exact player_concluded.symm.trans hother

variable (hkeyed : e.catalog.Keyed) (hne : one ≠ other)
  (hone : ∀ item, e.onSale? one = some item → item.requirements = [])
  (hother : ∀ item, e.onSale? other = some item → item.requirements = [])
include hkeyed hne hone hother

/-- **Two things are bought one after the other** just if both are offered at first and the balances
cover the sum of their prices. -/
theorem buyBoth_eq_ok_iff {receipts : Purchase × Purchase} :
    e.buyBoth one other w = (.ok receipts, v) ↔
      ∃ deal deal', e.deal? one w.player = some deal ∧ e.deal? other w.player = some deal' ∧
        (∀ resource, unitsDue deal.receipt.cost resource + unitsDue deal'.receipt.cost resource ≤
          (w.player.resources.getD resource 0).toNat) ∧
        (deal.receipt, deal'.receipt) = receipts ∧
        e.concluded other deal' (e.concluded one deal w) = v := by
  constructor
  · intro h
    obtain ⟨first, u, hfirst, h⟩ := Fallible.exists_of_bind_eq h
    obtain ⟨second, u', hsecond, h⟩ := Fallible.exists_of_bind_eq h
    obtain ⟨hreceipts, rfl⟩ := Prod.mk.inj h
    obtain ⟨deal, hdeal, hpays, rfl, rfl⟩ := (buy_eq_ok_iff hkeyed hone).mp hfirst
    obtain ⟨deal', hdeal', hpays', rfl, rfl⟩ := (buy_eq_ok_iff hkeyed hother).mp hsecond
    exact ⟨deal, deal', hdeal, (deal?_concluded hne).symm.trans hdeal',
      (canAfford_concluded _).mp ⟨hpays, hpays'⟩, Except.ok.inj hreceipts, rfl⟩
  · rintro ⟨deal, deal', hdeal, hdeal', hcovered, rfl, rfl⟩
    obtain ⟨hpays, hpays'⟩ : w.player.canAfford deal.receipt.cost = true ∧
        (e.concluded one deal w).player.canAfford deal'.receipt.cost = true :=
      (canAfford_concluded _).mpr hcovered
    have hfirst : e.buy one w = (.ok deal.receipt, e.concluded one deal w) :=
      (buy_eq_ok_iff hkeyed hone).mpr ⟨deal, hdeal, hpays, rfl, rfl⟩
    have hsecond : e.buy other (e.concluded one deal w) =
        (.ok deal'.receipt, e.concluded other deal' (e.concluded one deal w)) :=
      (buy_eq_ok_iff hkeyed hother).mpr
        ⟨deal', (deal?_concluded hne).trans hdeal', hpays', rfl, rfl⟩
    rw [buyBoth, Fallible.bind_ok _ hfirst, Fallible.bind_ok _ hsecond, Fallible.pure_apply]

/-- What can be bought in one order can be bought in the other one. -/
theorem exists_buyBoth_swap {receipts : Purchase × Purchase}
    (h : e.buyBoth one other w = (.ok receipts, v)) :
    ∃ v', e.buyBoth other one w = (.ok receipts.swap, v') ∧ v.player.SameButLog v'.player ∧
      (∃ told told', v.raised = w.raised ++ [told, told'] ∧ v'.raised = w.raised ++ [told', told]) ∧
      v'.evaluator = v.evaluator := by
  obtain ⟨deal, deal', hdeal, hdeal', hcovered, rfl, rfl⟩ :=
    (buyBoth_eq_ok_iff hkeyed hne hone hother).mp h
  have hcovered' : ∀ resource, unitsDue deal'.receipt.cost resource +
      unitsDue deal.receipt.cost resource ≤ (w.player.resources.getD resource 0).toNat := by
    intro resource
    rw [Nat.add_comm]
    exact hcovered resource
  refine ⟨e.concluded one deal (e.concluded other deal' w), ?_, concluded_comm hne,
    ⟨deal.event, deal'.event, List.append_assoc _ [_] [_], List.append_assoc _ [_] [_]⟩, rfl⟩
  exact (buyBoth_eq_ok_iff hkeyed hne.symm hother hone).mpr
    ⟨deal', deal, hdeal', hdeal, hcovered', rfl, rfl⟩

omit hkeyed hne hone hother

/-- **Buying commutes.**  Two things that ask for nothing in advance are both bought in one order
just if they are in the other one.  Then they are handed over at the same prices, no formula was
computed, and the players differ at most in their logs; what is told differs in its order. -/
theorem buyBoth_comm {document : Json} (e : Economy)
    (hload : Catalog.load document = .ok e.catalog) {one other : String} (hne : one ≠ other)
    (hone : ∀ item, e.onSale? one = some item → item.requirements = [])
    (hother : ∀ item, e.onSale? other = some item → item.requirements = []) (w : World) :
    ((∃ receipts v, e.buyBoth one other w = (.ok receipts, v)) ↔
        ∃ receipts v, e.buyBoth other one w = (.ok receipts, v)) ∧
      ∀ receipts v receipts' v', e.buyBoth one other w = (.ok receipts, v) →
        e.buyBoth other one w = (.ok receipts', v') →
        v.player.SameButLog v'.player ∧ receipts' = receipts.swap ∧
          (∃ told told',
            v.raised = w.raised ++ [told, told'] ∧ v'.raised = w.raised ++ [told', told]) ∧
          v'.evaluator = v.evaluator := by
  have hkeyed := Catalog.keyed_of_load hload
  refine ⟨⟨?_, ?_⟩, ?_⟩
  · rintro ⟨receipts, v, h⟩
    obtain ⟨v', h', -⟩ := exists_buyBoth_swap hkeyed hne hone hother h
    exact ⟨_, v', h'⟩
  · rintro ⟨receipts, v, h⟩
    obtain ⟨v', h', -⟩ := exists_buyBoth_swap hkeyed hne.symm hother hone h
    exact ⟨_, v', h'⟩
  · intro receipts v receipts' v' h h'
    obtain ⟨u, hu, hsame, htold, hevaluator⟩ := exists_buyBoth_swap hkeyed hne hone hother h
    obtain ⟨hreceipts, rfl⟩ := Prod.mk.inj (hu.symm.trans h')
    exact ⟨hsame, (Except.ok.inj hreceipts).symm, htold, hevaluator⟩

/-! ### A smithy -/

/-- A document of a forge and an anvil.  There is an upgrade and a building of the latter name, and
gold and iron for just one upgrade and the second forge. -/
def smithyDocument : Json := .obj [
  ("buildings", .obj [
    ("anvil", .obj [("cost", .obj [("gold", .num (.int 1))])]),
    ("forge", .obj [("cost", .obj [("gold", .num (.int 10))]), ("initial", .num (.int 1))])]),
  ("resources", .obj [
    ("gold", .obj [("initial", .num (.int 24))]), ("iron", .obj [("initial", .num (.int 1))])]),
  ("upgrades", .obj [
    ("anvil", .obj [("cost", .obj [("gold", .num (.real 3.5)), ("iron", .num (.int 1))])])])]

/-- The economy of the smithy. -/
def smithyEconomy : Economy := .ofDocument smithyDocument

/-- A smith at the start of the game. -/
def smith : World :=
  ⟨.start "ann" smithyEconomy.catalog 0, [], smithyEconomy.evaluator 0, false⟩

/-- The smith can buy both in either order, and only the log tells which he has bought first. -/
theorem buyBoth_comm_of_smithy :
    ∃ v v', smithyEconomy.buyBoth "forge" "anvil" smith =
        (.ok (⟨"forge", "buildings", .ofList [("gold", 20.0)], 2⟩,
          ⟨"anvil", "upgrades", .ofList [("gold", 3.5), ("iron", 1.0)], 1⟩), v) ∧
      smithyEconomy.buyBoth "anvil" "forge" smith =
        (.ok (⟨"anvil", "upgrades", .ofList [("gold", 3.5), ("iron", 1.0)], 1⟩,
          ⟨"forge", "buildings", .ofList [("gold", 20.0)], 2⟩), v') ∧
      v.player.SameButLog v'.player ∧ v.player.log ≠ v'.player.log := by
  have hfree : ∀ key ∈ ["forge", "anvil"], ∀ item,
      smithyEconomy.onSale? key = some item → item.requirements = [] := by
    have hsold : ∀ key ∈ ["forge", "anvil"],
        (smithyEconomy.onSale? key).all (fun item => item.requirements == []) = true := by
      decide +kernel
    intro key hkey item hitem
    have hall := hsold key hkey
    rw [hitem] at hall
    exact beq_iff_eq.mp hall
  have hload : Catalog.load smithyDocument = .ok smithyEconomy.catalog :=
    load_eq_ofDocument (by decide +kernel)
  obtain ⟨hboth, hsame⟩ := buyBoth_comm smithyEconomy hload (show "forge" ≠ "anvil" by decide)
    (hfree _ (by simp)) (hfree _ (by simp)) smith
  have hfirst : (smithyEconomy.buyBoth "forge" "anvil" smith).1.toOption =
      some (⟨"forge", "buildings", .ofList [("gold", 20.0)], 2⟩,
        ⟨"anvil", "upgrades", .ofList [("gold", 3.5), ("iron", 1.0)], 1⟩) := by decide +kernel
  have h := Fallible.eq_ok_of_toOption hfirst
  obtain ⟨receipts', v', h'⟩ := hboth.mp ⟨_, _, h⟩
  obtain ⟨hplayers, rfl, -⟩ := hsame _ _ _ _ h h'
  refine ⟨_, v', h, h', hplayers, ?_⟩
  have hlogs : (smithyEconomy.buyBoth "forge" "anvil" smith).2.player.log ≠
      (smithyEconomy.buyBoth "anvil" "forge" smith).2.player.log := by decide +kernel
  rwa [h'] at hlogs

end Economy

end IncrementalGame
