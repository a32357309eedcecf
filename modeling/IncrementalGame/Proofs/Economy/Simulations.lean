import Mathlib.Data.List.Count
import IncrementalGame.Proofs.Economy.Additive
import IncrementalGame.Proofs.Economy.Awards
import IncrementalGame.Proofs.Economy.EventLog

/-!
# Simulations compose

A simulation of `n + m` steps is one of `n` steps followed by one of `m` steps, for the player, the
evaluator, and those who listen, and its report is the two reports joined (`act_simulate_add`).  The
clock of a simulation is no part of the world: it is taken up again from the time of the last tick,
which is the time the clock has come to, unless no step was taken, and then it has not moved.

What a simulation reports as bought is what is told of it, in order.  An upgrade is bought once, as
along any course of a game (`Course.bought_once`), and what has the key of an upgrade is never
bought as a building.
-/

namespace IncrementalGame

/-- The report on two simulations, one after the other; the steps of the second are counted on. -/
def SimulationReport.join (first second : SimulationReport) : SimulationReport where
  steps := first.steps + second.steps
  purchases := first.purchases ++ second.purchases.map fun p => (first.steps + p.1, p.2)
  unlocked := first.unlocked ++ second.unlocked

namespace Economy

variable (e : Economy) (stride : UInt64)

/-! ## Steps of a simulation -/

/-- The clock after some steps. -/
def clockAfter : Nat → UInt64 → UInt64
  | 0, clock => clock
  | steps + 1, clock => clockAfter steps (Saturating.add64 clock stride)

theorem simulateFrom_zero (index : Nat) (clock : UInt64) (w : World) :
    e.simulateFrom stride 0 index clock w = (⟨0, [], []⟩, w) := rfl

/-- A step buys, moves the clock and ticks; the other steps follow. -/
theorem simulateFrom_succ (steps index : Nat) (clock : UInt64) (w : World) :
    e.simulateFrom stride (steps + 1) index clock w =
      let bought := e.buyAll w
      let ticked := e.tick (Saturating.add64 clock stride) bought.2
      let rest := e.simulateFrom stride steps (index + 1) (Saturating.add64 clock stride) ticked.2
      (⟨rest.1.steps + 1, bought.1.map (fun key => (index, key)) ++ rest.1.purchases,
        ticked.1.unlocked ++ rest.1.unlocked⟩, rest.2) := rfl

theorem steps_simulateFrom (steps index : Nat) (clock : UInt64) (w : World) :
    (e.simulateFrom stride steps index clock w).1.steps = steps := by
  induction steps generalizing index clock w with
  | zero => rfl
  | succ steps ih =>
    rw [simulateFrom_succ]
    exact congrArg (· + 1) (ih _ _ _)

/-- The time of the last tick is where the clock has come to. -/
theorem lastUpdate_simulateFrom (steps index : Nat) (clock : UInt64) (w : World) :
    (e.simulateFrom stride (steps + 1) index clock w).2.player.lastUpdate =
      clockAfter stride (steps + 1) clock := by
  induction steps generalizing index clock w with
  | zero => rfl
  | succ steps ih =>
    rw [simulateFrom_succ]
    exact ih _ _ _

/-- Where the count of the steps starts only shifts the purchases. -/
theorem simulateFrom_shift (start steps index : Nat) (clock : UInt64) (w : World) :
    e.simulateFrom stride steps (start + index) clock w =
      let run := e.simulateFrom stride steps index clock w
      ({ run.1 with purchases := run.1.purchases.map fun p => (start + p.1, p.2) }, run.2) := by
  induction steps generalizing index clock w with
  | zero => rfl
  | succ steps ih =>
    rw [simulateFrom_succ, simulateFrom_succ]
    simp only [Nat.add_assoc, ih, List.map_append, List.map_map, Function.comp_def]

theorem simulateFrom_add (n m index : Nat) (clock : UInt64) (w : World) :
    e.simulateFrom stride (n + m) index clock w =
      let first := e.simulateFrom stride n index clock w
      let second := e.simulateFrom stride m (index + n) (clockAfter stride n clock) first.2
      (⟨first.1.steps + second.1.steps, first.1.purchases ++ second.1.purchases,
        first.1.unlocked ++ second.1.unlocked⟩, second.2) := by
  induction n generalizing index clock w with
  | zero =>
    simp only [simulateFrom_zero, clockAfter, Nat.zero_add, Nat.add_zero, List.nil_append]
    rfl
  | succ n ih =>
    have hindex : index + (n + 1) = index + 1 + n := by omega
    rw [Nat.succ_add, simulateFrom_succ, simulateFrom_succ, hindex]
    simp only [ih, clockAfter, List.append_assoc, Nat.add_right_comm]

theorem simulate_apply (steps : Nat) (w : World) :
    e.simulate steps stride w = e.simulateFrom stride steps 0 w.player.lastUpdate w := rfl

/-- **A simulation is one simulation after another.** -/
theorem simulate_add (n m : Nat) :
    e.simulate (n + m) stride = do
      let first ← e.simulate n stride
      let second ← e.simulate m stride
      return first.join second := by
  funext w
  rw [Rule.bind_apply, Rule.bind_apply, simulate_apply, simulate_apply, simulateFrom_add]
  have hclock : clockAfter stride n w.player.lastUpdate =
      (e.simulateFrom stride n 0 w.player.lastUpdate w).2.player.lastUpdate := by
    cases n with
    | zero => rfl
    | succ n => exact (e.lastUpdate_simulateFrom stride n 0 _ w).symm
  have hshift := e.simulateFrom_shift stride n m 0
    (e.simulateFrom stride n 0 w.player.lastUpdate w).2.player.lastUpdate
    (e.simulateFrom stride n 0 w.player.lastUpdate w).2
  simp only [hclock, Nat.zero_add]
  rw [Nat.add_zero] at hshift
  rw [hshift]
  simp only [simulate_apply, SimulationReport.join, steps_simulateFrom]
  rfl

end Economy

/-! ## What is bought -/

/-- What an event tells the purchase of: a key, and whether it is that of an upgrade. -/
def Event.bought? : Event → Option (String × Bool)
  | buildingBought _ key _ => some (key, false)
  | upgradeBought _ key => some (key, true)
  | buildingSold .. | achievementUnlocked .. | prestige .. => none

/-- What some events tell the purchase of. -/
def boughtIn (events : List Event) : List (String × Bool) := events.filterMap Event.bought?

theorem boughtIn_append (events others : List Event) :
    boughtIn (events ++ others) = boughtIn events ++ boughtIn others := List.filterMap_append

/-- **An upgrade is bought at most once**, and not at all if it is owned. -/
theorem Course.bought_once {e : Economy} {v w : World} (hc : Course e v w) :
    ∃ events, w.raised = v.raised ++ events ∧ ∀ key,
      (boughtIn events).count (key, true) + (v.player.hasUpgrade key).toNat ≤
        (w.player.hasUpgrade key).toNat := by
  refine hc.along (fun v w => ∃ events, w.raised = v.raised ++ events ∧ ∀ key,
    (boughtIn events).count (key, true) + (v.player.hasUpgrade key).toNat ≤
      (w.player.hasUpgrade key).toNat) ?_ ?_ ?_
  · exact fun w => ⟨[], (List.append_nil _).symm, fun key => by simp [boughtIn]⟩
  · rintro u v w ⟨events, huv, hfirst⟩ ⟨others, hvw, hsecond⟩
    refine ⟨events ++ others, by rw [hvw, huv, List.append_assoc], fun key => ?_⟩
    have hfirst := hfirst key
    have hsecond := hsecond key
    rw [boughtIn_append, List.count_append]
    omega
  · intro v w hstep
    cases hstep with
    | hush hquiet =>
      refine ⟨[], hquiet.2.trans (List.append_nil _).symm, fun key => ?_⟩
      rw [e.hasUpgrade_eq_of_quiet hquiet.1]
      simp [boughtIn]
    | @tell p q event message hbefore hdue hafter hplayer hraised =>
      refine ⟨[event], hraised, fun key => ?_⟩
      have howned : w.player.hasUpgrade key = (p.settle event).hasUpgrade key := by
        rw [hplayer, ← e.hasUpgrade_eq_of_quiet hafter key]
        rfl
      rw [howned, ← e.hasUpgrade_eq_of_quiet hbefore key]
      cases hdue with
      | @upgradeBought listed item found fresh =>
        have hsettled : (p.settle (.upgradeBought p.id item.key)).upgrades =
            p.upgrades.insert item.key true := rfl
        by_cases hkey : key = item.key
        · rw [hkey, fresh, Player.hasUpgrade, hsettled, KeyMap.getD_insert_self]
          simp [boughtIn, Event.bought?]
        · rw [Player.hasUpgrade, Player.hasUpgrade, hsettled, KeyMap.getD_insert_of_ne _ hkey]
          simp [boughtIn, Event.bought?, Ne.symm hkey]
      | buildingBought | buildingSold | prestige | achievementUnlocked =>
        simp [boughtIn, List.filterMap_cons, Event.bought?, Player.hasUpgrade, Player.settle,
          Player.Holdings.replay, Player.holdings]

namespace Economy

/-- What is told of a purchase of a key: the key, and whether it is that of an upgrade. -/
def purchaseOf (e : Economy) (key : String) : String × Bool :=
  (key, e.catalog.upgrades.contains key)

theorem purchaseOf_injective (e : Economy) : Function.Injective e.purchaseOf :=
  fun _ _ h => (Prod.mk.inj h).1

variable {e : Economy}

theorem purchaseOf_upgrade {key : String} (h : e.catalog.upgrades.contains key = true) :
    e.purchaseOf key = (key, true) := by rw [purchaseOf, h]

/-- A purchase is told of just if it goes well. -/
theorem bought_tryBuy (hkeyed : e.catalog.Keyed) (key : String) (w : World) :
    boughtIn (e.tryBuy key w).2.raised =
      boughtIn w.raised ++ if (e.tryBuy key w).1 then [e.purchaseOf key] else [] := by
  have hbuy : e.tryBuy key w = ((e.buy key w).1.isOk, (e.buy key w).2) := rfl
  rw [hbuy]
  rcases e.buy_cases key with ⟨upgrade, hfound, hitem⟩ | ⟨building, hnone, hfound, hitem⟩ | hitem
  · rw [hitem]
    rcases e.buyUpgrade_cases upgrade w with ⟨refusal, h⟩ | ⟨q, _, _, _, h⟩
    · rw [h]
      exact (List.append_nil _).symm
    · have hkey : upgrade.key = key := (hkeyed "upgrades" key upgrade hfound).2
      have hupgrade : e.purchaseOf key = (key, true) := purchaseOf_upgrade (by
        rw [KeyMap.contains, hfound]
        rfl)
      rw [h, hupgrade, ← hkey]
      exact boughtIn_append _ _
  · rw [hitem]
    rcases e.buyBuilding_cases building w with ⟨refusal, h⟩ | ⟨q, _, _, h⟩
    · rw [h]
      exact (List.append_nil _).symm
    · have hkey : building.key = key := (hkeyed "buildings" key building hfound).2
      have hbuilding : e.purchaseOf key = (key, false) := by
        rw [purchaseOf, KeyMap.contains, hnone]
        rfl
      rw [h, hbuilding, ← hkey]
      exact boughtIn_append _ _
  · rw [hitem]
    exact (List.append_nil _).symm

theorem bought_succeeding (attempt : String → Rule Bool)
    (h : ∀ key w, boughtIn (attempt key w).2.raised =
      boughtIn w.raised ++ if (attempt key w).1 then [e.purchaseOf key] else [])
    (keys : List String) (w : World) :
    boughtIn (succeeding attempt keys w).2.raised =
      boughtIn w.raised ++ (succeeding attempt keys w).1.map e.purchaseOf := by
  induction keys generalizing w with
  | nil => exact (List.append_nil _).symm
  | cons key rest ih =>
    rw [succeeding, Rule.bind_apply, Rule.bind_apply]
    show boughtIn (succeeding attempt rest (attempt key w).2).2.raised = _
    rw [ih, h, List.append_assoc]
    cases (attempt key w).1 <;> rfl

theorem bought_buyAll (hkeyed : e.catalog.Keyed) (w : World) :
    boughtIn (e.buyAll w).2.raised = boughtIn w.raised ++ (e.buyAll w).1.map e.purchaseOf := by
  have hupgrades := bought_succeeding e.tryUpgrade fun key w => by
    rw [tryUpgrade, Rule.bind_apply, Rule.player_apply]
    simp only
    split
    · exact (List.append_nil _).symm
    · exact bought_tryBuy hkeyed key w
  have hbuildings := bought_succeeding e.tryBuilding fun key w => by
    rw [tryBuilding]
    split
    · exact (List.append_nil _).symm
    · exact bought_tryBuy hkeyed key w
  rw [buyAll, Rule.bind_apply, Rule.bind_apply]
  show boughtIn (succeeding e.tryBuilding _ (succeeding e.tryUpgrade _ w).2).2.raised = _
  rw [hbuildings, hupgrades, List.append_assoc, ← List.map_append]
  rfl

/-- A tick buys nothing. -/
theorem bought_tick (now : UInt64) (w : World) :
    boughtIn (e.tick now w).2.raised = boughtIn w.raised := by
  obtain ⟨awards, hpass, -, -⟩ := e.pass_unlockAchievements (e.harvest now w).2
  have hraised : (e.tick now w).2.raised = (e.unlockAchievements (e.harvest now w).2).2.raised :=
    congrArg (·.2.raised) (e.tick_apply w now)
  have hawards : ∀ id, boughtIn (awards.map (Award.event id)) = [] := fun id => by
    rw [boughtIn, List.filterMap_map]
    exact List.filterMap_eq_nil_iff.mpr fun _ _ => rfl
  rw [hraised, hpass.raised, boughtIn_append, hawards, List.append_nil,
    (e.keeps_harvest now w).2]

/-- **What a simulation reports as bought is what is told of it.** -/
theorem bought_simulateFrom (hkeyed : e.catalog.Keyed) (stride : UInt64) (steps index : Nat)
    (clock : UInt64) (w : World) :
    boughtIn (e.simulateFrom stride steps index clock w).2.raised =
      boughtIn w.raised ++ (e.simulateFrom stride steps index clock w).1.purchases.map
        fun p => e.purchaseOf p.2 := by
  induction steps generalizing index clock w with
  | zero => exact (List.append_nil _).symm
  | succ steps ih =>
    rw [simulateFrom_succ]
    simp only
    rw [ih, bought_tick, bought_buyAll hkeyed, List.append_assoc, List.map_append, List.map_map]
    rfl

/-! ## Courses of simulations -/

theorem course_tryBuy (key : String) : (e.tryBuy key).Keeps (Course e) :=
  Rule.Keeps.bind (fun w => e.course_buy w key) fun _ => Rule.keeps_pure _

theorem course_succeeding {attempt : String → Rule Bool}
    (h : ∀ key, (attempt key).Keeps (Course e)) (keys : List String) :
    (succeeding attempt keys).Keeps (Course e) := by
  induction keys with
  | nil => exact Rule.keeps_pure []
  | cons key rest ih => exact (h key).bind fun _ => ih.bind fun _ => Rule.keeps_pure _

theorem course_buyAll : e.buyAll.Keeps (Course e) := by
  refine Rule.Keeps.bind (course_succeeding (fun key => ?_) _) fun _ => ?_
  · exact Rule.keeps_player.bind fun p => Rule.keeps_ite (Rule.keeps_pure false) (course_tryBuy key)
  · refine Rule.Keeps.bind (course_succeeding (fun key => ?_) _) fun _ => Rule.keeps_pure _
    exact Rule.keeps_ite (Rule.keeps_pure false) (course_tryBuy key)

theorem course_simulateFrom (stride : UInt64) (steps index : Nat) (clock : UInt64) :
    (e.simulateFrom stride steps index clock).Keeps (Course e) := by
  induction steps generalizing index clock with
  | zero => exact Rule.keeps_pure _
  | succ steps ih =>
    refine Rule.Keeps.bind course_buyAll fun _ => ?_
    refine Rule.Keeps.bind (e.course_tick _) fun _ => ?_
    exact (ih _ _).bind fun _ => Rule.keeps_pure _

end Economy

/-! ## Sessions -/

namespace Session

variable {α β γ : Type}

/-- **To act at once and to act one after the other comes to the same**, if what acts second is
additive. -/
theorem act_bind {second : Rule β} (h : second.Additive) (first : Rule α) (f : α → β → γ)
    (s : Session) :
    s.act (do let a ← first; let b ← second; return f a b) =
      let acted := s.act first
      let settled := acted.2.act second
      (f acted.1 settled.1, settled.2) := by
  let v := (first { s.world with raised := [] }).2
  have hafter : v = World.after v.raised { v with raised := [] } := by
    rw [World.after, List.append_nil]
  have hsecond : second v =
      ((second { v with raised := [] }).1, (second { v with raised := [] }).2.after v.raised) := by
    rw [← h, ← hafter]
  rw [act, Rule.bind_apply, Rule.bind_apply]
  show (f _ (second v).1, Session.mk s.economy ⟨(second v).2.player, s.world.raised,
    (second v).2.evaluator, (second v).2.broken⟩ (s.bus.publish (second v).2.raised).2) = _
  rw [hsecond]
  simp only [World.after, EventBus.publish_append]
  rfl

/-- **Simulations compose.**  To simulate `n + m` steps comes to the same as to simulate `n` and
then `m`, for the player, the evaluator and those who listen, and the reports join.  What a
simulation of `n` steps reports as bought is just what is told of it, in order; no upgrade is among
that twice, and nothing that has the key of an upgrade is a building. -/
theorem act_simulate_add {document : Json} (s : Session)
    (hload : Catalog.load document = .ok s.economy.catalog) (n m : Nat) (stride : UInt64) :
    let run := fun steps => s.economy.simulate steps stride
    let first := s.act (run n)
    let second := first.2.act (run m)
    s.act (run (n + m)) = (first.1.join second.1, second.2) ∧ first.1.steps = n ∧
      boughtIn (s.told (run n)) =
        first.1.purchases.map (fun p => (p.2, s.economy.catalog.upgrades.contains p.2)) ∧
      ∀ key, s.economy.catalog.upgrades.contains key = true →
        (first.1.purchases.map (·.2)).count key ≤ 1 ∧ (key, false) ∉ boughtIn (s.told (run n)) := by
  intro run first second
  have hbought := Economy.bought_simulateFrom (Catalog.keyed_of_load hload) stride n 0
    s.world.player.lastUpdate { s.world with raised := [] }
  refine ⟨?_, s.economy.steps_simulateFrom stride n 0 _ _, hbought, fun key hkey => ⟨?_, ?_⟩⟩
  · rw [show run (n + m) = _ from s.economy.simulate_add stride n m]
    exact act_bind (s.economy.additive_simulate m stride) (run n) SimulationReport.join s
  · obtain ⟨events, hraised, honce⟩ := Course.bought_once
      (Economy.course_simulateFrom stride n 0 s.world.player.lastUpdate
        { s.world with raised := [] })
    have hevents : s.told (run n) = events := hraised
    have hkeys : (boughtIn events).count (key, true) =
        (first.1.purchases.map (·.2)).count key := by
      rw [← hevents, show boughtIn (s.told (run n)) = _ from hbought, boughtIn, List.filterMap_nil,
        List.nil_append, ← Economy.purchaseOf_upgrade hkey,
        ← List.count_map_of_injective _ _ s.economy.purchaseOf_injective, List.map_map]
      rfl
    have hlast := Bool.toNat_le (first.2.world.player.hasUpgrade key)
    have honce := (Nat.le_add_right _ _).trans ((honce key).trans hlast)
    rwa [hkeys] at honce
  · intro hmem
    rw [show boughtIn (s.told (run n)) = _ from hbought] at hmem
    obtain ⟨p, -, hp⟩ := List.mem_map.mp hmem
    obtain ⟨rfl, hnot⟩ := Prod.mk.inj hp
    exact absurd (hkey.symm.trans hnot) (by decide)

/-! ### A workshop -/

/-- A document of a mill that is an upgrade and a building, and of a mine that yields gold. -/
def workshopDocument : Json := .obj [
  ("buildings", .obj [
    ("mill", .obj [("cost", .obj [("gold", .num (.int 1))])]),
    ("mine", .obj [("cost", .obj [("gold", .num (.int 20))]),
      ("effects", .arr [.str "yield:gold:15"])])]),
  ("resources", .obj [("gold", .obj [("initial", .num (.int 50))])]),
  ("upgrades", .obj [("mill", .obj [("cost", .obj [("gold", .num (.int 10))])])])]

/-- A session with a new player of the workshop. -/
def workshop : Session := start (.ofDocument workshopDocument) "ann" 0 0 8

theorem load_workshop : Catalog.load workshopDocument = .ok workshop.economy.catalog := by
  rw [workshop, start]
  exact Economy.load_eq_ofDocument (by decide +kernel)

/-- The report on some steps of a simulation in the workshop, and the session behind them. -/
def workshopRun (steps : Nat) (s : Session) : SimulationReport × Session :=
  s.act (workshop.economy.simulate steps 1000)

/-- The first step buys the upgrade and a mine, and the third one more mine; there is no mill to be
bought beside the upgrade. -/
theorem act_simulate_add_of_workshop :
    Catalog.load workshopDocument = .ok workshop.economy.catalog ∧
      workshopRun (1 + 2) workshop =
        ((workshopRun 1 workshop).1.join (workshopRun 2 (workshopRun 1 workshop).2).1,
          (workshopRun 2 (workshopRun 1 workshop).2).2) ∧
      (workshopRun 3 workshop).1.purchases = [(0, "mill"), (0, "mine"), (2, "mine")] := by
  obtain ⟨hjoin, -, -, -⟩ := act_simulate_add workshop load_workshop 1 2 1000
  exact ⟨load_workshop, hjoin, by decide +kernel⟩

end Session

end IncrementalGame
