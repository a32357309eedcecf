import Mathlib.Data.List.Induction
import Mathlib.Tactic.Common
import IncrementalGame.Economy.Session
import IncrementalGame.Proofs.Catalog.Keyed
import IncrementalGame.Proofs.Economy.Course

/-!
# Events tell all

A player's holdings are what its events say.  Replaying the events that a session has told, in
order, over the holdings at the start gives the holdings at the end, and the log consists of the
latest messages of just these events.

The proof follows one step: a hushed step changes neither holdings nor log and raises nothing, and a
telling step changes the holdings as its event says and adds the message that belongs to the event
(`Told.step`).  Both relations are folds over the events told, so they go on along a run.
-/

namespace IncrementalGame

/-! ## The wording of events -/

/-- The name that an item of some key is shown with. -/
def nameOf (items : KeyMap Item) (key : String) : String :=
  ((items.get? key).map (·.name)).getD ""

/-- The message that belongs to an event. -/
def Event.message (catalog : Catalog) : Event → String
  | buildingBought _ building amount =>
    "Bought building: " ++ nameOf catalog.buildings building ++
      " (now have " ++ toString amount.toNat ++ ")"
  | upgradeBought _ upgrade => "Bought upgrade: " ++ nameOf catalog.upgrades upgrade
  | buildingSold _ building amount =>
    "Sold building: " ++ nameOf catalog.buildings building ++
      " (now have " ++ toString amount.toNat ++ ")"
  | prestige _ _ =>
    "Performed prestige: " ++ nameOf (catalog.category Catalog.prestigeKey) Catalog.prestigeKey
  | achievementUnlocked _ achievement level =>
    "Achievement unlocked: " ++ nameOf catalog.achievements achievement ++
      " (level " ++ toString level.toNat ++ ")"

theorem nameOf_of_get? {items : KeyMap Item} {key : String} {item : Item}
    (h : items.get? key = some item) : nameOf items key = item.name := by
  rw [nameOf, h]
  rfl

namespace Event

variable (catalog : Catalog) (player key : String) (amount : UInt32)

theorem message_buildingBought :
    message catalog (.buildingBought player key amount) =
      "Bought building: " ++ nameOf catalog.buildings key ++
        " (now have " ++ toString amount.toNat ++ ")" := rfl

theorem message_upgradeBought :
    message catalog (.upgradeBought player key) =
      "Bought upgrade: " ++ nameOf catalog.upgrades key := rfl

theorem message_buildingSold :
    message catalog (.buildingSold player key amount) =
      "Sold building: " ++ nameOf catalog.buildings key ++
        " (now have " ++ toString amount.toNat ++ ")" := rfl

theorem message_prestige :
    message catalog (.prestige player amount) =
      "Performed prestige: " ++
        nameOf (catalog.category Catalog.prestigeKey) Catalog.prestigeKey := rfl

theorem message_achievementUnlocked :
    message catalog (.achievementUnlocked player key amount) =
      "Achievement unlocked: " ++ nameOf catalog.achievements key ++
        " (level " ++ toString amount.toNat ++ ")" := rfl

end Event

/-- An event that is due comes with the message that belongs to it. -/
theorem Due.message_eq {catalog : Catalog} (hkeyed : catalog.Keyed) {p : Player} {event : Event}
    {message : String} (h : Due catalog p event message) : message = event.message catalog := by
  cases h with
  | @buildingBought listed item found =>
    have hkey : item.key = listed := (hkeyed "buildings" listed item found).2
    have hname : nameOf catalog.buildings item.key = item.name := by
      rw [hkey]
      exact nameOf_of_get? found
    rw [Event.message_buildingBought, hname]
  | @upgradeBought listed item found =>
    have hkey : item.key = listed := (hkeyed "upgrades" listed item found).2
    rw [Event.message_upgradeBought, hkey, nameOf_of_get? found]
  | @buildingSold key item found =>
    rw [Event.message_buildingSold, nameOf_of_get? found]
  | @prestige item found =>
    have hname : nameOf (catalog.category Catalog.prestigeKey) Catalog.prestigeKey = item.name :=
      nameOf_of_get? found
    rw [Event.message_prestige, hname]
  | @achievementUnlocked key item level found =>
    rw [Event.message_achievementUnlocked, nameOf_of_get? found]

/-! ## The latest messages -/

/-- The latest messages, oldest first. -/
def latest (capacity : Nat) (messages : List String) : List String :=
  messages.drop (messages.length - capacity)

/-- What was dropped before a message came would be dropped after it. -/
theorem latest_latest_append (capacity : Nat) (messages : List String) (message : String) :
    latest capacity (latest capacity messages ++ [message]) =
      latest capacity (messages ++ [message]) := by
  have happend : latest capacity messages ++ [message] =
      (messages ++ [message]).drop (messages.length - capacity) := by
    rw [latest, List.drop_append_of_le_length (Nat.sub_le _ _)]
  rw [happend, latest, latest, List.drop_drop, List.length_drop, List.length_append,
    List.length_singleton]
  congr 1
  omega

/-- Messages that are written one after the other leave the latest of them all. -/
theorem foldl_latest (capacity : Nat) (messages : List String) :
    messages.foldl (fun log message => latest capacity (log ++ [message])) [] =
      latest capacity messages := by
  induction messages using List.reverseRecOn with
  | nil => rw [latest, List.drop_nil, List.foldl_nil]
  | append_singleton messages message ih =>
    rw [List.foldl_append, ih, List.foldl_cons, List.foldl_nil, latest_latest_append]

/-! ## What a course tells -/

/-- Whether some events say what has become of a player's holdings and log. -/
structure Told (e : Economy) (events : List Event) (p q : Player) : Prop where
  holdings : q.holdings = events.foldl Player.Holdings.replay p.holdings
  log : q.log =
    (events.map (Event.message e.catalog)).foldl
      (fun log message => latest e.settings.logCapacity.toNat (log ++ [message])) p.log

namespace Told

variable {e : Economy} {events others : List Event}

theorem refl (p : Player) : Told e [] p p := ⟨rfl, rfl⟩

theorem trans {p q r : Player} (hpq : Told e events p q) (hqr : Told e others q r) :
    Told e (events ++ others) p r where
  holdings := by rw [hqr.holdings, hpq.holdings, List.foldl_append]
  log := by rw [hqr.log, hpq.log, List.map_append, List.foldl_append]

/-- **Each step raises what tells of it.** -/
theorem step (hkeyed : e.catalog.Keyed) {v w : World} (h : Step e v w) :
    ∃ events, w.raised = v.raised ++ events ∧ Told e events v.player w.player := by
  cases h with
  | hush hquiet =>
    obtain ⟨_, hholdings, hlog⟩ := hquiet.1.same
    exact ⟨[], hquiet.2.trans (List.append_nil _).symm, hholdings, hlog⟩
  | @tell p q event message hbefore hdue hafter hplayer hraised =>
    refine ⟨[event], hraised, ?_, ?_⟩
    · rw [hplayer, List.foldl_cons, List.foldl_nil, ← hbefore.same.2.1, ← p.holdings_settle event]
      exact hafter.same.2.1
    · have hlog : q.log = v.player.log := hafter.same.2.2.trans hbefore.same.2.2
      rw [hplayer, hdue.message_eq hkeyed, List.map_cons, List.map_nil, List.foldl_cons,
        List.foldl_nil, ← hlog]
      rfl

/-- A course raises what tells of all its steps. -/
theorem course (hkeyed : e.catalog.Keyed) {v w : World} (hc : Course e v w) :
    ∃ events, w.raised = v.raised ++ events ∧ Told e events v.player w.player := by
  refine hc.along (fun v w => ∃ events, w.raised = v.raised ++ events ∧
    Told e events v.player w.player) (fun w => ⟨[], (List.append_nil _).symm, refl w.player⟩) ?_
    (fun h => step hkeyed h)
  rintro u v w ⟨events, huv, htold⟩ ⟨others, hvw, hothers⟩
  refine ⟨events ++ others, ?_, htold.trans hothers⟩
  rw [hvw, huv, List.append_assoc]

end Told

/-! ## Sessions -/

namespace Session

/-- The events that a rule tells when it acts. -/
def told {α : Type} (rule : Rule α) (s : Session) : List Event :=
  (rule { s.world with raised := [] }).2.raised

/-- What is told is what those who listen are sent. -/
theorem bus_act {α : Type} (rule : Rule α) (s : Session) :
    (s.act rule).2.bus = (s.bus.publish (s.told rule)).2 := rfl

/-- Makes moves, and lists the events that are told. -/
def play : List Move → Session → List Event × Session
  | [], s => ([], s)
  | move :: rest, s =>
    let rule := move.rule s.economy
    let (others, last) := play rest (s.act rule).2
    (s.told rule ++ others, last)

/-- What a move tells is what it does. -/
theorem told_act (s : Session) (hkeyed : s.economy.catalog.Keyed) (move : Move) :
    Told s.economy (s.told (move.rule s.economy)) s.world.player
      (s.act (move.rule s.economy)).2.world.player := by
  have hcourse := move.course_move s.economy { s.world with raised := [] }
  obtain ⟨events, hraised, htold⟩ := Told.course hkeyed hcourse
  obtain rfl : s.told (move.rule s.economy) = events := hraised
  exact htold

/-- What moves tell is what they do. -/
theorem told_play (moves : List Move) (s : Session) (hkeyed : s.economy.catalog.Keyed) :
    Told s.economy (play moves s).1 s.world.player (play moves s).2.world.player ∧
      (play moves s).2.bus = (s.bus.publish (play moves s).1).2 := by
  induction moves generalizing s with
  | nil => exact ⟨Told.refl _, rfl⟩
  | cons move rest ih =>
    obtain ⟨hrest, hbus⟩ := ih (s.act (move.rule s.economy)).2 hkeyed
    refine ⟨(s.told_act hkeyed move).trans hrest, ?_⟩
    rw [play, hbus, bus_act, EventBus.publish_append]

theorem log_start (id : String) (catalog : Catalog) (now : UInt64) :
    (Player.start id catalog now).log = [] := by
  have hfold : ∀ (entries : List (String × Item)) (p : Player), p.log = [] →
      (entries.foldl (fun p entry => p.startResource entry.1 entry.2.initial) p).log = [] := by
    intro entries
    induction entries with
    | nil =>
      intro p h
      exact h
    | cons entry rest ih =>
      intro p h
      exact ih _ h
  exact hfold catalog.resources.entries _ rfl

/-- **Events tell all**: replaying the events that a session with a new player has told, in order,
gives the buildings, upgrades, achievement levels and prestige of the player; the log consists of
the latest of their messages; and those who listen were sent just these events. -/
theorem replay_told_eq_holdings {document : Json} (e : Economy)
    (hload : Catalog.load document = .ok e.catalog) (id : String) (now : UInt64)
    (evaluator : Formula.Evaluator) (bus : EventBus) (moves : List Move) :
    let start := Player.start id e.catalog now
    let (events, s) := play moves ⟨e, ⟨start, [], evaluator, false⟩, bus⟩
    events.foldl Player.Holdings.replay start.holdings = s.world.player.holdings ∧
      s.world.player.log =
        latest e.settings.logCapacity.toNat (events.map (Event.message e.catalog)) ∧
      s.bus = (bus.publish events).2 := by
  intro start
  obtain ⟨htold, hbus⟩ := told_play moves ⟨e, ⟨start, [], evaluator, false⟩, bus⟩
    (Catalog.keyed_of_load hload)
  have hlog := htold.log
  simp only [show start.log = [] from log_start id e.catalog now, foldl_latest] at hlog
  exact ⟨htold.holdings.symm, hlog, hbus⟩

/-! ### A mill -/

/-- A document of a mill, of a prestige that costs nothing, and of an achievement that the first
mill unlocks. -/
def millDocument : Json := .obj [
  ("achievements", .obj [("owner", .obj [("condition", .str "mill > 0")])]),
  ("buildings", .obj [("mill", .obj [("cost", .obj [("gold", .num (.int 10))])])]),
  ("prestige", .obj [("prestige", .obj [])]),
  ("resources", .obj [("gold", .obj [("initial", .num (.int 40))])])]

/-- The economy of the mill. -/
def millEconomy : Economy := .ofDocument millDocument

theorem load_millDocument : Catalog.load millDocument = .ok millEconomy.catalog :=
  Economy.load_eq_ofDocument (by decide +kernel)

/-- A mill is bought and another sold, and prestige takes the rest; there is no mine to be bought,
and none of the money that is left buys a third mill. -/
theorem replay_told_eq_holdings_of_mill :
    let start := Player.start "ann" millEconomy.catalog 0
    let (events, s) := play
      [.buy "mill", .buy "mine", .unlockAchievements, .buy "mill", .buy "mill", .sell "mill",
        .performPrestige 7, .tick 1000]
      ⟨millEconomy, ⟨start, [], millEconomy.evaluator 0, false⟩, EventBus.empty.subscribe 8⟩
    events = [.buildingBought "ann" "mill" 1, .achievementUnlocked "ann" "owner" 1,
      .buildingBought "ann" "mill" 2, .buildingSold "ann" "mill" 1, .prestige "ann" 1] ∧
    events.foldl Player.Holdings.replay start.holdings = s.world.player.holdings ∧
      s.world.player.log = latest 10 (events.map (Event.message millEconomy.catalog)) ∧
      s.bus = ((EventBus.empty.subscribe 8).publish events).2 := by
  refine ⟨by decide +kernel, ?_⟩
  exact replay_told_eq_holdings millEconomy load_millDocument "ann" 0 (millEconomy.evaluator 0)
    (EventBus.empty.subscribe 8)
    [.buy "mill", .buy "mine", .unlockAchievements, .buy "mill", .buy "mill", .sell "mill",
      .performPrestige 7, .tick 1000]

end Session

end IncrementalGame
