import IncrementalGame.Proofs.Economy.EventLog
import IncrementalGame.Proofs.Server.Saves
import IncrementalGame.Proofs.Server.SteadyStore

/-!
# What is told has been stored

An operation of the economy reaches a server as a command or as the update of a player in a tick.
Either way it comes to one of two things (`Commits`).  It is refused: then no entry of the store has
changed and nobody was told anything, whether it was the look-up, the decoder, the rules or the
store that failed, or a formula that has broken it off.  Or it is committed: then the store was given
one text and took it, and after that the events that the operation raised were published, in order.

Nothing else that a server does publishes anything, so along any orders what those who listen were
told is what the committed operations have raised, one after the other (`Server.told_eq_committed`).
-/

namespace IncrementalGame.Server

variable {σ : Type} [PlayerStore σ]

/-! ## Calls -/

/-- The calls of handlers in a journal. -/
def callsIn (journal : List Deed) : List (Nat × Event) :=
  journal.filterMap fun
    | .called handler event => some (handler, event)
    | .saved _ _ | .refused _ _ _ => none

/-- How calls are written to a journal. -/
def deedsOf (calls : List (Nat × Event)) : List Deed := calls.map fun call => .called call.1 call.2

theorem callsIn_deedsOf (calls : List (Nat × Event)) : callsIn (deedsOf calls) = calls := by
  rw [callsIn, deedsOf, List.filterMap_map]
  exact List.filterMap_some

theorem callsIn_append (journal others : List Deed) :
    callsIn (journal ++ others) = callsIn journal ++ callsIn others := List.filterMap_append

theorem callsIn_saved (id text : String) (journal : List Deed) :
    callsIn (.saved id text :: journal) = callsIn journal := rfl

theorem callsIn_ofSave (id text : String) (result : Except StoreError Unit) :
    callsIn [.ofSave id text result] = [] := by cases result <;> rfl

/-- Whether just these events were published between two states of a server. -/
structure Tells (s s' : Server σ) (events : List Event) : Prop where
  bus : s'.bus = (s.bus.publish events).2
  calls : callsIn s'.journal = callsIn s.journal ++ (s.bus.publish events).1

namespace Tells

variable {s t u : Server σ}

omit [PlayerStore σ] in
theorem nothing (bus : t.bus = s.bus) (calls : callsIn t.journal = callsIn s.journal) :
    Tells s t [] := ⟨bus, by rw [calls, EventBus.publish, List.append_nil]⟩

omit [PlayerStore σ] in
theorem append {events others : List Event} (h : Tells s t events) (h' : Tells t u others) :
    Tells s u (events ++ others) := by
  constructor
  · rw [h'.bus, h.bus, EventBus.publish_append]
  · rw [h'.calls, h.calls, h.bus, EventBus.publish_append, List.append_assoc]

end Tells

/-! ## Operations -/

/-- What became of an operation, given the world it leads to and whether it succeeded. -/
inductive Commits (s s' : Server σ) (operated : Option World) : Bool → Prop where
  /-- The entries are as they were, and nobody was told anything. -/
  | refused (entries : SameEntries s.store s'.store) (bus : s'.bus = s.bus)
    (journal : s'.journal = s.journal ∨
      ∃ id text error, s'.journal = s.journal ++ [.refused id text error]) :
    Commits s s' operated false
  /-- One text was stored, and then the events were published. -/
  | committed (id : String) (w : World) (reached : operated = some w)
    (stored : PlayerStore.save s.store id (Snapshot.encode w.player) = (.ok (), s'.store))
    (bus : s'.bus = (s.bus.publish w.raised).2)
    (journal : s'.journal = s.journal ++ .saved id (Snapshot.encode w.player) ::
      deedsOf (s.bus.publish w.raised).1) :
    Commits s s' operated true

/-- The world that was reached, if that was committed. -/
def reachedIf (succeeded : Bool) (operated : Option World) : List World :=
  if succeeded then operated.toList else []

/-- What is told of an operation is what it has raised, if it was committed. -/
theorem Commits.tells {s s' : Server σ} {operated : Option World} {succeeded : Bool}
    (h : Commits s s' operated succeeded) :
    Tells s s' ((reachedIf succeeded operated).flatMap fun w => w.raised) := by
  cases h with
  | refused entries bus journal =>
    refine .nothing bus ?_
    rcases journal with journal | ⟨id, text, error, journal⟩
    · rw [journal]
    · rw [journal, callsIn_append]
      exact List.append_nil _
  | committed id w reached stored bus journal =>
    rw [reached]
    have hraised : ((reachedIf true (some w)).flatMap fun w => w.raised) = w.raised :=
      List.append_nil w.raised
    rw [hraised]
    refine ⟨bus, ?_⟩
    rw [journal, callsIn_append, callsIn_saved, callsIn_deedsOf]

omit [PlayerStore σ] in
theorem journal_publish (s : Server σ) (events : List Event) :
    (s.publish events).journal = s.journal ++ deedsOf (s.bus.publish events).1 := rfl

theorem journal_given {s : Server σ} {id text : String} {result : Except StoreError Unit}
    (h : (PlayerStore.save s.store id text).1 = result) :
    (s.given id text).journal = s.journal ++ [.ofSave id text result] := by
  rw [← h]
  rfl

variable [SteadyStore σ]

theorem Commits.of_error {s t : Server σ} {id text : String} {error : StoreError}
    {operated : Option World} (hstore : t.store = s.store) (hbus : t.bus = s.bus)
    (hjournal : t.journal = s.journal)
    (h : (PlayerStore.save s.store id text).1 = .error error) :
    Commits s (t.given id text) operated false := by
  refine .refused ?_ hbus (.inr ⟨id, text, error, ?_⟩)
  · show SameEntries s.store (PlayerStore.save t.store id text).2
    rw [hstore]
    exact SteadyStore.sameEntries_of_error s.store id text h
  · rw [← hstore] at h
    rw [journal_given h, hjournal]
    rfl

omit [SteadyStore σ] in
theorem Commits.of_ok {s t : Server σ} {id : String} {w : World} (hstore : t.store = s.store)
    (hbus : t.bus = s.bus) (hjournal : t.journal = s.journal)
    (h : (PlayerStore.save s.store id (Snapshot.encode w.player)).1 = .ok ()) :
    Commits s ((t.given id (Snapshot.encode w.player)).publish w.raised) (some w) true := by
  refine .committed id w rfl ?_ ?_ ?_
  · show _ = (Except.ok (), (PlayerStore.save t.store id (Snapshot.encode w.player)).2)
    rw [hstore, ← h]
  · rw [← hbus]
    rfl
  · rw [← hstore] at h
    rw [journal_publish, journal_given h, hjournal, List.append_assoc, ← hbus]
    rfl

/-- **A request commits or is refused.** -/
theorem commits_commit {α : Type} (id : String) (action : Economy → Action α) (s : Server σ) :
    Commits s (commit id action s).2 (s.operated id (action s.economy).run)
      (commit id action s).1.isOk := by
  cases h : s.stored id with
  | none =>
    obtain ⟨error, hfind⟩ := find_of_not_stored h
    rw [commit, Fallible.bind_error _ hfind]
    exact .refused (.refl _) rfl (.inl rfl)
  | some p =>
    rw [operated_of_stored h, commit, Fallible.bind_ok _ (find_of_stored h), Fallible.bind_get,
      Fallible.bind_lift, act_apply]
    let acted : Server σ :=
      { s with evaluator := ((action s.economy).run ⟨p, [], s.evaluator, false⟩).2.evaluator }
    cases Rule.result? (action s.economy).run ⟨p, [], s.evaluator, false⟩ with
    | none => exact .refused (.refl _) rfl (.inl rfl)
    | some outcome =>
      obtain ⟨result, world⟩ := outcome
      cases result with
      | error error => exact .refused (.refl _) rfl (.inl rfl)
      | ok a =>
        simp only [Option.map_some]
        cases hsave : (PlayerStore.save s.store world.player.id
            (Snapshot.encode world.player)).1 with
        | error error =>
          rw [Fallible.bind_error _ (save_of_error (s := acted) hsave)]
          exact .of_error rfl rfl rfl hsave
        | ok _ =>
          rw [Fallible.bind_ok _ (save_of_ok (s := acted) hsave)]
          exact .of_ok rfl rfl rfl hsave

omit [SteadyStore σ] in
theorem Commits.reply {α β : Type} {s : Server σ} {operated : Option World} {request : Request σ α}
    (h : Commits s (request s).2 operated (request s).1.isOk) (f : α → β) :
    Commits s ((request >>= fun a => pure (f a)) s).2 operated
      ((request >>= fun a => pure (f a)) s).1.isOk := by
  obtain ⟨hserver, hok⟩ := reply_apply request f s
  rw [hserver, hok]
  exact h

/-- **An update of a player commits or is refused.** -/
theorem commits_advance (now : UInt64) (index : Nat) (id : String) (s : Server σ) :
    Commits s (advance now index id s).2 (s.operated id (s.economy.tick now))
      (advance now index id s).1.isOk := by
  rcases advance_cases now index id s with ⟨_, _, _, h⟩ |
    ⟨p, world, hstored, hworld, ⟨_, h⟩ | ⟨hbroken, h⟩⟩
  · rw [h]
    exact .refused (.refl _) rfl (.inl rfl)
  · rw [h]
    exact .refused (.refl _) rfl (.inl rfl)
  · rw [operated_tick hstored hworld hbroken]
    rcases h with ⟨error, hsave, h⟩ | ⟨hsave, h⟩
    · rw [h]
      exact .of_error rfl rfl rfl hsave
    · rw [h]
      exact .of_ok rfl rfl rfl hsave

/-! ## Commands and entries -/

/-- The world in which the operation leaves its player that a command asks for, if it asks for
one. -/
def operation (s : Server σ) (id : String) (now : UInt64) : Command → Option World
  | .buy key => s.operated id (s.economy.buy key).run
  | .sell key => s.operated id (s.economy.sell key).run
  | .prestige => s.operated id (s.economy.performPrestige now).run
  | .create | .status | .resources | .buildings | .help => none

/-- Whether a command asks for an operation of the economy. -/
def operates : Command → Bool
  | .buy _ | .sell _ | .prestige => true
  | .create | .status | .resources | .buildings | .help => false

theorem commits_execute (id : String) (now : UInt64) {command : Command}
    (h : operates command = true) (s : Server σ) :
    Commits s (execute id now command s).2 (s.operation id now command)
      (execute id now command s).1.isOk := by
  cases command with
  | buy key => exact (commits_commit id (fun e => e.buy key) s).reply Reply.bought
  | sell key => exact (commits_commit id (fun e => e.sell key) s).reply (Reply.sold key)
  | prestige => exact (commits_commit id (fun e => e.performPrestige now) s).reply Reply.prestige
  | create | status | resources | buildings | help => exact absurd h (by simp [operates])

/-- The world in which a tick leaves the player that an entry is about. -/
def operationOn (s : Server σ) (now : UInt64) : Except StoreError String → Option World
  | .ok text => (Snapshot.decode text).bind fun p => s.operated p.id (s.economy.tick now)
  | .error _ => none

theorem commits_advanceEntry (now : UInt64) (index : Nat) (entry : Except StoreError String)
    (s : Server σ) :
    Commits s (advanceEntry now index entry s).2 (s.operationOn now entry)
      (advanceEntry now index entry s).1.isOk := by
  cases entry with
  | error error => exact .refused (.refl _) rfl (.inl rfl)
  | ok text =>
    cases hdecode : Snapshot.decode text with
    | none =>
      simp only [advanceEntry, hdecode]
      exact .refused (.refl _) rfl (.inl rfl)
    | some p =>
      simp only [advanceEntry, operationOn, hdecode]
      exact commits_advance now index p.id s

/-! ## Orders -/

omit [SteadyStore σ] in
/-- To create a player publishes nothing. -/
theorem tells_create (id : String) (now : UInt64) (s : Server σ) :
    Tells s (create id now s).2 [] := by
  by_cases hexists : PlayerStore.contains s.store id = true
  · rw [create_of_known hexists]
    exact .nothing rfl rfl
  · rw [create_of_unknown hexists]
    have hgiven : ∀ id text, callsIn (s.given id text).journal = callsIn s.journal := by
      intro id text
      rw [journal_given rfl, callsIn_append, callsIn_ofSave, List.append_nil]
    cases hsave : (PlayerStore.save s.store (Player.start id s.economy.catalog now).id
        (Snapshot.encode (Player.start id s.economy.catalog now))).1 with
    | error error =>
      rw [Fallible.bind_error _ (save_of_error hsave)]
      exact .nothing rfl (hgiven _ _)
    | ok _ =>
      rw [Fallible.bind_ok _ (save_of_ok hsave)]
      exact .nothing rfl (hgiven _ _)

omit [SteadyStore σ] in
theorem tells_find {β : Type} (id : String) (f : Player → β) (s : Server σ) :
    Tells s ((find id >>= fun p => pure (f p)) s).2 [] := by
  rw [(reply_apply (find id) f s).1, find_apply]
  exact .nothing rfl rfl

/-- The worlds that the committed operations of a tick lead to, for entries the first of which has
the given index. -/
def entryCommits (now : UInt64) : Nat → List (Except StoreError String) → Server σ → List World
  | _, [], _ => []
  | index, entry :: rest, s =>
    reachedIf (advanceEntry now index entry s).1.isOk (s.operationOn now entry) ++
      entryCommits now (index + 1) rest (advanceEntry now index entry s).2

/-- The worlds that the committed operations of an order lead to. -/
def commits (s : Server σ) : Order → List World
  | .command id now command =>
    reachedIf (execute id now command s).1.isOk (s.operation id now command)
  | .tick now =>
    match PlayerStore.loadAll s.store with
    | .ok entries => entryCommits now 0 entries s
    | .error _ => []

/-- The worlds that the committed operations of orders lead to, in their order. -/
def allCommits : Server σ → List Order → List World
  | _, [] => []
  | s, order :: rest => s.commits order ++ (s.obey order).allCommits rest

/-- The events that operations have raised, in the order of the operations. -/
def raisedIn (operations : List World) : List Event := operations.flatMap fun w => w.raised

theorem tells_execute (id : String) (now : UInt64) (command : Command) (s : Server σ) :
    Tells s (execute id now command s).2 (raisedIn (s.commits (.command id now command))) := by
  have hnone : ∀ {t : Server σ} {succeeded : Bool}, Tells s t [] →
      Tells s t (raisedIn (reachedIf succeeded none)) := by
    rintro t (_ | _) h
    · exact h
    · exact h
  cases command with
  | buy key => exact (commits_execute id now rfl s).tells
  | sell key => exact (commits_execute id now rfl s).tells
  | prestige => exact (commits_execute id now rfl s).tells
  | create =>
    have hserver := (reply_apply (create id now) (fun _ => Reply.created id) s).1
    exact hnone (hserver ▸ tells_create id now s)
  | status => exact hnone (tells_find id Reply.status s)
  | resources => exact hnone (tells_find id Reply.resources s)
  | buildings => exact hnone (tells_find id Reply.buildings s)
  | help => exact hnone (.nothing rfl rfl)

theorem tells_advanceAll (now : UInt64) (entries : List (Except StoreError String)) (index : Nat)
    (s : Server σ) :
    Tells s (advanceAll now index entries s).2 (raisedIn (entryCommits now index entries s)) := by
  induction entries generalizing index s with
  | nil => exact .nothing rfl rfl
  | cons entry rest ih =>
    have hfirst := (commits_advanceEntry now index entry s).tells
    have hrest := ih (index + 1) (advanceEntry now index entry s).2
    rw [raisedIn, entryCommits, List.flatMap_append]
    exact hfirst.append hrest

theorem tells_obey (order : Order) (s : Server σ) :
    Tells s (s.obey order) (raisedIn (s.commits order)) := by
  cases order with
  | command id now command => exact tells_execute id now command s
  | tick now =>
    rw [obey, commits, tick_apply]
    cases PlayerStore.loadAll s.store with
    | error error => exact .nothing rfl rfl
    | ok entries =>
      have hupdates := tells_advanceAll now entries 0 s
      exact ⟨hupdates.bus, hupdates.calls⟩

theorem tells_obeyAll (orders : List Order) (s : Server σ) :
    Tells s (s.obeyAll orders) (raisedIn (s.allCommits orders)) := by
  induction orders generalizing s with
  | nil => exact .nothing rfl rfl
  | cons order rest ih =>
    rw [raisedIn, allCommits, List.flatMap_append]
    exact (tells_obey order s).append (ih (s.obey order))

/-- The text of a player with forty gold. -/
def goldText : String := "\x7b\"id\":\"ann\",\"resources\":\x7b\"gold\":40\x7d\x7d"

/-- A server of the mill, with one handler and one subscriber, over a table that has one player and
refuses the first two texts that it is given. -/
def fitfulMill : Server (Fitful MemoryStore) :=
  { ofEconomy Session.millEconomy ⟨MemoryStore.empty.save "ann" goldText, [true, true]⟩ 0 with
    bus := (EventBus.empty.on .buildingBought).subscribe 8 }

/-- A tick and two purchases. -/
def fitfulOrders : List Order :=
  [.tick 1, .command "ann" 2 (.buy "mill"), .command "ann" 3 (.buy "mill")]

end IncrementalGame.Server
