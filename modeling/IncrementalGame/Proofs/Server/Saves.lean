import IncrementalGame.Proofs.Economy.Rules
import IncrementalGame.Proofs.Fallible
import IncrementalGame.Server.Tick

/-!
# What a server stores

A command stores at most one player, and an update of a tick at most one: what a rule makes of the
player that is stored, or a new player.  `Stores` says so of any step of a server, with the player
that is stored and whether the step succeeds, and `Server.saves` collects the players that the
orders to a server store with success.
-/

namespace IncrementalGame.Server

variable {σ : Type} [PlayerStore σ]

/-- The player stored under an id, if there is one and it can be read. -/
def stored (s : Server σ) (id : String) : Option Player :=
  match PlayerStore.load s.store id with
  | .ok text => Snapshot.decode text
  | .error _ => none

theorem stored_of_load {s : Server σ} {id text : String}
    (h : PlayerStore.load s.store id = .ok text) :
    s.stored id = Snapshot.decode text := by rw [stored, h]

theorem exists_load_of_stored {s : Server σ} {id : String} {p : Player} (h : s.stored id = some p) :
    ∃ text, PlayerStore.load s.store id = .ok text ∧ Snapshot.decode text = some p := by
  rw [stored] at h
  cases hload : PlayerStore.load s.store id with
  | error error =>
    rw [hload] at h
    exact absurd h (by simp)
  | ok text =>
    rw [hload] at h
    exact ⟨text, rfl, h⟩

/-- The world in which a rule leaves the player stored under an id, unless it is broken off. -/
def operated {α : Type} (s : Server σ) (id : String) (rule : Rule α) : Option World :=
  (s.stored id).bind fun p => (rule.result? ⟨p, [], s.evaluator, false⟩).map (·.2)

/-- What a rule makes of the player stored under an id. -/
def changed {α : Type} (s : Server σ) (id : String) (rule : Rule α) : Option Player :=
  (s.operated id rule).map (·.player)

theorem operated_of_stored {α : Type} {s : Server σ} {id : String} {p : Player}
    (h : s.stored id = some p) (rule : Rule α) :
    s.operated id rule = (rule.result? ⟨p, [], s.evaluator, false⟩).map (·.2) := by
  rw [operated, h, Option.bind_some]

/-- What is reached, a rule has led to from a player that was stored. -/
theorem exists_of_operated {α : Type} {s : Server σ} {id : String} {rule : Rule α} {w : World}
    (h : s.operated id rule = some w) :
    ∃ p, s.stored id = some p ∧ w.broken = false ∧ w = (rule ⟨p, [], s.evaluator, false⟩).2 := by
  obtain ⟨p, hstored, hreached⟩ := Option.bind_eq_some_iff.mp h
  obtain ⟨⟨a, v⟩, hresult, rfl⟩ := Option.map_eq_some_iff.mp hreached
  obtain ⟨hbroken, hrule⟩ := Rule.result?_eq_some_iff.mp hresult
  exact ⟨p, hstored, hbroken, by rw [hrule]⟩

theorem find_of_stored {s : Server σ} {id : String} {p : Player} (h : s.stored id = some p) :
    find id s = (.ok p, s) := by
  rw [stored] at h
  rw [find, Fallible.bind_get]
  cases hload : PlayerStore.load s.store id with
  | error error =>
    rw [hload] at h
    exact absurd h (by simp)
  | ok text =>
    rw [hload] at h
    simp only [h]
    rfl

theorem find_of_not_stored {s : Server σ} {id : String} (h : s.stored id = none) :
    ∃ error, find id s = (.error error, s) := by
  rw [stored] at h
  rw [find, Fallible.bind_get]
  cases hload : PlayerStore.load s.store id with
  | error error => cases error <;> exact ⟨_, rfl⟩
  | ok text =>
    rw [hload] at h
    simp only [h]
    exact ⟨_, rfl⟩

theorem exists_of_changed {α : Type} {s : Server σ} {id : String} {rule : Rule α} {q : Player}
    (h : s.changed id rule = some q) :
    ∃ p, s.stored id = some p ∧ q = (rule ⟨p, [], s.evaluator, false⟩).2.player := by
  obtain ⟨w, hoperated, rfl⟩ := Option.map_eq_some_iff.mp h
  obtain ⟨p, hstored, -, rfl⟩ := exists_of_operated hoperated
  exact ⟨p, hstored, rfl⟩

/-! ## What a request stores -/

/-- Whether a server keeps what it has stored, or stores one player, and succeeds if the store
does. -/
inductive Stores (s s' : Server σ) (player : Option Player) (succeeded : Bool) : Prop where
  | keep (store : s'.store = s.store)
  | write (id : String) (p : Player) (changed : player = some p)
    (store : s'.store = (PlayerStore.save s.store id (Snapshot.encode p)).2)
    (success : (PlayerStore.save s.store id (Snapshot.encode p)).1 = .ok () → succeeded = true)

omit [PlayerStore σ] in
theorem act_apply {α : Type} (p : Player) (rule : Rule α) (s : Server σ) :
    act p rule s =
      ((rule.result? ⟨p, [], s.evaluator, false⟩).map fun r => (r.1, r.2.player, r.2.raised),
        { s with evaluator := (rule ⟨p, [], s.evaluator, false⟩).2.evaluator }) := by
  rw [Rule.result?_apply]
  show (if (rule ⟨p, [], s.evaluator, false⟩).2.broken then none else _, _) = _
  split <;> rfl

/-- The server after a text was given to its store. -/
abbrev given (s : Server σ) (id text : String) : Server σ := (saveText id text s).2

/-- Storing a player fails just when the store fails. -/
theorem save_of_ok {p : Player} {s : Server σ}
    (h : (PlayerStore.save s.store p.id (Snapshot.encode p)).1 = .ok ()) :
    save p s = (.ok (), s.given p.id (Snapshot.encode p)) := by
  have hresult : (saveText p.id (Snapshot.encode p) s).1 = .ok () := h
  rw [save, Fallible.bind_lift, hresult]
  rfl

theorem save_of_error {p : Player} {s : Server σ} {error : StoreError}
    (h : (PlayerStore.save s.store p.id (Snapshot.encode p)).1 = .error error) :
    save p s = (.error (ServiceError.store error), s.given p.id (Snapshot.encode p)) := by
  have hresult : (saveText p.id (Snapshot.encode p) s).1 = .error error := h
  rw [save, Fallible.bind_lift, hresult]
  rfl

/-- What stores a player and then only tells of it. -/
theorem stores_save {α : Type} {s t : Server σ} (hstore : t.store = s.store) (p : Player)
    (rest : Request σ α) (hrest : ∀ t, ∃ a t', rest t = (.ok a, t') ∧ t'.store = t.store) :
    Stores s ((save p >>= fun _ => rest) t).2 (some p) ((save p >>= fun _ => rest) t).1.isOk := by
  cases hsave : (PlayerStore.save t.store p.id (Snapshot.encode p)).1 with
  | error error =>
    rw [Fallible.bind_error _ (save_of_error hsave)]
    rw [hstore] at hsave
    refine .write p.id p rfl ?_ fun hok => absurd (hsave.symm.trans hok) (by simp)
    rw [← hstore]
    rfl
  | ok _ =>
    obtain ⟨a, t', ht', hstore'⟩ := hrest (t.given p.id (Snapshot.encode p))
    rw [Fallible.bind_ok _ (save_of_ok hsave), ht']
    refine .write p.id p rfl ?_ fun _ => rfl
    rw [← hstore]
    exact hstore'

theorem create_of_known {id : String} {s : Server σ} (h : PlayerStore.contains s.store id = true)
    (now : UInt64) : create id now s = (.error (.playerExists id), s) := by
  rw [create, Fallible.bind_get, if_pos h, Fallible.bind_error _ (Fallible.throw_apply _ s)]

/-- Who is not stored yet is created by being stored. -/
theorem create_of_unknown {id : String} {s : Server σ}
    (h : ¬PlayerStore.contains s.store id = true) (now : UInt64) :
    create id now s =
      (save (Player.start id s.economy.catalog now) >>=
        fun _ => pure (Player.start id s.economy.catalog now)) s := by
  rw [create, Fallible.bind_get, if_neg h]

theorem stores_create (id : String) (now : UInt64) (s : Server σ) :
    Stores s (create id now s).2 (some (Player.start id s.economy.catalog now))
      (create id now s).1.isOk := by
  by_cases hexists : PlayerStore.contains s.store id = true
  · rw [create_of_known hexists]
    exact .keep rfl
  · rw [create_of_unknown hexists]
    exact stores_save rfl _ _ fun t => ⟨_, t, rfl, rfl⟩

/-- A request to change a player stores what the rule makes of it. -/
theorem stores_commit {α : Type} (id : String) (action : Economy → Action α) (s : Server σ) :
    Stores s (commit id action s).2 (s.changed id (action s.economy).run)
      (commit id action s).1.isOk := by
  cases h : s.stored id with
  | none =>
    obtain ⟨error, hfind⟩ := find_of_not_stored h
    rw [commit, Fallible.bind_error _ hfind]
    exact .keep rfl
  | some p =>
    rw [changed, operated_of_stored h, commit, Fallible.bind_ok _ (find_of_stored h),
      Fallible.bind_get, Fallible.bind_lift, act_apply]
    cases Rule.result? (action s.economy).run ⟨p, [], s.evaluator, false⟩ with
    | none => exact .keep rfl
    | some outcome =>
      obtain ⟨result, world⟩ := outcome
      cases result with
      | error error => exact .keep rfl
      | ok a =>
        have htell : ∀ t : Server σ, ∃ a' t',
            (do modify fun t => t.publish world.raised; pure a : Request σ α) t = (.ok a', t') ∧
              t'.store = t.store :=
          fun t => ⟨a, t.publish world.raised, rfl, rfl⟩
        let acted : Server σ :=
          { s with evaluator := ((action s.economy).run ⟨p, [], s.evaluator, false⟩).2.evaluator }
        exact stores_save (s := s) (t := acted) rfl world.player _ htell

/-! ## Commands -/

/-- The player that a command stores if it succeeds. -/
def attempted (s : Server σ) (id : String) (now : UInt64) : Command → Option Player
  | .create => some (Player.start id s.economy.catalog now)
  | .buy key => s.changed id (s.economy.buy key).run
  | .sell key => s.changed id (s.economy.sell key).run
  | .prestige => s.changed id (s.economy.performPrestige now).run
  | .status | .resources | .buildings | .help => none

omit [PlayerStore σ] in
/-- A reply changes neither the server nor whether the request succeeds. -/
theorem reply_apply {α β : Type} (request : Request σ α) (f : α → β) (s : Server σ) :
    ((request >>= fun a => pure (f a)) s).2 = (request s).2 ∧
      ((request >>= fun a => pure (f a)) s).1.isOk = (request s).1.isOk := by
  rcases hrequest : request s with ⟨result, t⟩
  cases result with
  | error error =>
    rw [Fallible.bind_error _ hrequest]
    exact ⟨rfl, rfl⟩
  | ok a =>
    rw [Fallible.bind_ok _ hrequest]
    exact ⟨rfl, rfl⟩

/-- A reply changes nothing about what is stored. -/
theorem Stores.reply {α β : Type} {s : Server σ} {player : Option Player} {request : Request σ α}
    (h : Stores s (request s).2 player (request s).1.isOk) (f : α → β) :
    Stores s ((request >>= fun a => pure (f a)) s).2 player
      ((request >>= fun a => pure (f a)) s).1.isOk := by
  obtain ⟨hserver, hok⟩ := reply_apply request f s
  rw [hserver, hok]
  exact h

/-- A look-up leaves the server as it is. -/
theorem find_apply (id : String) (s : Server σ) : (find id s).2 = s := by
  cases h : s.stored id with
  | none =>
    obtain ⟨error, hfind⟩ := find_of_not_stored h
    rw [hfind]
  | some p => rw [find_of_stored h]

theorem stores_find (id : String) (s : Server σ) :
    Stores s (find id s).2 none (find id s).1.isOk := by
  rw [find_apply]
  exact .keep rfl

theorem stores_execute (id : String) (now : UInt64) (command : Command) (s : Server σ) :
    Stores s (execute id now command s).2 (s.attempted id now command)
      (execute id now command s).1.isOk := by
  cases command with
  | create => exact (stores_create id now s).reply fun _ => Reply.created id
  | buy key => exact (stores_commit id (fun e => e.buy key) s).reply Reply.bought
  | sell key => exact (stores_commit id (fun e => e.sell key) s).reply (Reply.sold key)
  | prestige => exact (stores_commit id (fun e => e.performPrestige now) s).reply Reply.prestige
  | status => exact (stores_find id s).reply Reply.status
  | resources => exact (stores_find id s).reply Reply.resources
  | buildings => exact (stores_find id s).reply Reply.buildings
  | help => exact .keep rfl

/-! ## Ticks -/

section Advance

variable {s : Server σ} {id : String}

theorem advance_of_load_error {error : StoreError} (h : PlayerStore.load s.store id = .error error)
    (now : UInt64) (index : Nat) :
    advance now index id s = (.error (.player id error), s) := by
  rw [advance, Fallible.bind_get, h]
  rfl

theorem advance_of_unreadable {text : String} (h : PlayerStore.load s.store id = .ok text)
    (hdecode : Snapshot.decode text = none) (now : UInt64) (index : Nat) :
    advance now index id s = (.error (.unreadable index), s) := by
  rw [advance, Fallible.bind_get, h]
  simp only [hdecode]
  rfl

/-- What can be read is advanced and then given to the store, unless the tick is broken off. -/
theorem advance_of_stored {p : Player} (h : s.stored id = some p) (now : UInt64) (index : Nat) :
    let world := (s.economy.tick now ⟨p, [], s.evaluator, false⟩).2
    let acted := { s with evaluator := world.evaluator }
    let given := acted.given id (Snapshot.encode world.player)
    advance now index id s =
      if world.broken then (.error .aborted, acted)
      else match (PlayerStore.save s.store id (Snapshot.encode world.player)).1 with
        | .error error => (.error (.player id error), given)
        | .ok _ => (.ok id, given.publish world.raised) := by
  intro world acted given
  obtain ⟨text, hload, hdecode⟩ := exists_load_of_stored h
  rw [advance, Fallible.bind_get, hload]
  simp only [hdecode]
  rw [Fallible.bind_get, Fallible.bind_lift, act_apply, Rule.result?_apply]
  cases hbroken : world.broken with
  | true => rfl
  | false =>
    rw [if_neg Bool.false_ne_true, Option.map_some]
    simp only [Bool.false_eq_true, if_false]
    rw [Fallible.bind_lift]
    have hresult : (saveText id (Snapshot.encode world.player) acted).1 =
        (PlayerStore.save s.store id (Snapshot.encode world.player)).1 := rfl
    rw [hresult]
    cases (PlayerStore.save s.store id (Snapshot.encode world.player)).1 <;> rfl

end Advance

/-- **A player is advanced** if it can be read, if the tick is not broken off, and if what comes of
it can be stored. -/
theorem advance_cases (now : UInt64) (index : Nat) (id : String) (s : Server σ) :
    (∃ failure, failure ≠ .aborted ∧ s.stored id = none ∧
      advance now index id s = (.error failure, s)) ∨
      ∃ p world, s.stored id = some p ∧ world = (s.economy.tick now ⟨p, [], s.evaluator, false⟩).2 ∧
        let saved := PlayerStore.save s.store id (Snapshot.encode world.player)
        let acted := { s with evaluator := world.evaluator }
        let given := acted.given id (Snapshot.encode world.player)
        (world.broken = true ∧ advance now index id s = (.error .aborted, acted)) ∨
        world.broken = false ∧
          ((∃ error, saved.1 = .error error ∧
            advance now index id s = (.error (.player id error), given)) ∨
          saved.1 = .ok () ∧ advance now index id s = (.ok id, given.publish world.raised)) := by
  cases hstored : s.stored id with
  | none =>
    left
    cases hload : PlayerStore.load s.store id with
    | error error =>
      exact ⟨_, TickFailure.noConfusion, rfl, advance_of_load_error hload now index⟩
    | ok text =>
      rw [stored, hload] at hstored
      exact ⟨_, TickFailure.noConfusion, rfl, advance_of_unreadable hload hstored now index⟩
  | some p =>
    right
    refine ⟨p, _, rfl, rfl, ?_⟩
    have hadvance := advance_of_stored hstored now index
    simp only at hadvance ⊢
    split at hadvance
    next hbroken => exact .inl ⟨hbroken, hadvance⟩
    next hbroken =>
      refine .inr ⟨Bool.not_eq_true _ ▸ hbroken, ?_⟩
      cases hsave : (PlayerStore.save s.store id
          (Snapshot.encode (s.economy.tick now ⟨p, [], s.evaluator, false⟩).2.player)).1 with
      | error error =>
        rw [hsave] at hadvance
        exact .inl ⟨error, rfl, hadvance⟩
      | ok _ =>
        rw [hsave] at hadvance
        exact .inr ⟨rfl, hadvance⟩

/-- What is reached of a player is the world that its tick leads to. -/
theorem operated_tick {s : Server σ} {id : String} {p : Player} {now : UInt64} {world : World}
    (hstored : s.stored id = some p)
    (hworld : world = (s.economy.tick now ⟨p, [], s.evaluator, false⟩).2)
    (hbroken : world.broken = false) : s.operated id (s.economy.tick now) = some world := by
  rw [hworld] at hbroken
  rw [operated_of_stored hstored, Rule.result?_of_unbroken hbroken, Option.map_some, hworld]

/-- An update of a player stores what the tick makes of it. -/
theorem stores_advance (now : UInt64) (index : Nat) (id : String) (s : Server σ) :
    Stores s (advance now index id s).2 (s.changed id (s.economy.tick now))
      (advance now index id s).1.isOk := by
  rcases advance_cases now index id s with ⟨_, _, _, h⟩ |
    ⟨p, world, hstored, hworld, ⟨_, h⟩ | ⟨hbroken, h⟩⟩
  · rw [h]
    exact .keep rfl
  · rw [h]
    exact .keep rfl
  · rw [changed, operated_tick hstored hworld hbroken, Option.map_some]
    rcases h with ⟨error, hsave, h⟩ | ⟨_, h⟩
    · rw [h]
      exact .write id world.player rfl rfl fun hok => absurd (hsave.symm.trans hok) (by simp)
    · rw [h]
      exact .write id world.player rfl rfl fun _ => rfl

/-- The player that a tick stores for an entry if it succeeds. -/
def ticked (s : Server σ) (now : UInt64) : Except StoreError String → Option Player
  | .ok text => (Snapshot.decode text).bind fun p => s.changed p.id (s.economy.tick now)
  | .error _ => none

theorem stores_advanceEntry (now : UInt64) (index : Nat) (entry : Except StoreError String)
    (s : Server σ) :
    Stores s (advanceEntry now index entry s).2 (s.ticked now entry)
      (advanceEntry now index entry s).1.isOk := by
  cases entry with
  | error error => exact .keep rfl
  | ok text =>
    cases hdecode : Snapshot.decode text with
    | none =>
      simp only [advanceEntry, hdecode]
      exact .keep rfl
    | some p =>
      simp only [advanceEntry, ticked, hdecode]
      exact stores_advance now index p.id s

/-- A tick lists the players, updates them and reports on that. -/
theorem tick_apply (now : UInt64) (s : Server σ) :
    tick now s =
      (match PlayerStore.loadAll s.store with
        | .error error => report [.error (.listing error)]
        | .ok entries => advanceAll now 0 entries >>= report) s := rfl

/-- A report stores nothing, so a tick stores what its updates store. -/
theorem store_tick_of_ok {s : Server σ} {entries : List (Except StoreError String)}
    (h : PlayerStore.loadAll s.store = .ok entries) (now : UInt64) :
    (tick now s).2.store = (advanceAll now 0 entries s).2.store := by
  rw [tick_apply, h]
  rfl

theorem store_tick_of_error {s : Server σ} {error : StoreError}
    (h : PlayerStore.loadAll s.store = .error error) (now : UInt64) :
    (tick now s).2.store = s.store := by
  rw [tick_apply, h]
  rfl

/-! ## Orders -/

/-- What a server may be told to do. -/
inductive Order where
  /-- A command for a player. -/
  | command (id : String) (now : UInt64) (command : Command)
  /-- A tick. -/
  | tick (now : UInt64)

/-- The server after an order. -/
def obey (s : Server σ) : Order → Server σ
  | .command id now command => (execute id now command s).2
  | .tick now => (tick now s).2

/-- The server after some orders. -/
def obeyAll (s : Server σ) (orders : List Order) : Server σ := orders.foldl obey s

theorem obeyAll_nil (s : Server σ) : s.obeyAll [] = s := rfl

theorem obeyAll_cons (s : Server σ) (order : Order) (rest : List Order) :
    s.obeyAll (order :: rest) = (s.obey order).obeyAll rest := rfl

theorem obeyAll_append (s : Server σ) (orders others : List Order) :
    s.obeyAll (orders ++ others) = (s.obeyAll orders).obeyAll others := List.foldl_append

/-- What was to be stored, if it was. -/
def savedIf (succeeded : Bool) (player : Option Player) : List Player :=
  if succeeded then player.toList else []

theorem eq_some_of_mem_savedIf {succeeded : Bool} {player : Option Player} {p : Player}
    (hp : p ∈ savedIf succeeded player) : player = some p := by
  cases succeeded with
  | false => exact absurd hp List.not_mem_nil
  | true => exact Option.mem_toList.mp hp

/-- The players that a tick stores for entries, the first of which has the given index. -/
def entrySaves (now : UInt64) : Nat → List (Except StoreError String) → Server σ → List Player
  | _, [], _ => []
  | index, entry :: rest, s =>
    savedIf (advanceEntry now index entry s).1.isOk (s.ticked now entry) ++
      entrySaves now (index + 1) rest (advanceEntry now index entry s).2

/-- The players that an order stores with success. -/
def saves (s : Server σ) : Order → List Player
  | .command id now command =>
    savedIf (execute id now command s).1.isOk (s.attempted id now command)
  | .tick now =>
    match PlayerStore.loadAll s.store with
    | .ok entries => entrySaves now 0 entries s
    | .error _ => []

/-- The players that orders store with success, in their order. -/
def allSaves : Server σ → List Order → List Player
  | _, [] => []
  | s, order :: rest => s.saves order ++ (s.obey order).allSaves rest

theorem allSaves_append (s : Server σ) (orders others : List Order) :
    s.allSaves (orders ++ others) = s.allSaves orders ++ (s.obeyAll orders).allSaves others := by
  induction orders generalizing s with
  | nil => rfl
  | cons order rest ih =>
    rw [List.cons_append, allSaves, allSaves, ih, List.append_assoc]
    rfl

end IncrementalGame.Server
