import IncrementalGame.Proofs.Economy.EventLog
import IncrementalGame.Proofs.Server.Agreement
import IncrementalGame.Proofs.Server.Schedule

/-!
# Players are independent

What a player has and what a player is told do not depend on the others (`players_independent`):
leave out their commands, make the updates of each tick in another order, let results be forgotten
at other times, and it comes to the same.  Commands for others are private to them, and in a tick
one update is for the player and the others are for somebody else, so their order does not matter.

The names of a catalog have to be plain for this, and those of the resources that buildings cost are
among them: a building that is sold brings its cost back, so its names become names of variables,
and then two questions about different players may be remembered as one (`exists_dependent`).
-/

namespace IncrementalGame.Server

/-! ## Ticks -/

section Ticks

variable {id other : String} {s s' : Server MemoryStore} {p : Player}

/-- What can be read is stored again as the tick has left it. -/
theorem Sound.keeping_advance (h : Sound s) (hp : s.stored id = some p) (now : UInt64)
    (index : Nat) :
    Keeping s (s.economy.tick now ⟨p, [], s.evaluator, false⟩).2.player (advance now index id s).2 := by
  obtain ⟨-, halike, hid⟩ := (Agree.refl h).act (Economy.blind_tick h.tame now)
    (s.economy.course_tick now) hp
  obtain ⟨t, hadvance, heconomy, hevaluator, hstore⟩ :=
    advance_memory hp h.tame.certain.safe now index rfl
  rw [hadvance]
  refine ⟨heconomy, ?_, ?_, halike.plain⟩
  · rw [hstore, hid]
  · rw [hevaluator]
    exact halike.faithful

theorem advance_of_not_stored (h : s.stored id = none) (now : UInt64) (index : Nat) :
    (advance now index id s).2 = s := by
  rcases advance_cases now index id s with ⟨_, _, _, hadvance⟩ | ⟨_, _, hp, _⟩
  · rw [hadvance]
  · exact absurd (h.symm.trans hp) (by simp)

/-- To advance a player comes to the same in servers that agree about it, whatever the places. -/
theorem Agree.advance (h : Agree id s s') (now : UInt64) (index index' : Nat) :
    Agree id (advance now index id s).2 (advance now index' id s').2 := by
  cases hp : s.stored id with
  | none =>
    rw [advance_of_not_stored hp, advance_of_not_stored (h.stored_eq.trans hp)]
    exact h
  | some p =>
    obtain ⟨-, halike, hid⟩ := h.act (Economy.blind_tick h.sound.tame now)
      (s.economy.course_tick now) hp
    have hkeeping' := h.sound'.keeping_advance (h.stored_eq.trans hp) now index'
    rw [h.economy, halike.player] at hkeeping'
    exact (h.sound.keeping_advance hp now index).agree hkeeping' h hid

/-- To advance somebody else changes nothing about a player. -/
theorem Sound.agree_advance (h : Sound s) (hne : other ≠ id) (now : UInt64) (index : Nat) :
    Agree other s (Server.advance now index id s).2 := by
  cases hp : s.stored id with
  | none =>
    rw [advance_of_not_stored hp]
    exact .refl h
  | some p =>
    obtain ⟨-, -, hid⟩ := (Agree.refl h).act (Economy.blind_tick h.tame now)
      (s.economy.course_tick now) hp
    refine (h.keeping_advance hp now index).agree_of_ne h ?_
    rw [hid]
    exact hne

theorem advanceEntry_of_about {entry : Except StoreError String} (h : about entry = some id)
    (now : UInt64) (index : Nat) (s : Server MemoryStore) :
    advanceEntry now index entry s = Server.advance now index id s := by
  cases entry with
  | error error => exact absurd h (by simp [about])
  | ok text =>
    obtain ⟨p, hdecode, rfl⟩ := Option.map_eq_some_iff.mp h
    simp only [advanceEntry, hdecode]

theorem advanceEntry_of_not_about {entry : Except StoreError String} (h : about entry = none)
    (now : UInt64) (index : Nat) (s : Server MemoryStore) :
    (advanceEntry now index entry s).2 = s := by
  cases entry with
  | error error => rfl
  | ok text =>
    rw [about, Option.map_eq_none_iff] at h
    simp only [advanceEntry, h]
    rfl

/-- The players that updates are for. -/
def subjects (updates : List Update) : List String := aboutAll (updates.map Prod.fst)

theorem subjects_cons (entry : Except StoreError String) (index : Nat) (rest : List Update) :
    subjects ((entry, index) :: rest) = (about entry).toList ++ subjects rest :=
  aboutAll_cons entry (rest.map Prod.fst)

theorem subjects_append (updates others : List Update) :
    subjects (updates ++ others) = subjects updates ++ subjects others := by
  rw [subjects, List.map_append, aboutAll, List.filterMap_append]
  rfl

/-- Updates for other players change nothing about a player. -/
theorem Sound.agree_advanceEach (h : Sound s) {updates : List Update} (hnot : id ∉ subjects updates)
    (now : UInt64) : Agree id s (advanceEach now updates s).2 := by
  induction updates generalizing s with
  | nil => exact .refl h
  | cons update rest ih =>
    obtain ⟨entry, index⟩ := update
    rw [subjects_cons, List.mem_append, not_or] at hnot
    rw [advanceEach_cons]
    cases habout : about entry with
    | none =>
      rw [advanceEntry_of_not_about habout]
      exact ih h hnot.2
    | some other =>
      have hne : id ≠ other := by
        rintro rfl
        exact hnot.1 (by rw [habout]; exact List.mem_cons_self)
      have hfirst := h.agree_advance hne now index
      rw [advanceEntry_of_about habout]
      exact hfirst.trans (ih hfirst.sound' hnot.2)

/-- The one update for a player stands somewhere among updates for others. -/
theorem exists_update {updates : List Update} (hnodup : (subjects updates).Nodup)
    (hmem : id ∈ subjects updates) :
    ∃ before entry index after, updates = before ++ (entry, index) :: after ∧
      about entry = some id ∧ id ∉ subjects before ∧ id ∉ subjects after := by
  obtain ⟨entry, hentry, habout⟩ := List.mem_filterMap.mp hmem
  obtain ⟨⟨entry, index⟩, hupdate, rfl⟩ := List.mem_map.mp hentry
  obtain ⟨before, after, rfl⟩ := List.append_of_mem hupdate
  rw [subjects_append, subjects_cons, habout, Option.toList_some, List.singleton_append,
    List.nodup_middle, List.nodup_cons, List.mem_append, not_or] at hnodup
  exact ⟨before, entry, index, after, rfl, habout, hnodup.1.1, hnodup.1.2⟩

/-- **The order of updates does not matter to a player** who has at most one of them, and the same
number in both servers. -/
theorem Agree.advanceEach (h : Agree id s s') {updates updates' : List Update}
    (hnodup : (subjects updates).Nodup) (hnodup' : (subjects updates').Nodup)
    (hmem : id ∈ subjects updates ↔ id ∈ subjects updates') (now : UInt64) :
    Agree id (advanceEach now updates s).2 (advanceEach now updates' s').2 := by
  by_cases hid : id ∈ subjects updates
  · obtain ⟨before, entry, index, after, rfl, habout, hbefore, hafter⟩ := exists_update hnodup hid
    obtain ⟨before', entry', index', after', rfl, habout', hbefore', hafter'⟩ :=
      exists_update hnodup' (hmem.mp hid)
    rw [advanceEach_append, advanceEach_append, advanceEach_cons, advanceEach_cons,
      advanceEntry_of_about habout, advanceEntry_of_about habout']
    -- up to the update of the player the servers agree, and so they do behind it
    have hstart := (h.sound.agree_advanceEach hbefore now).symm.trans
      (h.trans (h.sound'.agree_advanceEach hbefore' now))
    have hplayer := hstart.advance now index index'
    exact (hplayer.sound.agree_advanceEach hafter now).symm.trans
      (hplayer.trans (hplayer.sound'.agree_advanceEach hafter' now))
  · exact (h.sound.agree_advanceEach hid now).symm.trans
      (h.trans (h.sound'.agree_advanceEach (fun hid' => hid (hmem.mpr hid')) now))

/-- The updates of a tick are for those who can be read, each once. -/
theorem Sound.subjects_perm (h : Sound s) {updates : List Update}
    (horder : updates.Perm (entriesOf s.store).zipIdx) :
    (subjects updates).Nodup ∧ ∀ id, id ∈ subjects updates ↔ (s.stored id).isSome = true := by
  have hperm : (subjects updates).Perm (aboutAll (entriesOf s.store)) := by
    refine List.Perm.filterMap about ?_
    have hmap := horder.map Prod.fst
    rwa [List.zipIdx_map_fst] at hmap
  have hnodup : (aboutAll (entriesOf s.store)).Nodup :=
    (about_of_filed h.filed).nodup s.store.texts.nodup_keys
  refine ⟨hperm.nodup_iff.mpr hnodup, fun id => hperm.mem_iff.trans ?_⟩
  constructor
  · intro hid
    obtain ⟨entry, hentry, habout⟩ := List.mem_filterMap.mp hid
    obtain ⟨⟨key, text⟩, hlisted, rfl⟩ := List.mem_map.mp hentry
    obtain ⟨p, hdecode, rfl⟩ := Option.map_eq_some_iff.mp habout
    have hload := MemoryStore.load_of_get? (KeyMap.mem_entries_iff.mp hlisted)
    obtain rfl : p.id = key := (h.of_decode hload hdecode).1
    rw [stored_of_load hload, hdecode]
    rfl
  · intro hstored
    obtain ⟨p, hp⟩ := Option.isSome_iff_exists.mp hstored
    obtain ⟨text, hload, hdecode⟩ := exists_load_of_stored hp
    refine List.mem_filterMap.mpr ⟨.ok text, List.mem_map.mpr ⟨(id, text), ?_, rfl⟩, ?_⟩
    · exact KeyMap.mem_entries_iff.mpr (MemoryStore.get?_of_load hload)
    · rw [about, hdecode, Option.map_some, (h.of_decode hload hdecode).1]

/-- **A tick keeps servers in agreement about a player**, in whatever order each of them makes its
updates. -/
theorem Agree.tickIn (h : Agree id s s') {updates updates' : List Update}
    (horder : updates.Perm (entriesOf s.store).zipIdx)
    (horder' : updates'.Perm (entriesOf s'.store).zipIdx) (now : UInt64) :
    Agree id (tickIn now updates s).2 (tickIn now updates' s').2 := by
  obtain ⟨hnodup, hmem⟩ := h.sound.subjects_perm horder
  obtain ⟨hnodup', hmem'⟩ := h.sound'.subjects_perm horder'
  have hsame : id ∈ subjects updates ↔ id ∈ subjects updates' := by
    rw [hmem, hmem', h.stored_eq]
  obtain ⟨heconomy, hload, hsound, hsound'⟩ := h.advanceEach hnodup hnodup' hsame now
  -- the report only counts
  exact ⟨heconomy, hload, ⟨hsound.tame, hsound.faithful, hsound.kept⟩,
    ⟨hsound'.tame, hsound'.faithful, hsound'.kept⟩⟩

/-- Updates keep a server sound, however many there are of them. -/
theorem Sound.advanceEach (h : Sound s) (updates : List Update) (now : UInt64) :
    Sound (Server.advanceEach now updates s).2 := by
  induction updates generalizing s with
  | nil => exact h
  | cons update rest ih =>
    obtain ⟨entry, index⟩ := update
    rw [advanceEach_cons]
    cases habout : about entry with
    | none =>
      rw [advanceEntry_of_not_about habout]
      exact ih h
    | some other =>
      rw [advanceEntry_of_about habout]
      exact ih ((Agree.refl h : Agree other s s).advance now index index).sound

end Ticks

/-! ## Runs -/

/-- Whether an order may concern a player: a command for it, or a tick. -/
def Order.concerns (id : String) : Order → Bool
  | .command other _ _ => other == id
  | .tick _ => true

/-- The replies to a player, in order. -/
def repliesTo (id : String) (answers : List Answered) : List (Except ServiceError String) :=
  (answers.filter fun answer => answer.1 == id).map (·.2)

theorem repliesTo_cons_self (id : String) (reply : Except ServiceError String)
    (answers : List Answered) :
    repliesTo id ((id, reply) :: answers) = reply :: repliesTo id answers := by
  rw [repliesTo, List.filter_cons_of_pos (by simp)]
  rfl

theorem repliesTo_cons_of_ne {id other : String} (h : other ≠ id)
    (reply : Except ServiceError String) (answers : List Answered) :
    repliesTo id ((other, reply) :: answers) = repliesTo id answers := by
  rw [repliesTo, List.filter_cons_of_neg (by simpa using h)]
  rfl

variable {id : String} {s s' t t' : Server MemoryStore} {orders : List Order}
  {answers answers' : List Answered}

theorem Sound.atInstant (h : Sound s) (instant : Nat) : Sound (s.atInstant instant) :=
  ⟨h.tame, h.faithful, h.kept⟩

theorem Agree.atInstant (h : Agree id s s') (instant instant' : Nat) :
    Agree id (s.atInstant instant) (s'.atInstant instant') :=
  ⟨h.economy, h.load, h.sound.atInstant instant, h.sound'.atInstant instant'⟩

/-- What servers agree about they agree about behind a run and behind the same run without the
orders that do not concern the player. -/
theorem Agree.run (h : Agree id s s') (run : Runs s orders answers t)
    (alone : Runs s' (orders.filter (·.concerns id)) answers' t') :
    Agree id t t' ∧ repliesTo id answers' = repliesTo id answers := by
  induction run generalizing s' answers' with
  | done s =>
    cases alone
    exact ⟨h, rfl⟩
  | @command instant s t other now command orders answers rest ih =>
    by_cases heq : other = id
    · subst heq
      rw [List.filter_cons_of_pos (by simp [Order.concerns])] at alone
      cases alone with
      | command instant' rest' =>
        obtain ⟨hsame, hafter⟩ := (private_execute other now command).same
          (h.atInstant instant instant')
        obtain ⟨hagree, hreplies⟩ := ih hafter rest'
        rw [repliesTo_cons_self, repliesTo_cons_self, hsame, hreplies]
        exact ⟨hagree, rfl⟩
    · rw [List.filter_cons_of_neg (by simpa [Order.concerns] using heq)] at alone
      have hafter := (private_execute other now command).apart (h.sound.atInstant instant)
        (Ne.symm heq)
      have hstart := h.atInstant instant s'.evaluator.instant
      rw [repliesTo_cons_of_ne heq]
      exact ih (hafter.symm.trans hstart) alone
  | @tick instant s t now updates orders answers order rest ih =>
    rw [List.filter_cons_of_pos rfl] at alone
    cases alone with
    | tick instant' order' rest' =>
      exact ih ((h.atInstant instant instant').tickIn order order' now) rest'

/-- A server that has no players yet is sound. -/
theorem sound_ofEconomy {e : Economy} (h : e.catalog.Tame) (seed : UInt64) :
    Sound (ofEconomy e MemoryStore.empty seed) :=
  ⟨h, Formula.faithful_empty, fun _ _ hload => by cases hload⟩

/-- **Players are independent.**  Let nothing in a catalog hang on chance, and let its names be
plain, those of the resources that buildings cost included.  Then at the end of a run of a server
that has no players at first, whatever the order of the updates in each tick, the same is stored for
a player and it has got the same replies as in a run without the commands for the others.  Each
player is stored under its own id, also in the middle of a tick. -/
theorem players_independent {e : Economy} (hplain : e.catalog.Plain)
    (hcosts : e.catalog.PlainCosts) (hcertain : e.catalog.Certain) {seed seed' : UInt64}
    {orders : List Order} {answers answers' : List Answered} {t t' : Server MemoryStore}
    (id : String) (run : Runs (ofEconomy e .empty seed) orders answers t)
    (alone : Runs (ofEconomy e .empty seed') (orders.filter (·.concerns id)) answers' t') :
    PlayerStore.load t'.store id = PlayerStore.load t.store id ∧
      repliesTo id answers' = repliesTo id answers ∧
      Filed t.store ∧ ∀ now updates, Filed (advanceEach now updates t).2.store := by
  have htame : e.catalog.Tame := ⟨hplain, hcosts, hcertain⟩
  have hstart : Agree id (ofEconomy e MemoryStore.empty seed) (ofEconomy e .empty seed') :=
    ⟨rfl, rfl, sound_ofEconomy htame seed, sound_ofEconomy htame seed'⟩
  obtain ⟨hagree, hreplies⟩ := hstart.run run alone
  exact ⟨hagree.load, hreplies, hagree.sound.filed,
    fun now updates => (hagree.sound.advanceEach updates now).filed⟩

/-- Ann and bob buy a mill each, and what bob has does not depend on ann.  In the second tick the
last of them is updated first. -/
theorem players_independent_of_mill :
    Session.millEconomy.catalog.Plain ∧ Session.millEconomy.catalog.PlainCosts ∧
    Session.millEconomy.catalog.Certain ∧
    ∃ answers answers' t t',
      Runs (ofEconomy Session.millEconomy .empty 3)
        [.command "ann" 1 .create, .command "bob" 2 .create, .command "ann" 3 (.buy "mill"),
          .tick 1000, .command "bob" 1001 (.buy "mill"), .command "ann" 1002 .prestige, .tick 2000]
        answers t ∧
      Runs (ofEconomy Session.millEconomy .empty 4)
        [.command "bob" 2 .create, .tick 1000, .command "bob" 1001 (.buy "mill"), .tick 2000]
        answers' t' ∧
      PlayerStore.load t'.store "bob" = PlayerStore.load t.store "bob" ∧
      repliesTo "bob" answers' = repliesTo "bob" answers ∧
      Filed t.store ∧ ∀ now updates, Filed (advanceEach now updates t).2.store := by
  have hplain : Session.millEconomy.catalog.Plain := by decide +kernel
  have hcosts : Session.millEconomy.catalog.PlainCosts := by decide +kernel
  have hcertain : Session.millEconomy.catalog.Certain := by decide +kernel
  obtain ⟨answers, t, run⟩ : ∃ answers t, Runs (ofEconomy Session.millEconomy .empty 3)
      [.command "ann" 1 .create, .command "bob" 2 .create, .command "ann" 3 (.buy "mill"),
        .tick 1000, .command "bob" 1001 (.buy "mill"), .command "ann" 1002 .prestige, .tick 2000]
      answers t :=
    ⟨_, _, .command 0 <| .command 0 <| .command 5 <| .tick 5 (.refl _) <| .command 6 <|
      .command 400000 <| .tick 400000 (List.reverse_perm _) <| .done _⟩
  obtain ⟨answers', alone⟩ := runs_obeyAll (ofEconomy Session.millEconomy MemoryStore.empty 4)
    [.command "bob" 2 .create, .tick 1000, .command "bob" 1001 (.buy "mill"), .tick 2000]
  exact ⟨hplain, hcosts, hcertain, _, _, _, _, run, alone,
    players_independent hplain hcosts hcertain "bob" run alone⟩

/-! ### A forged name

What ann and bob do is followed for all rules at once, so that only the players that come out have
to be computed for the forged ones. -/

/-- What a server over a table goes on from: what it counts and tells is left out. -/
def core (s : Server MemoryStore) : Economy × Formula.Evaluator × MemoryStore :=
  (s.economy, s.evaluator, s.store)

section Core

variable {s : Server MemoryStore} {e : Economy} {ev : Formula.Evaluator} {store : MemoryStore}
  {id : String} {p : Player}

theorem core_create (h : s.core = (e, ev, store)) (id : String)
    (hnot : ¬PlayerStore.contains store id = true) (now : UInt64) :
    (s.obey (.command id now .create)).core =
      (e, ev, store.save id (Snapshot.encode (.start id e.catalog now))) := by
  obtain ⟨rfl, rfl, rfl⟩ := Prod.mk.injEq .. ▸ h
  rw [obey, execute, (reply_apply _ _ s).1, create_memory hnot, welcomed, id_start]
  rfl

theorem core_conclude {α : Type} {outcome : Except EconomyError α × World}
    (hok : outcome.1.isOk = true) (hbroken : outcome.2.broken = false) :
    (s.conclude outcome).2.core = (s.economy, outcome.2.evaluator,
      s.store.save outcome.2.player.id (Snapshot.encode outcome.2.player)) := by
  rw [conclude, if_neg (by rw [hbroken]; exact Bool.false_ne_true)]
  obtain ⟨result, w⟩ := outcome
  cases result with
  | error refusal => cases hok
  | ok a => rfl

theorem core_sell (h : s.core = (e, ev, store))
    (hload : PlayerStore.load store id = .ok (Snapshot.encode p))
    (hread : Snapshot.decode (Snapshot.encode p) = some p) (key : String)
    (hok : ((e.sell key).run ⟨p, [], ev, false⟩).1.isOk = true) {w : World}
    (hw : w = (e.sell key ⟨p, [], ev, false⟩).2) (hid : w.player.id = id) (now : UInt64) :
    (s.obey (.command id now (.sell key))).core =
      (e, w.evaluator, store.save id (Snapshot.encode w.player)) := by
  obtain ⟨rfl, rfl, rfl⟩ := Prod.mk.injEq .. ▸ h
  have hstored : s.stored id = some p := (stored_of_load hload).trans hread
  have hbroken := s.economy.unbroken_sell key ⟨p, [], s.evaluator, false⟩ rfl
  rw [obey, execute, (reply_apply _ _ s).1, commit_of_stored _ hstored, core_conclude hok hbroken]
  subst hw
  rw [← hid]
  rfl

theorem core_advanceEntry (hsafe : e.catalog.Safe) (h : s.core = (e, ev, store)) (hid : p.id = id)
    (hload : PlayerStore.load store id = .ok (Snapshot.encode p))
    (hread : Snapshot.decode (Snapshot.encode p) = some p) {now : UInt64} {w : World}
    (hw : w = (e.tick now ⟨p, [], ev, false⟩).2) (index : Nat) :
    (advanceEntry now index (.ok (Snapshot.encode p)) s).2.core =
      (e, w.evaluator, store.save id (Snapshot.encode w.player)) := by
  obtain ⟨rfl, rfl, rfl⟩ := Prod.mk.injEq .. ▸ h
  have habout : about (.ok (Snapshot.encode p)) = some id := by
    rw [about, hread, Option.map_some, hid]
  obtain ⟨t, hadvance, heconomy, hevaluator, hstore⟩ :=
    advance_memory ((stored_of_load hload).trans hread) hsafe now index hw
  rw [advanceEntry_of_about habout, hadvance, core, heconomy, hevaluator, hstore]

theorem core_tick (h : s.core = (e, ev, store)) (now : UInt64) :
    (s.obey (.tick now)).core = (advanceEach now (entriesOf store).zipIdx s).2.core := by
  obtain ⟨rfl, rfl, rfl⟩ := Prod.mk.injEq .. ▸ h
  rw [obey, ← tickIn_zipIdx]
  rfl

theorem store_of_core (h : s.core = (e, ev, store)) : s.store = store := congrArg (·.2.2) h

end Core

/-- Ann sells a building and is updated. -/
def planting : List Order := [.command "ann" 0 .create, .command "ann" 0 (.sell "m"), .tick 1]

/-- Bob comes after that, and both are updated. -/
def forgery : List Order := planting ++ [.command "bob" 2 .create, .tick 3]

section Forgery

variable (e : Economy)

/-- A server that has no players yet. -/
def vacant : Server MemoryStore := ofEconomy e .empty 0

/-- Ann at first. -/
def forger : Player := .start "ann" e.catalog 0

/-- Bob at first. -/
def victim : Player := .start "bob" e.catalog 2

/-- Ann after the sale. -/
def sale : World := (e.sell "m" ⟨forger e, [], e.evaluator 0, false⟩).2

/-- Ann after her first update. -/
def asked : World := (e.tick 1 ⟨(sale e).player, [], (sale e).evaluator, false⟩).2

/-- Ann after her second update. -/
def askedAgain : World := (e.tick 3 ⟨(asked e).player, [], (asked e).evaluator, false⟩).2

/-- Bob after an update by an evaluator. -/
def answered (ev : Formula.Evaluator) : World := (e.tick 3 ⟨victim e, [], ev, false⟩).2

variable {e}

theorem id_sale : (sale e).player.id = "ann" := (e.course_sell _ "m").id_eq.trans (id_start _ _ _)

theorem id_asked : (asked e).player.id = "ann" := (e.course_tick 1 _).id_eq.trans id_sale

/-- What ann does leaves her as she is after her first update, and what she was asked is
remembered. -/
theorem core_planting (hsafe : e.catalog.Safe)
    (hok : ((e.sell "m").run ⟨forger e, [], e.evaluator 0, false⟩).1.isOk = true)
    (hforger : Snapshot.decode (Snapshot.encode (forger e)) = some (forger e))
    (hseller : Snapshot.decode (Snapshot.encode (sale e).player) = some (sale e).player) :
    ((vacant e).obeyAll planting).core =
      (e, (asked e).evaluator, MemoryStore.empty.save "ann" (Snapshot.encode (asked e).player)) := by
  have hempty : (vacant e).core = (e, e.evaluator 0, .empty) := rfl
  simp only [planting, obeyAll_cons, obeyAll_nil]
  generalize vacant e = s at hempty ⊢
  have hcreated := core_create hempty "ann" (by decide) 0
  generalize s.obey (.command "ann" 0 .create) = s at hcreated ⊢
  have hsold := core_sell hcreated (load_save_memory _ _ _) hforger "m" hok (w := sale e) rfl id_sale
    0
  rw [save_save_memory] at hsold
  generalize s.obey (.command "ann" 0 (.sell "m")) = s at hsold ⊢
  rw [core_tick hsold, entriesOf_single, List.zipIdx_singleton, advanceEach_cons, advanceEach_nil,
    core_advanceEntry hsafe hsold id_sale (load_save_memory _ _ _) hseller (w := asked e) rfl,
    save_save_memory]

/-- With ann, the evaluator that updates bob has been asked about her twice. -/
theorem load_forgery (hsafe : e.catalog.Safe)
    (hok : ((e.sell "m").run ⟨forger e, [], e.evaluator 0, false⟩).1.isOk = true)
    (hforger : Snapshot.decode (Snapshot.encode (forger e)) = some (forger e))
    (hseller : Snapshot.decode (Snapshot.encode (sale e).player) = some (sale e).player)
    (hasked : Snapshot.decode (Snapshot.encode (asked e).player) = some (asked e).player)
    (hvictim : Snapshot.decode (Snapshot.encode (victim e)) = some (victim e)) :
    PlayerStore.load ((vacant e).obeyAll forgery).store "bob" =
      .ok (Snapshot.encode (answered e (askedAgain e).evaluator).player) := by
  have hne : "ann" ≠ "bob" := by decide
  have hplanted := core_planting hsafe hok hforger hseller
  rw [forgery, obeyAll_append]
  simp only [obeyAll_cons, obeyAll_nil]
  generalize (vacant e).obeyAll planting = s at hplanted ⊢
  have hunknown : ¬PlayerStore.contains
      (MemoryStore.empty.save "ann" (Snapshot.encode (asked e).player)) "bob" = true := by
    rw [MemoryStore.contains_eq_isOk_load, load_save_memory_of_ne _ hne.symm]
    exact Bool.false_ne_true
  have hjoined := core_create hplanted "bob" hunknown 2
  generalize s.obey (.command "bob" 2 .create) = s at hjoined ⊢
  have hticked := core_tick hjoined 3
  -- ann comes first
  have hann := core_advanceEntry hsafe hjoined id_asked
    ((load_save_memory_of_ne _ hne _).trans (load_save_memory _ _ _)) hasked
    (w := askedAgain e) rfl 0
  rw [entriesOf_pair, List.zipIdx_cons, List.zipIdx_singleton, advanceEach_cons, advanceEach_cons,
    advanceEach_nil] at hticked
  generalize (advanceEntry 3 0 (.ok (Snapshot.encode (asked e).player)) s).2 = s at hann hticked
  rw [core_advanceEntry hsafe hann (id_start _ _ _)
    ((load_save_memory_of_ne _ hne.symm _).trans (load_save_memory _ _ _)) hvictim
    (w := answered e (askedAgain e).evaluator) rfl] at hticked
  rw [store_of_core hticked, load_save_memory]

/-- Without ann, it has been asked nothing. -/
theorem load_forgery_alone (hsafe : e.catalog.Safe)
    (hread : Snapshot.decode (Snapshot.encode (victim e)) = some (victim e)) :
    PlayerStore.load ((vacant e).obeyAll (forgery.filter (·.concerns "bob"))).store "bob" =
      .ok (Snapshot.encode (answered e (e.evaluator 0)).player) := by
  have horders : forgery.filter (·.concerns "bob") =
    [.tick 1, .command "bob" 2 .create, .tick 3] := rfl
  have hempty : (vacant e).core = (e, e.evaluator 0, .empty) := rfl
  simp only [horders, obeyAll_cons, obeyAll_nil]
  generalize vacant e = s at hempty ⊢
  have hidle : (s.obey (.tick 1)).core = (e, e.evaluator 0, .empty) :=
    (core_tick hempty 1).trans hempty
  generalize s.obey (.tick 1) = s at hidle ⊢
  have hcreated := core_create hidle "bob" (by decide) 2
  generalize s.obey (.command "bob" 2 .create) = s at hcreated ⊢
  have hticked := core_tick hcreated 3
  rw [entriesOf_single, List.zipIdx_singleton, advanceEach_cons, advanceEach_nil,
    core_advanceEntry hsafe hcreated (id_start _ _ _) (load_save_memory _ _ _) hread
      (w := answered e (e.evaluator 0)) rfl] at hticked
  rw [store_of_core hticked, load_save_memory]

end Forgery

/-- A name that reads on as the end of one question and the beginning of another. -/
def forgedName : String := "s|m=1;prestige=0;s"

/-- A document of a building that costs ten of the forged name and that everybody has one of.  To
ask after its sale whether there is the second achievement is to ask before it for the first one,
whose condition cannot be read. -/
def forgedDocument : Json := .obj [
  ("achievements", .obj [
    ("a", .obj [("condition", .str ("1|m=0;prestige=0;s:ps=0;" ++ forgedName ++ "=5;" ++
      forgedName ++ ":earned=5;" ++ forgedName ++ ":max=5;s"))]),
    ("b", .obj [("condition", .str "1")])]),
  ("buildings", .obj [
    ("m", .obj [("cost", .obj [(forgedName, .num (.int 10))]), ("initial", .num (.int 1))]),
    ("s:ps", .obj [])])]

/-- The economy of the forged name. -/
def forgedEconomy : Economy := .ofDocument forgedDocument

/-- All the players there are have finite numbers, and only with ann around bob has the first
achievement. -/
theorem forged_players :
    (∀ p ∈ [forger forgedEconomy, (sale forgedEconomy).player, (asked forgedEconomy).player,
        victim forgedEconomy, (answered forgedEconomy (askedAgain forgedEconomy).evaluator).player,
        (answered forgedEconomy (forgedEconomy.evaluator 0)).player],
      Snapshot.KeepsFinite p ∧ ∀ x ∈ p.reals, x.isFinite = true) ∧
    (answered forgedEconomy (askedAgain forgedEconomy).evaluator).player.achievementLevel "a" = 1 ∧
    (answered forgedEconomy (forgedEconomy.evaluator 0)).player.achievementLevel "a" = 0 := by
  decide +kernel

/-- **A name of a cost that is not plain may make players depend on each other**: the document is
accepted, nothing in it hangs on chance and all its other names are plain, but because of what ann
has been asked, bob has an achievement that he would not have without her. -/
theorem exists_dependent :
    Catalog.load forgedDocument = .ok forgedEconomy.catalog ∧ forgedEconomy.catalog.Plain ∧
    forgedEconomy.catalog.Certain ∧
    ∃ answers answers' t t',
      Runs (ofEconomy forgedEconomy .empty 0) forgery answers t ∧
      Runs (ofEconomy forgedEconomy .empty 0) (forgery.filter (·.concerns "bob")) answers' t' ∧
      PlayerStore.load t'.store "bob" ≠ PlayerStore.load t.store "bob" := by
  obtain ⟨answers, run⟩ := runs_obeyAll (vacant forgedEconomy) forgery
  obtain ⟨answers', alone⟩ := runs_obeyAll (vacant forgedEconomy)
    (forgery.filter (·.concerns "bob"))
  have hcertain : forgedEconomy.catalog.Certain := by decide +kernel
  refine ⟨Economy.load_eq_ofDocument (by decide +kernel), by decide +kernel, hcertain, answers,
    answers', _, _, run, alone, ?_⟩
  obtain ⟨hfinite, hlevel, hlevel'⟩ := forged_players
  have hread := fun p hp => Snapshot.decode_encode (hfinite p hp).1 (hfinite p hp).2
  simp only [List.forall_mem_cons] at hread
  obtain ⟨hforger, hseller, hasked, hvictim, hwith, hwithout, -⟩ := hread
  have hok : ((forgedEconomy.sell "m").run
      ⟨forger forgedEconomy, [], forgedEconomy.evaluator 0, false⟩).1.isOk = true := by decide +kernel
  rw [load_forgery hcertain.safe hok hforger hseller hasked hvictim,
    load_forgery_alone hcertain.safe hvictim]
  -- one text cannot be read as both players
  intro hsame
  rw [Except.ok.inj hsame] at hwithout
  rw [Option.some_inj.mp (hwithout.symm.trans hwith)] at hlevel'
  exact absurd (hlevel.symm.trans hlevel') (by decide)

end IncrementalGame.Server
