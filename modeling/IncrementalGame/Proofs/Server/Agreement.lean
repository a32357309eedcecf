import IncrementalGame.Proofs.Economy.Blind
import IncrementalGame.Proofs.Economy.Course
import IncrementalGame.Proofs.Server.OncePerTick

/-!
# Servers that agree about a player

All players share one evaluator and one store.  Two servers agree about a player if they load the
same under its id and are both sound (`Agree`): a sound server remembers nothing wrong, and under
each id it keeps the player of that id, with plain names (`Sound`).

A request for a player is private (`Private`): it comes to the same in servers that agree about the
player, and changes nothing about the others.  So is every command (`private_execute`).
-/

namespace IncrementalGame.Server

open Formula (Faithful)

/-! ## Sound servers -/

/-- Whether a server remembers nothing wrong, and keeps nothing but players with plain names, each
under its own id. -/
structure Sound (s : Server MemoryStore) : Prop where
  tame : s.economy.catalog.Tame
  faithful : Faithful s.evaluator.memo
  kept : ∀ id text, PlayerStore.load s.store id = .ok text →
    ∃ p : Player, p.id = id ∧ p.Plain ∧ text = Snapshot.encode p

namespace Sound

variable {s : Server MemoryStore} {id : String} {p : Player}

/-- What can be read under an id is the player of that id. -/
theorem of_decode (h : Sound s) {text : String} (hload : PlayerStore.load s.store id = .ok text)
    (hdecode : Snapshot.decode text = some p) : p.id = id ∧ p.Plain := by
  obtain ⟨q, hid, hplain, rfl⟩ := h.kept id text hload
  obtain ⟨carry, multipliers, stats, rfl⟩ := Snapshot.exists_of_decode_encode hdecode
  exact ⟨hid, hplain.resources, hplain.buildings, hplain.upgrades, hplain.achievements⟩

theorem of_stored (h : Sound s) (hp : s.stored id = some p) : p.id = id ∧ p.Plain := by
  obtain ⟨text, hload, hdecode⟩ := exists_load_of_stored hp
  exact h.of_decode hload hdecode

/-- **In a sound server each player that can be read is stored under its own id.** -/
theorem filed (h : Sound s) : Filed s.store := fun _ hentry _ hdecode =>
  (h.of_decode (MemoryStore.load_of_get? (KeyMap.mem_entries_iff.mp hentry)) hdecode).1

end Sound

/-! ## Servers that agree about a player -/

/-- Whether two sound servers with the same rules load the same under an id. -/
structure Agree (id : String) (s s' : Server MemoryStore) : Prop where
  economy : s'.economy = s.economy
  load : PlayerStore.load s'.store id = PlayerStore.load s.store id
  sound : Sound s
  sound' : Sound s'

namespace Agree

variable {id : String} {s s' t t' : Server MemoryStore} {p : Player}

theorem refl (h : Sound s) : Agree id s s := ⟨rfl, rfl, h, h⟩

theorem symm (h : Agree id s s') : Agree id s' s :=
  ⟨h.economy.symm, h.load.symm, h.sound', h.sound⟩

theorem trans (h : Agree id s t) (h' : Agree id t t') : Agree id s t' :=
  ⟨h'.economy.trans h.economy, h'.load.trans h.load, h.sound, h'.sound'⟩

theorem stored_eq (h : Agree id s s') : s'.stored id = s.stored id := by
  rw [stored, stored, h.load]

/-- What was refused has been thought about, and so more may be remembered. -/
theorem pondered (h : Agree id s s') {v w : World} (hvw : Alike v w) :
    Agree id { s with evaluator := v.evaluator } { s' with evaluator := w.evaluator } :=
  ⟨h.economy, h.load, ⟨h.sound.tame, hvw.faithful, h.sound.kept⟩,
    ⟨h.sound'.tame, hvw.faithful', h.sound'.kept⟩⟩

/-- A rule that is blind comes to the same for the player that servers agree about. -/
theorem act {α : Type} (h : Agree id s s') {rule : Rule α} (hrule : rule.Blind)
    (hcourse : rule.Keeps (Course s.economy)) (hp : s.stored id = some p) :
    (rule ⟨p, [], s'.evaluator, false⟩).1 = (rule ⟨p, [], s.evaluator, false⟩).1 ∧
      Alike (rule ⟨p, [], s.evaluator, false⟩).2 (rule ⟨p, [], s'.evaluator, false⟩).2 ∧
      (rule ⟨p, [], s.evaluator, false⟩).2.player.id = id := by
  obtain ⟨hid, hplain⟩ := h.sound.of_stored hp
  have halike : Alike ⟨p, [], s.evaluator, false⟩ ⟨p, [], s'.evaluator, false⟩ :=
    ⟨rfl, rfl, rfl, hplain, h.sound.faithful, h.sound'.faithful⟩
  obtain ⟨hsame, -, hafter⟩ := hrule _ _ halike
  exact ⟨hsame, hafter, (hcourse _).id_eq.trans hid⟩

end Agree

/-! ## Storing a player -/

/-- Whether a server has become another one by storing a player with plain names under its id,
whatever else it told and remembers, so long as nothing wrong is remembered. -/
structure Keeping (s : Server MemoryStore) (p : Player) (t : Server MemoryStore) : Prop where
  economy : t.economy = s.economy
  store : t.store = s.store.save p.id (Snapshot.encode p)
  faithful : Faithful t.evaluator.memo
  plain : p.Plain

namespace Keeping

variable {s s' t t' : Server MemoryStore} {p : Player}

theorem load_self (h : Keeping s p t) :
    PlayerStore.load t.store p.id = .ok (Snapshot.encode p) := by
  rw [h.store, load_save_memory]

theorem load_of_ne (h : Keeping s p t) {other : String} (hne : other ≠ p.id) :
    PlayerStore.load t.store other = PlayerStore.load s.store other := by
  rw [h.store, load_save_memory_of_ne _ hne]

theorem sound (h : Keeping s p t) (hs : Sound s) : Sound t := by
  refine ⟨by rw [h.economy]; exact hs.tame, h.faithful, fun id text hload => ?_⟩
  by_cases heq : id = p.id
  · subst heq
    rw [h.load_self] at hload
    exact ⟨p, rfl, h.plain, (Except.ok.inj hload).symm⟩
  · rw [h.load_of_ne heq] at hload
    exact hs.kept id text hload

/-- Servers that store the same player agree about it. -/
theorem agree {id : String} (h : Keeping s p t) (h' : Keeping s' p t') (hs : Agree id s s')
    (hid : p.id = id) : Agree id t t' := by
  subst hid
  refine ⟨?_, h'.load_self.trans h.load_self.symm, h.sound hs.sound, h'.sound hs.sound'⟩
  rw [h.economy, h'.economy, hs.economy]

/-- What was stored for somebody else has changed nothing about a player. -/
theorem agree_of_ne (h : Keeping s p t) (hs : Sound s) {other : String} (hne : other ≠ p.id) :
    Agree other s t := ⟨h.economy, h.load_of_ne hne, hs, h.sound hs⟩

end Keeping

/-! ## Requests -/

/-- Whether a request comes to the same in servers that agree about a player, leaves them so, and
changes nothing about the others. -/
structure Private {α : Type} (id : String) (request : Request MemoryStore α) : Prop where
  same : ∀ {s s'}, Agree id s s' →
    (request s').1 = (request s).1 ∧ Agree id (request s).2 (request s').2
  apart : ∀ {s other}, Sound s → other ≠ id → Agree other s (request s).2

section Requests

variable {α β : Type} {id : String} {s s' : Server MemoryStore} {p : Player}

theorem find_congr (h : PlayerStore.load s'.store id = PlayerStore.load s.store id) :
    (find id s').1 = (find id s).1 := by
  rw [find, Fallible.bind_get, Fallible.bind_get, h]
  cases PlayerStore.load s.store id with
  | error error => cases error <;> rfl
  | ok text => cases hdecode : Snapshot.decode text <;> simp only [hdecode] <;> rfl

theorem private_find (id : String) : Private id (find id) := by
  constructor
  · intro s s' h
    rw [find_apply, find_apply]
    exact ⟨find_congr h.load, h⟩
  · intro s other h _
    rw [find_apply]
    exact .refl h

theorem Private.reply {request : Request MemoryStore α} (h : Private id request) (f : α → β) :
    Private id (request >>= fun a => pure (f a)) := by
  have hresult : ∀ s, ((request >>= fun a => pure (f a)) s).1 = (request s).1.map f := by
    intro s
    rcases hrequest : request s with ⟨result, t⟩
    cases result with
    | error error => rw [Fallible.bind_error _ hrequest]; rfl
    | ok a => rw [Fallible.bind_ok _ hrequest]; rfl
  constructor
  · intro s s' hagree
    obtain ⟨hsame, hafter⟩ := h.same hagree
    rw [hresult, hresult, hsame, (reply_apply request f s).1, (reply_apply request f s').1]
    exact ⟨rfl, hafter⟩
  · intro s other hsound hne
    rw [(reply_apply request f s).1]
    exact h.apart hsound hne

theorem id_start (id : String) (catalog : Catalog) (now : UInt64) :
    (Player.start id catalog now).id = id :=
  List.foldlRecOn (motive := fun p : Player => p.id = id) catalog.resources.entries _ rfl
    fun _ hp _ _ => hp

/-- The server after a new player was stored. -/
def welcomed (s : Server MemoryStore) (id : String) (now : UInt64) : Server MemoryStore :=
  let p := Player.start id s.economy.catalog now
  s.given p.id (Snapshot.encode p)

theorem create_memory (h : ¬PlayerStore.contains s.store id = true) (now : UInt64) :
    create id now s = (.ok (Player.start id s.economy.catalog now), s.welcomed id now) := by
  rw [create_of_unknown h, Fallible.bind_ok _ (save_of_ok rfl)]
  rfl

theorem Sound.keeping_welcomed (h : Sound s) (id : String) (now : UInt64) :
    Keeping s (Player.start id s.economy.catalog now) (s.welcomed id now) :=
  ⟨rfl, rfl, h.faithful, Player.plain_start id h.tame.plain now⟩

/-- **To create a player is private.** -/
theorem private_create (id : String) (now : UInt64) : Private id (create id now) := by
  constructor
  · intro s s' h
    have hcontains : PlayerStore.contains s'.store id = PlayerStore.contains s.store id := by
      rw [MemoryStore.contains_eq_isOk_load, MemoryStore.contains_eq_isOk_load, h.load]
    by_cases hknown : PlayerStore.contains s.store id = true
    · rw [create_of_known hknown, create_of_known (hcontains.trans hknown)]
      exact ⟨rfl, h⟩
    · have hkeeping' := h.sound'.keeping_welcomed id now
      rw [h.economy] at hkeeping'
      rw [create_memory hknown, create_memory (by rw [hcontains]; exact hknown), h.economy]
      exact ⟨rfl, (h.sound.keeping_welcomed id now).agree hkeeping' h (id_start _ _ _)⟩
  · intro s other h hne
    by_cases hknown : PlayerStore.contains s.store id = true
    · rw [create_of_known hknown]
      exact .refl h
    · rw [create_memory hknown]
      refine (h.keeping_welcomed id now).agree_of_ne h ?_
      rw [id_start]
      exact hne

/-- The server after a player was stored and what has been raised was told. -/
def settled (s : Server MemoryStore) (w : World) : Server MemoryStore :=
  ({ s with evaluator := w.evaluator }.given w.player.id (Snapshot.encode w.player)).publish
    w.raised

/-- What a server makes of what an action has come to: a table refuses nothing, so what the rules
allow is stored and told, unless it is broken off. -/
def conclude (s : Server MemoryStore) (outcome : Except EconomyError α × World) :
    Except ServiceError α × Server MemoryStore :=
  let acted := { s with evaluator := outcome.2.evaluator }
  if outcome.2.broken then (.error .aborted, acted)
  else match outcome.1 with
    | .error refusal => (.error (.economy refusal), acted)
    | .ok a => (.ok a, s.settled outcome.2)

theorem commit_of_stored (action : Economy → Action α) (h : s.stored id = some p) :
    commit id action s = s.conclude ((action s.economy).run ⟨p, [], s.evaluator, false⟩) := by
  rw [commit, Fallible.bind_ok _ (find_of_stored h), Fallible.bind_get, Fallible.bind_lift,
    act_apply, Rule.result?_apply, conclude]
  obtain ⟨result, world⟩ := (action s.economy).run ⟨p, [], s.evaluator, false⟩
  simp only
  split
  · rfl
  · cases result with
    | error refusal => rfl
    | ok a =>
      simp only [Option.map_some]
      rw [Fallible.bind_ok _ (save_of_ok (s := { s with evaluator := world.evaluator }) rfl)]
      rfl

section

variable {outcome outcome' : Except EconomyError α × World}

theorem Agree.conclude (h : Agree id s s') (hsame : outcome'.1 = outcome.1)
    (halike : Alike outcome.2 outcome'.2) (hid : outcome.2.player.id = id) :
    (s'.conclude outcome').1 = (s.conclude outcome).1 ∧
      Agree id (s.conclude outcome).2 (s'.conclude outcome').2 := by
  obtain ⟨result, v⟩ := outcome
  obtain ⟨result', w⟩ := outcome'
  obtain rfl : result' = result := hsame
  have hbroken : w.broken = v.broken := halike.broken
  simp only [Server.conclude, hbroken]
  split
  · exact ⟨rfl, h.pondered halike⟩
  · cases result' with
    | error refusal => exact ⟨rfl, h.pondered halike⟩
    | ok a =>
      have hv : Keeping s v.player (s.settled v) := ⟨rfl, rfl, halike.faithful, halike.plain⟩
      have hw : Keeping s' v.player (s'.settled w) := by
        refine ⟨rfl, ?_, halike.faithful', halike.plain⟩
        rw [← halike.player]
        rfl
      exact ⟨rfl, hv.agree hw h hid⟩

theorem Sound.agree_conclude (h : Sound s) {other : String}
    (hfaithful : Faithful outcome.2.evaluator.memo) (hplain : outcome.2.player.Plain)
    (hne : other ≠ outcome.2.player.id) : Agree other s (s.conclude outcome).2 := by
  obtain ⟨result, w⟩ := outcome
  have hacted : Agree other s { s with evaluator := w.evaluator } :=
    ⟨rfl, rfl, h, h.tame, hfaithful, h.kept⟩
  rw [Server.conclude]
  split
  · exact hacted
  · cases result with
    | error refusal => exact hacted
    | ok a =>
      have hw : Keeping s w.player (s.settled w) := ⟨rfl, rfl, hfaithful, hplain⟩
      exact hw.agree_of_ne h hne

end

/-- **A request to change a player is private** if the action is blind. -/
theorem private_commit (id : String) {action : Economy → Action α}
    (hblind : ∀ e : Economy, e.catalog.Tame → (action e).Blind)
    (hcourse : ∀ (e : Economy) (w : World), Course e w (action e w).2) :
    Private id (commit id action) := by
  constructor
  · intro s s' h
    cases hp : s.stored id with
    | none =>
      obtain ⟨error, hfind⟩ := find_of_not_stored hp
      have hfind' : find id s' = (.error error, s') := by
        refine Prod.ext ?_ (find_apply id s')
        rw [find_congr h.load, hfind]
      rw [commit, Fallible.bind_error _ hfind, Fallible.bind_error _ hfind']
      exact ⟨rfl, h⟩
    | some p =>
      obtain ⟨hsame, halike, hid⟩ :=
        h.act (hblind s.economy h.sound.tame) (hcourse s.economy) hp
      rw [commit_of_stored action hp, commit_of_stored action (h.stored_eq.trans hp), h.economy]
      exact h.conclude hsame halike hid
  · intro s other h hne
    cases hp : s.stored id with
    | none =>
      obtain ⟨error, hfind⟩ := find_of_not_stored hp
      rw [commit, Fallible.bind_error _ hfind]
      exact .refl h
    | some p =>
      obtain ⟨-, halike, hid⟩ :=
        (Agree.refl h).act (hblind s.economy h.tame) (hcourse s.economy) hp
      rw [commit_of_stored action hp]
      exact h.agree_conclude halike.faithful halike.plain fun heq => hne (heq.trans hid)

/-- **Every command is private** to the player that it is for. -/
theorem private_execute (id : String) (now : UInt64) (command : Command) :
    Private id (execute id now command) := by
  cases command with
  | create => exact (private_create id now).reply fun _ => Reply.created id
  | buy key =>
    exact (private_commit id (fun _ h => Economy.blind_buy h key)
      fun e w => e.course_buy w key).reply Reply.bought
  | sell key =>
    exact (private_commit id (fun _ h => Economy.blind_sell h key)
      fun e w => e.course_sell w key).reply (Reply.sold key)
  | prestige =>
    exact (private_commit id (fun _ h => Economy.blind_performPrestige h now)
      fun e w => e.course_performPrestige w now).reply Reply.prestige
  | status => exact (private_find id).reply Reply.status
  | resources => exact (private_find id).reply Reply.resources
  | buildings => exact (private_find id).reply Reply.buildings
  | help => exact ⟨fun h => ⟨rfl, h⟩, fun h _ => .refl h⟩

end Requests

end IncrementalGame.Server
