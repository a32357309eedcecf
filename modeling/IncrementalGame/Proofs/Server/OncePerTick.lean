import Mathlib.Data.List.Nodup
import IncrementalGame.Proofs.Catalog.Keyed
import IncrementalGame.Proofs.Economy.Breaks
import IncrementalGame.Proofs.Player.Snapshot
import IncrementalGame.Proofs.Server.HonestStore
import IncrementalGame.Proofs.Server.Saves

/-!
# How often a tick advances a player

A tick goes through the entries of the store.  An entry says which player it is about, and what is
advanced is what is stored under the id of this player, whatever the entry has been stored under.

So a player is advanced as often as there are entries about it, one time after the other, as long as
it can be read, less the times that its update is broken off; and the report lists it just as often
as it was advanced (`tick_advances`).  This is once for a player that one entry is about, and this
is so for all of them if each is stored under its own id.  An entry that was copied to another id is
not advanced but advances the other one twice, and an entry that was renamed is not advanced at all
(`exists_advanced_twice`).

An update that is broken off stores nothing, and stands among the failures without the id of its
player.  There is none where no formula of the catalog draws a real number.
-/

namespace IncrementalGame.Server

variable {σ : Type} [PlayerStore σ]

/-! ## Players of entries -/

/-- The player that an entry is about, if it is readable. -/
def about : Except StoreError String → Option String
  | .ok text => (Snapshot.decode text).map (·.id)
  | .error _ => none

/-- The players that entries are about. -/
def aboutAll (entries : List (Except StoreError String)) : List String := entries.filterMap about

theorem aboutAll_cons (entry : Except StoreError String) (rest : List (Except StoreError String)) :
    aboutAll (entry :: rest) = (about entry).toList ++ aboutAll rest := by
  unfold aboutAll
  cases h : about entry with
  | none => rw [List.filterMap_cons_none h, Option.toList_none, List.nil_append]
  | some id =>
    rw [List.filterMap_cons_some h, Option.toList_some, List.singleton_append]

theorem updatesOf_cons (result : Except TickFailure String)
    (others : List (Except TickFailure String)) :
    updatesOf (result :: others) = result.toOption.toList ++ updatesOf others := by
  cases result <;> rfl

theorem failuresOf_cons (result : Except TickFailure String)
    (others : List (Except TickFailure String)) :
    failuresOf (result :: others) = failuresOf [result] ++ failuresOf others := by
  cases result <;> rfl

/-! ## Being advanced so many times -/

/-- What may be loaded in place of what was loaded `before`, when it was advanced so many times and
an update of it was broken off so many times: each time it was read, and advanced by one tick and
written again, or left as it was. -/
inductive AdvancedBy (e : Economy) (now : UInt64) (before : Except StoreError String) :
    Nat → Nat → Except StoreError String → Prop where
  | never : AdvancedBy e now before 0 0 before
  | once_more {times breaks : Nat} {text : String} {p : Player} {evaluator : Formula.Evaluator}
    {report : TickReport} {w : World}
    (earlier : AdvancedBy e now before times breaks (.ok text))
    (readable : Snapshot.decode text = some p)
    (given : (e.tick now).result? ⟨p, [], evaluator, false⟩ = some (report, w)) :
    AdvancedBy e now before (times + 1) breaks (.ok (Snapshot.encode w.player))
  | broken_off {times breaks : Nat} {text : String} {p : Player} {evaluator : Formula.Evaluator}
    (earlier : AdvancedBy e now before times breaks (.ok text))
    (readable : Snapshot.decode text = some p)
    (nothing : (e.tick now).result? ⟨p, [], evaluator, false⟩ = none) :
    AdvancedBy e now before times (breaks + 1) (.ok text)

namespace AdvancedBy

variable {e : Economy} {now : UInt64} {before between after : Except StoreError String}
  {m n breaks later : Nat}

theorem trans (h : AdvancedBy e now before m breaks between)
    (h' : AdvancedBy e now between n later after) :
    AdvancedBy e now before (m + n) (breaks + later) after := by
  induction h' with
  | never => exact h
  | once_more _ readable given ih => exact .once_more ih readable given
  | broken_off _ readable nothing ih => exact .broken_off ih readable nothing

/-- What cannot be read is not advanced. -/
theorem eq_of_unreadable (h : AdvancedBy e now before n breaks after)
    (hbefore : ∀ text, before = .ok text → Snapshot.decode text = none) : after = before := by
  induction h with
  | never => rfl
  | once_more _ readable _ ih | broken_off _ readable _ ih =>
    have hnone := hbefore _ ih.symm
    rw [readable] at hnone
    exact absurd hnone (by simp)

theorem eq_of_never (h : AdvancedBy e now before 0 0 after) : after = before := by
  obtain - | _ := h
  rfl

variable {text : String} {p : Player}

theorem eq_of_once (h : AdvancedBy e now (.ok text) 1 0 after)
    (hdecode : Snapshot.decode text = some p) :
    ∃ evaluator report w, (e.tick now).result? ⟨p, [], evaluator, false⟩ = some (report, w) ∧
      after = .ok (Snapshot.encode w.player) := by
  obtain - | ⟨earlier, readable, given⟩ := h
  obtain rfl := Option.some_inj.mp
    (readable.symm.trans (Except.ok.inj earlier.eq_of_never ▸ hdecode))
  exact ⟨_, _, _, given, rfl⟩

theorem eq_of_break (h : AdvancedBy e now (.ok text) 0 1 after)
    (hdecode : Snapshot.decode text = some p) :
    (∃ evaluator, (e.tick now).result? ⟨p, [], evaluator, false⟩ = none) ∧ after = .ok text := by
  obtain - | - | ⟨earlier, readable, nothing⟩ := h
  obtain rfl := Option.some_inj.mp
    (readable.symm.trans (Except.ok.inj earlier.eq_of_never ▸ hdecode))
  exact ⟨⟨_, nothing⟩, earlier.eq_of_never⟩

/-- Where no formula draws a real number, no update is broken off. -/
theorem eq_zero_of_safe (hsafe : e.catalog.Safe) (h : AdvancedBy e now before n breaks after) :
    breaks = 0 := by
  induction h with
  | never => rfl
  | once_more _ _ _ ih => exact ih
  | broken_off _ _ nothing _ =>
    have hbroken := Rule.result?_eq_none_iff.mp nothing
    exact absurd (hbroken.symm.trans (e.unbroken_tick hsafe now _ rfl)) (by simp)

end AdvancedBy

/-- Who is still there after having been advanced was there before. -/
theorem stored_ne_none_of_advancedBy {e : Economy} {now : UInt64} {s s' : Server σ} {id : String}
    {n breaks : Nat}
    (h : AdvancedBy e now (PlayerStore.load s.store id) n breaks (PlayerStore.load s'.store id))
    (hstored : s'.stored id ≠ none) : s.stored id ≠ none := by
  intro hnone
  have hunreadable : ∀ text, PlayerStore.load s.store id = .ok text →
      Snapshot.decode text = none :=
    fun text hload => (stored_of_load hload).symm.trans hnone
  refine hstored ?_
  rw [stored, h.eq_of_unreadable hunreadable]
  exact hnone

/-! ## Updates one after the other -/

/-- What a tick does about entries: which players they are about, which are advanced, and the
updates of which are broken off. -/
structure Advances (now : UInt64) (s s' : Server σ) (players updated aborted : List String) :
    Prop where
  economy : s'.economy = s.economy
  storable : ∀ id, Storable s.store id → Storable s'.store id
  /-- Each player is listed as often as it was advanced. -/
  advanced : ∀ id, AdvancedBy s.economy now (PlayerStore.load s.store id) (updated.count id)
    (aborted.count id) (PlayerStore.load s'.store id)
  /-- A player is listed for an entry about it at most. -/
  listed : ∀ id, updated.count id + aborted.count id ≤ players.count id
  /-- Who can still be read was listed for each entry. -/
  complete : ∀ id, Storable s.store id → s'.stored id ≠ none →
    updated.count id + aborted.count id = players.count id

namespace Advances

variable {now : UInt64} {s t u : Server σ}
  {players players' updated updated' aborted aborted' : List String}

theorem nil (now : UInt64) (s : Server σ) : Advances now s s [] [] [] :=
  ⟨rfl, fun _ => id, fun _ => .never, fun _ => Nat.le_refl _, fun _ _ _ => rfl⟩

theorem append (h : Advances now s t players updated aborted)
    (h' : Advances now t u players' updated' aborted') :
    Advances now s u (players ++ players') (updated ++ updated') (aborted ++ aborted') := by
  have hadvanced := h'.advanced
  rw [h.economy] at hadvanced
  constructor
  · exact h'.economy.trans h.economy
  · exact fun id hid => h'.storable id (h.storable id hid)
  · intro id
    rw [List.count_append, List.count_append]
    exact (h.advanced id).trans (hadvanced id)
  · intro id
    have hfirst := h.listed id
    have hrest := h'.listed id
    simp only [List.count_append]
    omega
  · intro id hid hstored
    have hbetween := stored_ne_none_of_advancedBy (hadvanced id) hstored
    have hfirst := h.complete id hid hbetween
    have hrest := h'.complete id (h.storable id hid) hstored
    simp only [List.count_append]
    omega

/-- What changes no text and lists nobody, because of a player that cannot be read or stored. -/
theorem of_failure (economy : t.economy = s.economy)
    (storable : ∀ id, Storable s.store id → Storable t.store id)
    (loads : ∀ id, PlayerStore.load t.store id = PlayerStore.load s.store id)
    (cause : ∀ id ∈ players, Storable s.store id → s.stored id = none) :
    Advances now s t players [] [] := by
  refine ⟨economy, storable, fun id => ?_, fun _ => Nat.zero_le _, fun id hid hstored => ?_⟩
  · rw [loads]
    exact .never
  · rw [List.count_nil, eq_comm, Nat.zero_add, List.count_eq_zero]
    intro hmem
    refine hstored ?_
    rw [stored, loads]
    exact cause id hmem hid

/-- What stores nothing, because the update of a player is broken off. -/
theorem of_break (economy : t.economy = s.economy) (store : t.store = s.store) {id : String}
    {p : Player} (hstored : s.stored id = some p) {evaluator : Formula.Evaluator}
    (nothing : (s.economy.tick now).result? ⟨p, [], evaluator, false⟩ = none) :
    Advances now s t [id] [] [id] := by
  refine ⟨economy, fun _ h => store ▸ h, fun other => ?_, fun _ => by simp, fun _ _ _ => by simp⟩
  rw [store, List.count_nil]
  by_cases heq : other = id
  · obtain ⟨text, hload, hdecode⟩ := exists_load_of_stored hstored
    rw [heq, List.count_singleton_self, hload]
    exact .broken_off .never hdecode nothing
  · rw [List.count_eq_zero.mpr fun hmem => heq (List.mem_singleton.mp hmem)]
    exact .never

/-- What stores a player as the tick has left him, and nobody else. -/
theorem of_update (economy : t.economy = s.economy)
    (storable : ∀ id, Storable s.store id → Storable t.store id) {id : String} {p : Player}
    (hstored : s.stored id = some p) {evaluator : Formula.Evaluator} {report : TickReport}
    {w : World} (given : (s.economy.tick now).result? ⟨p, [], evaluator, false⟩ = some (report, w))
    (self : PlayerStore.load t.store id = .ok (Snapshot.encode w.player))
    (others : ∀ other, other ≠ id →
      PlayerStore.load t.store other = PlayerStore.load s.store other) :
    Advances now s t [id] [id] [] := by
  refine ⟨economy, storable, fun other => ?_, fun _ => Nat.le_refl _, fun _ _ _ => rfl⟩
  rw [List.count_nil]
  by_cases heq : other = id
  · obtain ⟨text, hload, hdecode⟩ := exists_load_of_stored hstored
    rw [heq, List.count_singleton_self, hload, self]
    exact .once_more .never hdecode given
  · rw [List.count_eq_zero.mpr fun hmem => heq (List.mem_singleton.mp hmem), others other heq]
    exact .never

theorem perm (h : Advances now s t players updated aborted) (hperm : updated'.Perm updated) :
    Advances now s t players updated' aborted := by
  refine ⟨h.economy, h.storable, fun id => ?_, fun id => ?_, fun id hid hstored => ?_⟩
  · rw [hperm.count_eq]
    exact h.advanced id
  · rw [hperm.count_eq]
    exact h.listed id
  · rw [hperm.count_eq]
    exact h.complete id hid hstored

/-- Nobody is listed twice unless two entries are about one player. -/
theorem nodup (h : Advances now s t players updated aborted) (hnodup : players.Nodup) :
    updated.Nodup :=
  List.nodup_iff_count_le_one.mpr fun id =>
    (Nat.le_add_right _ _).trans <|
      (h.listed id).trans (List.nodup_iff_count_le_one.mp hnodup id)

/-- Where no formula draws a real number, no update is broken off. -/
theorem eq_nil_of_safe (h : Advances now s t players updated aborted)
    (hsafe : s.economy.catalog.Safe) : aborted = [] :=
  List.eq_nil_iff_forall_not_mem.mpr fun id =>
    List.count_eq_zero.mp ((h.advanced id).eq_zero_of_safe hsafe)

/-- **A player that one entry is about is advanced exactly once**, or its update is broken off and
it is as it was. -/
theorem once (h : Advances now s t players updated aborted) {id : String} {p : Player}
    (hstorable : Storable s.store id) (hstored : s.stored id = some p)
    (hone : players.count id = 1) :
    (updated.count id = 1 ∧ aborted.count id = 0 ∧
      ∃ evaluator report w,
        (s.economy.tick now).result? ⟨p, [], evaluator, false⟩ = some (report, w) ∧
          PlayerStore.load t.store id = .ok (Snapshot.encode w.player)) ∨
    updated.count id = 0 ∧ aborted.count id = 1 ∧
      (∃ evaluator, (s.economy.tick now).result? ⟨p, [], evaluator, false⟩ = none) ∧
        PlayerStore.load t.store id = PlayerStore.load s.store id := by
  obtain ⟨text, hload, hdecode⟩ := exists_load_of_stored hstored
  have hadvanced := h.advanced id
  have hlisted := h.listed id
  rw [hone] at hlisted
  rw [hload] at hadvanced ⊢
  obtain hupdated | hupdated : updated.count id = 1 ∨ updated.count id = 0 := by omega
  · have haborted : aborted.count id = 0 := by omega
    rw [hupdated, haborted] at hadvanced
    exact .inl ⟨hupdated, haborted, hadvanced.eq_of_once hdecode⟩
  · have haborted : aborted.count id = 1 := by
      -- if it were not listed at all, it would be as it was, so it could still be read
      by_contra hne
      have hnever : aborted.count id = 0 := by omega
      rw [hupdated, hnever] at hadvanced
      have hstill : t.stored id ≠ none := by
        rw [stored_of_load hadvanced.eq_of_never, hdecode]
        exact Option.some_ne_none p
      have hcomplete := h.complete id hstorable hstill
      omega
    rw [hupdated, haborted] at hadvanced
    exact .inr ⟨hupdated, haborted, hadvanced.eq_of_break hdecode⟩

end Advances

/-- What an entry leads to comes before what the others lead to. -/
theorem advanceAll_cons {now : UInt64} {index : Nat} {entry : Except StoreError String}
    {s s' : Server σ} {result : Except TickFailure String}
    (h : advanceEntry now index entry s = (result, s')) (rest : List (Except StoreError String)) :
    advanceAll now index (entry :: rest) s =
      (result :: (advanceAll now (index + 1) rest s').1,
        (advanceAll now (index + 1) rest s').2) := by
  show (((advanceEntry now index entry s).1 ::
      (advanceAll now (index + 1) rest (advanceEntry now index entry s).2).1),
    (advanceAll now (index + 1) rest (advanceEntry now index entry s).2).2) = _
  rw [h]

/-- What a tick reports is what its updates have listed. -/
theorem updated_tick_perm {s : Server σ} {entries : List (Except StoreError String)}
    (h : PlayerStore.loadAll s.store = .ok entries) (now : UInt64) :
    (tick now s).1.updated.Perm (updatesOf (advanceAll now 0 entries s).1) := by
  rw [tick_apply, h]
  exact List.mergeSort_perm _ _

theorem failures_tick {s : Server σ} {entries : List (Except StoreError String)}
    (h : PlayerStore.loadAll s.store = .ok entries) (now : UInt64) :
    (tick now s).1.failures = failuresOf (advanceAll now 0 entries s).1 := by
  rw [tick_apply, h]
  rfl

/-- How many updates were broken off. -/
def breaksIn (results : List (Except TickFailure String)) : Nat :=
  (failuresOf results).count .aborted

theorem breaksIn_cons (result : Except TickFailure String)
    (others : List (Except TickFailure String)) :
    breaksIn (result :: others) = breaksIn [result] + breaksIn others := by
  rw [breaksIn, failuresOf_cons, List.count_append]
  rfl

variable [FaithfulStore σ]

theorem advances_advance (now : UInt64) (index : Nat) (id : String) (s : Server σ) :
    ∃ aborted, aborted.length = breaksIn [(advance now index id s).1] ∧
      Advances now s (advance now index id s).2 [id] (advance now index id s).1.toOption.toList
        aborted := by
  rcases advance_cases now index id s with ⟨failure, hfailure, hnone, h⟩ |
    ⟨p, world, hstored, hworld, ⟨hbroken, h⟩ | ⟨hbroken, h⟩⟩
  · rw [h]
    refine ⟨[], ?_, .of_failure rfl (fun _ hstorable => hstorable) (fun _ => rfl) ?_⟩
    · exact (List.count_eq_zero.mpr fun hmem => hfailure (List.mem_singleton.mp hmem).symm).symm
    · intro other hother _
      rw [List.mem_singleton.mp hother]
      exact hnone
  · rw [h]
    rw [hworld] at hbroken
    refine ⟨[id], rfl, .of_break ?_ ?_ hstored (Rule.result?_eq_none_iff.mpr hbroken)⟩
    · rfl
    · rfl
  · rcases h with ⟨error, hsave, h⟩ | ⟨hsave, h⟩
    · rw [h]
      refine ⟨[], rfl, .of_failure rfl (fun _ => FaithfulStore.storable_save _ _ _)
        (fun other => FaithfulStore.load_save_of_error _ _ _ other hsave) ?_⟩
      intro other hother hstorable
      rw [List.mem_singleton.mp hother] at hstorable
      exact absurd (hsave.symm.trans (hstorable _)) (by simp)
    · rw [h]
      have hgiven : (s.economy.tick now).result? ⟨p, [], s.evaluator, false⟩ =
          some ((s.economy.tick now ⟨p, [], s.evaluator, false⟩).1, world) := by
        rw [hworld] at hbroken ⊢
        exact Rule.result?_of_unbroken hbroken
      refine ⟨[], rfl, .of_update ?_ (fun _ => FaithfulStore.storable_save _ _ _) hstored hgiven
        ?_ fun _ hother => FaithfulStore.load_save_of_ne _ _ _ hother⟩
      · rfl
      · exact FaithfulStore.load_save_self _ _ _ hsave

theorem advances_entry (now : UInt64) (index : Nat) (entry : Except StoreError String)
    (s : Server σ) :
    ∃ aborted, aborted.length = breaksIn [(advanceEntry now index entry s).1] ∧
      Advances now s (advanceEntry now index entry s).2 (about entry).toList
        (advanceEntry now index entry s).1.toOption.toList aborted := by
  cases entry with
  | error error => exact ⟨[], rfl, .nil now s⟩
  | ok text =>
    cases hdecode : Snapshot.decode text with
    | none =>
      simp only [advanceEntry, about, hdecode, Option.map_none, Option.toList_none]
      exact ⟨[], rfl, .nil now s⟩
    | some p =>
      simp only [advanceEntry, about, hdecode, Option.map_some, Option.toList_some]
      exact advances_advance now index p.id s

/-- **Updates advance each player as often as they list it.** -/
theorem advances_advanceAll (now : UInt64) (entries : List (Except StoreError String)) (index : Nat)
    (s : Server σ) :
    ∃ aborted, aborted.length = breaksIn (advanceAll now index entries s).1 ∧
      Advances now s (advanceAll now index entries s).2 (aboutAll entries)
        (updatesOf (advanceAll now index entries s).1) aborted := by
  induction entries generalizing index s with
  | nil => exact ⟨[], rfl, .nil now s⟩
  | cons entry rest ih =>
    obtain ⟨aborted, hfirst, hadvances⟩ := advances_entry now index entry s
    obtain ⟨others, hrest, hadvances'⟩ := ih (index + 1) (advanceEntry now index entry s).2
    refine ⟨aborted ++ others, ?_, ?_⟩
    · rw [List.length_append, hfirst, hrest]
      exact (breaksIn_cons _ _).symm
    · rw [aboutAll_cons]
      exact updatesOf_cons _ _ ▸ hadvances.append hadvances'

theorem advances_tick (now : UInt64) {s : Server σ} {entries : List (Except StoreError String)}
    (hlist : PlayerStore.loadAll s.store = .ok entries) :
    ∃ aborted, aborted.length = (tick now s).1.failures.count .aborted ∧
      Advances now s (tick now s).2 (aboutAll entries) (tick now s).1.updated aborted := by
  obtain ⟨aborted, hlength, hadvances⟩ := advances_advanceAll now entries 0 s
  have hupdates := hadvances.perm (updated_tick_perm hlist now)
  have htick : (tick now s).2 = (report (advanceAll now 0 entries s).1
      (advanceAll now 0 entries s).2).2 := by
    rw [tick_apply, hlist]
    rfl
  refine ⟨aborted, ?_, ?_⟩
  · rw [hlength, failures_tick hlist]
    rfl
  · rw [htick]
    exact ⟨hupdates.economy, hupdates.storable, hupdates.advanced, hupdates.listed,
      hupdates.complete⟩

/-! ## Players under their own ids -/

/-- Whether each player of a table is stored under its own id. -/
def Filed (store : MemoryStore) : Prop :=
  ∀ entry ∈ store.texts.entries, ∀ p, Snapshot.decode entry.2 = some p → p.id = entry.1

/-- The entries of a table. -/
def entriesOf (store : MemoryStore) : List (Except StoreError String) :=
  store.texts.entries.map fun entry => .ok entry.2

theorem loadAll_memory (store : MemoryStore) :
    PlayerStore.loadAll store = .ok (entriesOf store) := rfl

theorem load_save_memory (store : MemoryStore) (id text : String) :
    PlayerStore.load (store.save id text) id = .ok text :=
  FaithfulStore.load_save_self store id text rfl

theorem load_save_memory_of_ne (store : MemoryStore) {id other : String} (h : other ≠ id)
    (text : String) : PlayerStore.load (store.save id text) other = PlayerStore.load store other :=
  FaithfulStore.load_save_of_ne store id text h

theorem save_save_memory (store : MemoryStore) (id text text' : String) :
    (store.save id text).save id text' = store.save id text' := by
  refine congrArg MemoryStore.mk (KeyMap.ext_get? fun key => ?_)
  by_cases h : key = id
  · subst h
    simp [MemoryStore.save]
  · simp [MemoryStore.save, KeyMap.get?_insert_of_ne _ h]

theorem entriesOf_single (id text : String) :
    entriesOf (MemoryStore.empty.save id text) = [.ok text] := by
  simp [entriesOf, MemoryStore.save, MemoryStore.empty, KeyMap.insert, KeyMap.place, KeyMap.empty]

theorem entriesOf_pair (ann bob : String) :
    entriesOf ((MemoryStore.empty.save "ann" ann).save "bob" bob) = [.ok ann, .ok bob] := by
  have hlt : ¬"bob" < "ann" := by decide
  simp [entriesOf, MemoryStore.save, MemoryStore.empty, KeyMap.insert, KeyMap.place, KeyMap.empty,
    hlt]

theorem storable_memory (store : MemoryStore) (id : String) : Storable store id := fun _ => rfl

theorem about_of_filed {entries : List (String × String)}
    (h : ∀ entry ∈ entries, ∀ p, Snapshot.decode entry.2 = some p → p.id = entry.1) :
    (aboutAll (entries.map fun entry => .ok entry.2)).Sublist (entries.map (·.1)) := by
  induction entries with
  | nil => exact List.Sublist.slnil
  | cons entry rest ih =>
    obtain ⟨hentry, hrest⟩ := List.forall_mem_cons.mp h
    rw [List.map_cons, List.map_cons, aboutAll_cons, about]
    cases hdecode : Snapshot.decode entry.2 with
    | none => exact (ih hrest).cons _
    | some p =>
      rw [Option.map_some, Option.toList_some, hentry p hdecode]
      exact (ih hrest).cons_cons _

/-- **Where each player is stored under its own id, a tick advances everyone exactly once**: nobody
is listed twice, and if no formula draws a real number, all who can be read are advanced and
listed. -/
theorem tick_of_filed (now : UInt64) {s : Server MemoryStore} (h : Filed s.store) :
    (tick now s).1.updated.Nodup ∧
      (s.economy.catalog.Safe →
        ∀ id p, s.stored id = some p → (tick now s).1.updated.count id = 1 ∧
          ∃ evaluator, PlayerStore.load (tick now s).2.store id =
            .ok (Snapshot.encode (s.economy.tick now ⟨p, [], evaluator, false⟩).2.player)) := by
  obtain ⟨aborted, -, htick⟩ := advances_tick now (loadAll_memory s.store)
  have hnodup := (about_of_filed h).nodup s.store.texts.nodup_keys
  refine ⟨htick.nodup hnodup, fun hsafe id p hstored => ?_⟩
  obtain ⟨text, hload, hdecode⟩ := exists_load_of_stored hstored
  have hentry : (id, text) ∈ s.store.texts.entries :=
    KeyMap.mem_entries_iff.mpr (MemoryStore.get?_of_load hload)
  have hone : (aboutAll (entriesOf s.store)).count id = 1 := by
    refine List.count_eq_one_of_mem hnodup (List.mem_filterMap.mpr ⟨.ok text, ?_, ?_⟩)
    · exact List.mem_map_of_mem hentry
    · rw [about, hdecode, Option.map_some, h _ hentry p hdecode]
  rcases htick.once (storable_memory s.store id) hstored hone with
    ⟨hupdated, -, evaluator, report, w, hgiven, hafter⟩ | ⟨-, haborted, -⟩
  · obtain ⟨-, hrule⟩ := Rule.result?_eq_some_iff.mp hgiven
    exact ⟨hupdated, evaluator, by rw [hafter, hrule]⟩
  · rw [htick.eq_nil_of_safe hsafe] at haborted
    exact absurd haborted (by simp)

/-! ## Players under any ids -/

/-- **A tick advances each player as often as there are entries about it**, unless updates of it are
broken off.  The report lists each player just as often as what is stored under its id was advanced,
and has one failure for each update that was broken off, after which all is as it was.  Together
this is never more often than there are entries about the player, and just as often if it can still
be read.  So the report lists nobody twice unless two entries are about one player, and what is
stored under an id that just one entry is about is advanced exactly once, or its update is broken
off.  Where no formula of the catalog draws a real number, none is. -/
theorem tick_advances (now : UInt64) (s : Server σ) {entries : List (Except StoreError String)}
    (hlist : PlayerStore.loadAll s.store = .ok entries)
    (hstorable : ∀ id ∈ aboutAll entries, Storable s.store id) :
    let updated := (tick now s).1.updated
    let s' := (tick now s).2
    ∃ aborted : List String, aborted.length = (tick now s).1.failures.count .aborted ∧
      (s.economy.catalog.Safe → aborted = []) ∧
      (∀ id, AdvancedBy s.economy now (PlayerStore.load s.store id) (updated.count id)
        (aborted.count id) (PlayerStore.load s'.store id)) ∧
      (∀ id, updated.count id + aborted.count id ≤ (aboutAll entries).count id) ∧
      (∀ id ∈ aboutAll entries, s'.stored id ≠ none →
        updated.count id + aborted.count id = (aboutAll entries).count id) ∧
      ((aboutAll entries).Nodup → updated.Nodup) ∧
      ∀ id p, s.stored id = some p → (aboutAll entries).count id = 1 →
        (updated.count id = 1 ∧ aborted.count id = 0 ∧
          ∃ evaluator report w,
            (s.economy.tick now).result? ⟨p, [], evaluator, false⟩ = some (report, w) ∧
              PlayerStore.load s'.store id = .ok (Snapshot.encode w.player)) ∨
        updated.count id = 0 ∧ aborted.count id = 1 ∧
          (∃ evaluator, (s.economy.tick now).result? ⟨p, [], evaluator, false⟩ = none) ∧
            PlayerStore.load s'.store id = PlayerStore.load s.store id := by
  intro updated s'
  obtain ⟨aborted, hlength, h⟩ := advances_tick now hlist
  refine ⟨aborted, hlength, h.eq_nil_of_safe, h.advanced, h.listed,
    fun id hmem => h.complete id (hstorable id hmem), h.nodup, ?_⟩
  intro id p hstored hone
  have hmem : id ∈ aboutAll entries := List.count_pos_iff.mp (by omega)
  exact h.once (hstorable id hmem) hstored hone

/-! ### Two miners -/

/-- A document of a mine that yields one gold. -/
def mineDocument : Json := .obj [
  ("buildings", .obj [("mine", .obj [("effects", .arr [.str "yield:gold:1"])])]),
  ("resources", .obj [("gold", .obj [])])]

/-- The economy of the mine. -/
def mineEconomy : Economy := .ofDocument mineDocument

theorem safe_mineEconomy : mineEconomy.catalog.Safe := by decide +kernel

/-- A player with one mine. -/
def miner (id : String) : Player :=
  { Player.blank with id := id, buildings := KeyMap.empty.insert "mine" 1 }

/-- The text of the first miner. -/
def annText : String := "\x7b\"id\":\"ann\",\"buildings\":\x7b\"mine\":1\x7d\x7d"

/-- The text of the second miner. -/
def bobText : String := "\x7b\"id\":\"bob\",\"buildings\":\x7b\"mine\":1\x7d\x7d"

theorem decode_annText : Snapshot.decode annText = some (miner "ann") := by decide +kernel

theorem decode_bobText : Snapshot.decode bobText = some (miner "bob") := by decide +kernel

/-- A server of two miners. -/
def mineServer (ann bob : String) : Server MemoryStore :=
  ofEconomy mineEconomy ((MemoryStore.empty.save "ann" ann).save "bob" bob) 0

theorem entriesOf_mineServer (ann bob : String) :
    entriesOf (mineServer ann bob).store = [.ok ann, .ok bob] := entriesOf_pair ann bob

theorem load_mineServer_ann (ann bob : String) :
    PlayerStore.load (mineServer ann bob).store "ann" = .ok ann := by
  have hne : "ann" ≠ "bob" := by decide
  show MemoryStore.load ((MemoryStore.empty.save "ann" ann).save "bob" bob) "ann" = .ok ann
  simp [MemoryStore.load, MemoryStore.save, KeyMap.get?_insert_of_ne _ hne]

theorem load_mineServer_bob (ann bob : String) :
    PlayerStore.load (mineServer ann bob).store "bob" = .ok bob := by
  show MemoryStore.load ((MemoryStore.empty.save "ann" ann).save "bob" bob) "bob" = .ok bob
  simp [MemoryStore.load, MemoryStore.save]

/-- A server on which each of two miners is stored under its own id. -/
def miners : Server MemoryStore := mineServer annText bobText

theorem aboutAll_miners : aboutAll (entriesOf miners.store) = ["ann", "bob"] := by
  rw [miners, entriesOf_mineServer]
  simp [aboutAll, about, decode_annText, decode_bobText, miner]

theorem stored_bob_miners : miners.stored "bob" = some (miner "bob") :=
  (stored_of_load (load_mineServer_bob _ _)).trans decode_bobText

/-- Each of two miners is advanced once. -/
theorem tick_advances_of_miners :
    PlayerStore.loadAll miners.store = .ok (entriesOf miners.store) ∧
      (tick 1 miners).1.updated.Nodup ∧ (tick 1 miners).1.updated.count "bob" = 1 ∧
      ∃ evaluator report w,
        (miners.economy.tick 1).result? ⟨miner "bob", [], evaluator, false⟩ = some (report, w) ∧
          PlayerStore.load (tick 1 miners).2.store "bob" = .ok (Snapshot.encode w.player) := by
  obtain ⟨aborted, -, hsafe, -, -, -, hnodup, honce⟩ :=
    tick_advances 1 miners (loadAll_memory miners.store) fun id _ => storable_memory miners.store id
  rw [aboutAll_miners] at hnodup honce
  rw [hsafe safe_mineEconomy] at honce
  rcases honce "bob" (miner "bob") stored_bob_miners (by decide) with
    ⟨hcount, -, hload⟩ | ⟨-, haborted, -⟩
  · exact ⟨loadAll_memory miners.store, hnodup (by decide), hcount, hload⟩
  · exact absurd haborted (by simp)

/-! ### Copies and moves -/

/-- A server on which the text of a miner was copied to another id. -/
def copied : Server MemoryStore := mineServer annText annText

/-- A server on which the text of a miner was moved to another id. -/
def moved : Server MemoryStore := ofEconomy mineEconomy (MemoryStore.empty.save "bob" annText) 0

/-- What a tick makes of the miner. -/
def onceTicked : World := (copied.economy.tick 1 ⟨miner "ann", [], copied.evaluator, false⟩).2

/-- What another tick makes of the miner. -/
def twiceTicked : World :=
  (copied.economy.tick 1 ⟨onceTicked.player, [], onceTicked.evaluator, false⟩).2

theorem advance_memory {s : Server MemoryStore} {id : String} {p : Player}
    (h : s.stored id = some p) (hsafe : s.economy.catalog.Safe) (now : UInt64) (index : Nat)
    {world : World} (hworld : world = (s.economy.tick now ⟨p, [], s.evaluator, false⟩).2) :
    ∃ s', advance now index id s = (.ok id, s') ∧ s'.economy = s.economy ∧
      s'.evaluator = world.evaluator ∧
      s'.store = s.store.save id (Snapshot.encode world.player) := by
  have hbroken : world.broken = false := hworld ▸ s.economy.unbroken_tick hsafe now _ rfl
  have hadvance := advance_of_stored h now index
  simp only [← hworld, hbroken, Bool.false_eq_true, if_false] at hadvance
  exact ⟨_, hadvance, rfl, rfl, rfl⟩

theorem decode_onceTicked :
    Snapshot.decode (Snapshot.encode onceTicked.player) = some onceTicked.player :=
  Snapshot.decode_encode (by decide +kernel) (by decide +kernel)

theorem decode_twiceTicked :
    Snapshot.decode (Snapshot.encode twiceTicked.player) = some twiceTicked.player :=
  Snapshot.decode_encode (by decide +kernel) (by decide +kernel)

theorem gold_ticked : onceTicked.player.resource "gold" = 1 ∧
    twiceTicked.player.resource "gold" = 2 := by decide +kernel

omit [FaithfulStore σ] in
theorem advanceEntry_annText (now : UInt64) (index : Nat) (s : Server σ) :
    advanceEntry now index (.ok annText) s = advance now index "ann" s := by
  simp only [advanceEntry, decode_annText]
  rfl

/-- Both entries lead to the first one. -/
theorem advanceAll_copied :
    ∃ s', advanceAll 1 0 (entriesOf copied.store) copied = ([.ok "ann", .ok "ann"], s') ∧
      s'.store = (copied.store.save "ann" (Snapshot.encode onceTicked.player)).save "ann"
        (Snapshot.encode twiceTicked.player) := by
  have hfirst : copied.stored "ann" = some (miner "ann") :=
    (stored_of_load (load_mineServer_ann _ _)).trans decode_annText
  obtain ⟨s, hs, heconomy, hevaluator, hstore⟩ :=
    advance_memory hfirst safe_mineEconomy 1 0 (by rw [onceTicked] : onceTicked = _)
  have hsecond : s.stored "ann" = some onceTicked.player := by
    refine (stored_of_load ?_).trans decode_onceTicked
    rw [hstore]
    exact load_save_memory _ _ _
  obtain ⟨t, ht, -, -, hstore'⟩ := advance_memory hsecond (heconomy ▸ safe_mineEconomy) 1 1
    (by rw [heconomy, hevaluator, twiceTicked] : twiceTicked = _)
  rw [hstore] at hstore'
  refine ⟨t, ?_, hstore'⟩
  have hentries : entriesOf copied.store = [.ok annText, .ok annText] :=
    entriesOf_mineServer annText annText
  rw [hentries, advanceAll_cons ((advanceEntry_annText 1 0 copied).trans hs),
    advanceAll_cons ((advanceEntry_annText 1 1 s).trans ht)]
  rfl

/-- The entry leads to nothing. -/
theorem advanceAll_moved :
    ∃ failure, advanceAll 1 0 (entriesOf moved.store) moved = ([.error failure], moved) := by
  have hentries : entriesOf moved.store = [.ok annText] := entriesOf_single "bob" annText
  have hnone : moved.stored "ann" = none := by
    have hload : PlayerStore.load moved.store "ann" = .error (.notFound "ann") :=
      load_save_memory_of_ne MemoryStore.empty (by decide) annText
    rw [stored, hload]
  rcases advance_cases 1 0 "ann" moved with ⟨failure, -, -, h⟩ | ⟨p, _, hp, _⟩
  · exact ⟨failure, by
      rw [hentries, advanceAll_cons ((advanceEntry_annText 1 0 moved).trans h)]
      rfl⟩
  · exact absurd (hp.symm.trans hnone) (by simp)

/-- **A copied player is advanced in place of the copy, and a moved one not at all.**  Of two entries
about one player the first is advanced twice and the second never, and the report lists the player
twice; an entry about a player that nothing is stored under is not advanced. -/
theorem exists_advanced_twice :
    (copied.stored "ann" = some (miner "ann") ∧ copied.stored "bob" = some (miner "ann")) ∧
    ((tick 1 copied).1.updated = ["ann", "ann"] ∧
      (tick 1 copied).2.stored "ann" = some twiceTicked.player ∧
      onceTicked.player.resource "gold" = 1 ∧ twiceTicked.player.resource "gold" = 2 ∧
      (tick 1 copied).2.stored "bob" = some (miner "ann")) ∧
    moved.stored "bob" = some (miner "ann") ∧ (tick 1 moved).1.updated = [] ∧
      (tick 1 moved).2.stored "bob" = some (miner "ann") := by
  have hann : copied.stored "ann" = some (miner "ann") :=
    (stored_of_load (load_mineServer_ann _ _)).trans decode_annText
  have hbob : copied.stored "bob" = some (miner "ann") :=
    (stored_of_load (load_mineServer_bob _ _)).trans decode_annText
  have hmoved : moved.stored "bob" = some (miner "ann") :=
    (stored_of_load (load_save_memory _ _ _)).trans decode_annText
  obtain ⟨s', hall, hstore⟩ := advanceAll_copied
  have htick := store_tick_of_ok (loadAll_memory copied.store) 1
  rw [hall] at htick
  refine ⟨⟨hann, hbob⟩, ⟨?_, ?_, gold_ticked.1, gold_ticked.2, ?_⟩, hmoved, ?_, ?_⟩
  · have hperm := updated_tick_perm (loadAll_memory copied.store) 1
    rw [hall] at hperm
    have htwo : updatesOf [.ok "ann", .ok "ann"] = List.replicate 2 "ann" := rfl
    rw [htwo, List.perm_replicate] at hperm
    exact hperm
  · refine (stored_of_load ?_).trans decode_twiceTicked
    rw [htick, hstore]
    exact load_save_memory _ _ _
  · refine (stored_of_load ?_).trans decode_annText
    have hne : "bob" ≠ "ann" := by decide
    rw [htick, hstore, load_save_memory_of_ne _ hne, load_save_memory_of_ne _ hne]
    exact load_mineServer_bob annText annText
  · obtain ⟨failure, hall⟩ := advanceAll_moved
    have hperm := updated_tick_perm (loadAll_memory moved.store) 1
    rw [hall] at hperm
    exact List.perm_nil.mp hperm
  · obtain ⟨failure, hall⟩ := advanceAll_moved
    have htick := store_tick_of_ok (loadAll_memory moved.store) 1
    rw [hall] at htick
    refine (stored_of_load ?_).trans decode_annText
    rw [htick]
    exact load_save_memory MemoryStore.empty "bob" annText

end IncrementalGame.Server
