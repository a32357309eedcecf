import IncrementalGame.Proofs.Server.FilingStore
import IncrementalGame.Proofs.Server.OncePerTick

/-!
# Entries that fail do no harm

An entry that cannot be read, or whose text is no player, is a line in the report of a tick and
nothing else.  So to leave such entries out of the store before the tick or after it comes to the
same (`advanceEntry_without`): the other entries are read, advanced and stored alike, the evaluator
and those who listen come to the same state, and the report differs in one failure for each entry
that was left out (`tick_isolates`).

This is for stores in which each player is filed under its own id.  An entry of another player's id
is advanced in the place of that other one, and not where it stands.
-/

namespace IncrementalGame.Server

variable {σ : Type} [PlayerStore σ]

/-! ## Reports -/

/-- The failure that an entry at some place is, if it is no player. -/
def complaint? (index : Nat) : Except StoreError String → Option TickFailure
  | .error error => some (.entry error)
  | .ok text =>
    match Snapshot.decode text with
    | none => some (.unreadable index)
    | some _ => none

/-- The failures that entries are, the first of which has the given index. -/
def complaints : Nat → List (Except StoreError String) → List TickFailure
  | _, [] => []
  | index, entry :: rest => (complaint? index entry).toList ++ complaints (index + 1) rest

theorem complaint?_isSome (index : Nat) (entry : Except StoreError String) :
    (complaint? index entry).isSome = (about entry).isNone := by
  cases entry with
  | error error => rfl
  | ok text =>
    rw [complaint?, about]
    cases Snapshot.decode text <;> rfl

/-- There is one failure for each entry that is no player. -/
theorem length_complaints (index : Nat) (entries : List (Except StoreError String)) :
    (complaints index entries).length = entries.countP fun entry => (about entry).isNone := by
  induction entries generalizing index with
  | nil => rfl
  | cons entry rest ih =>
    rw [complaints, List.length_append, ih, List.countP_cons, ← complaint?_isSome index]
    cases complaint? index entry with
    | none => exact Nat.zero_add _
    | some failure => exact Nat.add_comm _ _

/-- Each result is an update or a failure. -/
theorem length_updatesOf_add (results : List (Except TickFailure String)) :
    (updatesOf results).length + (failuresOf results).length = results.length := by
  induction results with
  | nil => rfl
  | cons result others ih =>
    rw [updatesOf_cons, failuresOf_cons, List.length_append, List.length_append, List.length_cons,
      ← ih]
    cases result with
    | ok id =>
      show 1 + _ + (0 + _) = _
      omega
    | error failure =>
      show 0 + _ + (1 + _) = _
      omega

/-- Each entry has a result. -/
theorem length_advanceAll (now : UInt64) (entries : List (Except StoreError String)) (index : Nat)
    (s : Server σ) : (advanceAll now index entries s).1.length = entries.length := by
  induction entries generalizing index s with
  | nil => rfl
  | cons entry rest ih =>
    rw [advanceAll_cons rfl, List.length_cons, List.length_cons, ih]

/-- **Each listed entry is an update or a failure.** -/
theorem length_updated_add (now : UInt64) (s : Server σ) {entries : List (Except StoreError String)}
    (h : PlayerStore.loadAll s.store = .ok entries) :
    (tick now s).1.updated.length + (tick now s).1.failures.length = entries.length := by
  rw [(updated_tick_perm h now).length_eq, ← length_advanceAll now entries 0 s,
    ← length_updatesOf_add, tick_apply, h]
  rfl

/-! ## Entries that nobody is about -/

variable [FilingStore σ]

/-- Whether the entries under other ids are still there, and no key has come or gone. -/
structure Spares (s s' : Server σ) (ids : List String) : Prop where
  keys : (FilingStore.entries s'.store).map (·.1) = (FilingStore.entries s.store).map (·.1)
  others : ∀ e ∈ FilingStore.entries s.store, e.1 ∉ ids → e ∈ FilingStore.entries s'.store

namespace Spares

variable {s t u : Server σ} {ids ids' : List String}

theorem of_entries_eq (h : FilingStore.entries t.store = FilingStore.entries s.store) :
    Spares s t ids := by
  refine ⟨by rw [h], fun e he _ => ?_⟩
  rw [h]
  exact he

theorem append (h : Spares s t ids) (h' : Spares t u ids') : Spares s u (ids ++ ids') := by
  refine ⟨h'.keys.trans h.keys, fun e he hids => ?_⟩
  rw [List.mem_append, not_or] at hids
  exact h'.others e (h.others e he hids.1) hids.2

end Spares

theorem spares_advance (now : UInt64) (index : Nat) (id : String) (s : Server σ) :
    Spares s (advance now index id s).2 [id] := by
  rcases advance_cases now index id s with ⟨_, -, -, h⟩ |
    ⟨p, world, hstored, -, ⟨-, h⟩ | ⟨-, h⟩⟩
  · rw [h]
    exact .of_entries_eq rfl
  · rw [h]
    exact .of_entries_eq rfl
  · rcases h with ⟨error, hsave, h⟩ | ⟨hsave, h⟩
    · rw [h]
      exact .of_entries_eq (FilingStore.entries_save_of_error hsave)
    · obtain ⟨text, hload, -⟩ := exists_load_of_stored hstored
      have hentries := FilingStore.entries_save hload hsave
      rw [h]
      constructor
      · refine (congrArg (List.map (·.1)) hentries).trans ?_
        rw [List.map_map]
        refine List.map_congr_left fun e _ => ?_
        by_cases heq : e.1 = id <;> simp [heq]
      · intro e he hne
        rw [List.mem_singleton] at hne
        show e ∈ FilingStore.entries (PlayerStore.save s.store id _).2
        rw [hentries, List.mem_map]
        exact ⟨e, he, if_neg hne⟩

theorem spares_advanceEntry (now : UInt64) (index : Nat) (entry : Except StoreError String)
    (s : Server σ) : Spares s (advanceEntry now index entry s).2 (about entry).toList := by
  cases entry with
  | error error => exact .of_entries_eq rfl
  | ok text =>
    cases hdecode : Snapshot.decode text with
    | none =>
      simp only [advanceEntry, about, hdecode]
      exact .of_entries_eq rfl
    | some p =>
      simp only [advanceEntry, about, hdecode]
      exact spares_advance now index p.id s

/-- Updates leave the entries that they are not about as they are. -/
theorem spares_advanceAll (now : UInt64) (entries : List (Except StoreError String)) (index : Nat)
    (s : Server σ) : Spares s (advanceAll now index entries s).2 (aboutAll entries) := by
  induction entries generalizing index s with
  | nil => exact .of_entries_eq rfl
  | cons entry rest ih =>
    rw [aboutAll_cons, advanceAll_cons rfl]
    exact (spares_advanceEntry now index entry s).append (ih _ _)

/-! ## Entries that are left out -/

/-- The server over a store from which some entries are left out. -/
def without (s : Server σ) (keep : String → Bool) : Server σ :=
  { s with store := FilingStore.restrict s.store keep }

variable {s : Server σ} {keep : String → Bool} {id : String}

theorem given_without (hkeep : keep id = true) (s : Server σ) (text : String) :
    (s.without keep).given id text = (s.given id text).without keep := by
  simp only [given, saveText, without, FilingStore.save_restrict s.store text hkeep]

/-- What is kept is advanced as before. -/
theorem advance_without (hkeep : keep id = true) (hreadable : ∀ text,
      PlayerStore.load s.store id = .ok text → Snapshot.decode text ≠ none)
    (now : UInt64) (index index' : Nat) :
    advance now index' id (s.without keep) =
      ((advance now index id s).1, (advance now index id s).2.without keep) := by
  have hload : PlayerStore.load (s.without keep).store id = PlayerStore.load s.store id :=
    FilingStore.load_restrict s.store hkeep
  cases hloaded : PlayerStore.load s.store id with
  | error error =>
    rw [advance_of_load_error hloaded, advance_of_load_error (hload.trans hloaded)]
  | ok text =>
    obtain ⟨p, hdecode⟩ := Option.ne_none_iff_exists'.mp (hreadable text hloaded)
    have hstored : s.stored id = some p := (stored_of_load hloaded).trans hdecode
    have hstored' : (s.without keep).stored id = some p :=
      (stored_of_load (hload.trans hloaded)).trans hdecode
    have hacted : ∀ evaluator : Formula.Evaluator,
        { s.without keep with evaluator := evaluator } =
          { s with evaluator := evaluator }.without keep := fun _ => rfl
    have hsave : ∀ text, (PlayerStore.save (s.without keep).store id text).1 =
        (PlayerStore.save s.store id text).1 := by
      intro text
      rw [without, FilingStore.save_restrict s.store text hkeep]
    have hworld : ((s.without keep).economy.tick now ⟨p, [], (s.without keep).evaluator, false⟩).2 =
        (s.economy.tick now ⟨p, [], s.evaluator, false⟩).2 := rfl
    rw [advance_of_stored hstored, advance_of_stored hstored', hworld, hsave, hacted,
      given_without hkeep]
    split
    · rfl
    · cases (PlayerStore.save s.store id
        (Snapshot.encode (s.economy.tick now ⟨p, [], s.evaluator, false⟩).2.player)).1 <;> rfl

omit [FilingStore σ] in
/-- An entry that is no player is its failure and changes nothing. -/
theorem advanceEntry_of_about_eq_none {entry : Except StoreError String} (h : about entry = none)
    (now : UInt64) (index : Nat) (s : Server σ) :
    ∃ failure, complaint? index entry = some failure ∧
      advanceEntry now index entry s = (.error failure, s) := by
  cases entry with
  | error error => exact ⟨_, rfl, rfl⟩
  | ok text =>
    rw [about, Option.map_eq_none_iff] at h
    refine ⟨.unreadable index, ?_, ?_⟩
    · simp only [complaint?, h]
    · simp only [advanceEntry, h]
      rfl

/-- An entry of a player who is filed under the own id is advanced as before. -/
theorem advanceEntry_without {key : String} {entry : Except StoreError String} {id : String}
    (habout : about entry = some id) (hfiled : id = key) (hkeep : keep key = true)
    (hmem : (key, entry) ∈ FilingStore.entries s.store) (now : UInt64) (index index' : Nat) :
    complaint? index entry = none ∧
      advanceEntry now index' entry (s.without keep) =
        ((advanceEntry now index entry s).1, (advanceEntry now index entry s).2.without keep) := by
  subst hfiled
  cases entry with
  | error error => exact absurd habout (by simp [about])
  | ok text =>
    obtain ⟨p, hdecode, rfl⟩ := Option.map_eq_some_iff.mp habout
    -- what is loaded under the id is the entry, since no other entry has this key
    have hreadable : ∀ loaded, PlayerStore.load s.store p.id = .ok loaded →
        Snapshot.decode loaded ≠ none := by
      intro loaded hload
      have hsame := List.inj_on_of_nodup_map (FilingStore.nodup_keys s.store)
        (FilingStore.mem_of_load hload) hmem rfl
      rw [Except.ok.inj (Prod.mk.inj hsame).2, hdecode]
      exact Option.some_ne_none p
    simp only [complaint?, advanceEntry, hdecode]
    exact ⟨trivial, advance_without hkeep hreadable now index index'⟩

/-! ## Ticks -/

/-- Whether each player is filed under its own id. -/
def FiledUnderIds (entries : List (String × Except StoreError String)) : Prop :=
  ∀ e ∈ entries, ∀ id ∈ about e.2, id = e.1

instance (entries : List (String × Except StoreError String)) : Decidable (FiledUnderIds entries) :=
  inferInstanceAs (Decidable (∀ e ∈ entries, ∀ id ∈ about e.2, id = e.1))

/-- What updates come to if entries that are no players are left out: the server ends up as it would
otherwise, the same players are updated, and each entry left out is one failure less. -/
theorem advanceAll_without (now : UInt64) (entries : List (String × Except StoreError String))
    (index index' : Nat) (s : Server σ)
    (hmem : ∀ e ∈ entries, e ∈ FilingStore.entries s.store)
    (hnodup : (entries.map (·.1)).Nodup) (hfiled : FiledUnderIds entries)
    (hkeep : ∀ e ∈ entries, keep e.1 = (about e.2).isSome) :
    let all := advanceAll now index (entries.map (·.2)) s
    let healthy := advanceAll now index' ((entries.filter fun e => keep e.1).map (·.2))
      (s.without keep)
    healthy.2 = all.2.without keep ∧ updatesOf healthy.1 = updatesOf all.1 ∧
      (failuresOf all.1).Perm (failuresOf healthy.1 ++ complaints index (entries.map (·.2))) := by
  induction entries generalizing index index' s with
  | nil => exact ⟨rfl, rfl, List.Perm.refl _⟩
  | cons e rest ih =>
    obtain ⟨key, entry⟩ := e
    obtain ⟨hkey, hrest⟩ := List.nodup_cons.mp hnodup
    have hfirst : (key, entry) ∈ FilingStore.entries s.store := hmem _ List.mem_cons_self
    have hkeepFirst : keep key = (about entry).isSome := hkeep _ List.mem_cons_self
    have hspared : ∀ e ∈ rest, e ∈ FilingStore.entries (advanceEntry now index entry s).2.store := by
      intro e he
      refine (spares_advanceEntry now index entry s).others e (hmem e (List.mem_cons_of_mem _ he)) ?_
      rw [Option.mem_toList]
      intro habout
      have hid : e.1 = key := hfiled _ List.mem_cons_self _ habout
      exact hkey (List.mem_map.mpr ⟨e, he, hid⟩)
    have hih := fun i => ih (index + 1) i (advanceEntry now index entry s).2 hspared hrest
      (fun e he => hfiled e (List.mem_cons_of_mem _ he))
      (fun e he => hkeep e (List.mem_cons_of_mem _ he))
    cases habout : about entry with
    | none =>
      obtain ⟨failure, hcomplaint, hresult⟩ := advanceEntry_of_about_eq_none habout now index s
      rw [habout] at hkeepFirst
      rw [hresult] at hih
      obtain ⟨hserver, hupdates, hfailures⟩ := hih index'
      simp only [List.map_cons, List.filter_cons, hkeepFirst, complaints, hcomplaint]
      rw [advanceAll_cons hresult]
      refine ⟨hserver, hupdates, ?_⟩
      exact (hfailures.cons failure).trans List.perm_middle.symm
    | some id =>
      rw [habout, Option.isSome_some] at hkeepFirst
      obtain ⟨hcomplaint, hresult⟩ := advanceEntry_without habout
        (hfiled _ List.mem_cons_self _ habout) hkeepFirst hfirst now index index'
      obtain ⟨hserver, hupdates, hfailures⟩ := hih (index' + 1)
      simp only [List.map_cons, List.filter_cons, hkeepFirst, complaints, hcomplaint, if_true]
      rw [advanceAll_cons hresult, advanceAll_cons rfl]
      refine ⟨hserver, ?_, ?_⟩
      · rw [updatesOf_cons, updatesOf_cons, hupdates]
        rfl
      · rw [failuresOf_cons, failuresOf_cons _ (advanceAll _ _ _ (without _ _)).1, List.append_assoc]
        exact hfailures.append_left _

/-- Whether the entry under a key is a player. -/
def healthy (store : σ) (key : String) : Bool :=
  (FilingStore.entries store).any fun e => e.1 == key && (about e.2).isSome

theorem healthy_eq {e : String × Except StoreError String} {store : σ}
    (he : e ∈ FilingStore.entries store) : healthy store e.1 = (about e.2).isSome := by
  rw [Bool.eq_iff_iff, healthy, List.any_eq_true]
  constructor
  · rintro ⟨other, hother, h⟩
    rw [Bool.and_eq_true, beq_iff_eq] at h
    rw [← List.inj_on_of_nodup_map (FilingStore.nodup_keys store) hother he h.1]
    exact h.2
  · intro h
    exact ⟨e, he, by rw [h, Bool.and_true, beq_self_eq_true]⟩

/-- What a tick does over the healthy entries is what it does over all of them: the same players are
updated, the same is stored, told, remembered and drawn, and each of the other entries is one
failure. -/
theorem tick_without (now : UInt64) (s : Server σ)
    (hfiled : FiledUnderIds (FilingStore.entries s.store))
    {listing : List (Except StoreError String)}
    (hlist : PlayerStore.loadAll s.store = .ok listing) :
    let t := s.without (healthy s.store)
    (tick now t).2.store = FilingStore.restrict (tick now s).2.store (healthy s.store) ∧
      (tick now t).2.evaluator = (tick now s).2.evaluator ∧
      (tick now t).1.updated = (tick now s).1.updated ∧
      (tick now s).1.failures.Perm ((tick now t).1.failures ++ complaints 0 listing) := by
  intro t
  have hentries := FilingStore.loadAll_eq hlist
  have hlist' : PlayerStore.loadAll t.store =
      .ok (((FilingStore.entries s.store).filter fun e => healthy s.store e.1).map (·.2)) := by
    rw [← FilingStore.entries_restrict]
    refine (FilingStore.loadAll_restrict s.store _).trans ?_
    rw [hlist]
    rfl
  obtain ⟨hserver, hupdates, hfailures⟩ := advanceAll_without now (FilingStore.entries s.store) 0 0 s
    (fun _ he => he) (FilingStore.nodup_keys s.store) hfiled fun _ he => healthy_eq he
  rw [← hentries] at hserver hupdates hfailures
  rw [tick_apply, tick_apply, hlist, hlist']
  have hevaluator := congrArg Server.evaluator hserver
  refine ⟨congrArg Server.store hserver, hevaluator, ?_, hfailures⟩
  exact congrArg (fun updates : List String => updates.mergeSort fun a b => decide (a ≤ b)) hupdates

/-- **Entries that fail do no harm.**  Where each player is filed under its own id, what a tick
makes of the entries that are players does not depend on the others: it is the same if these are
left out.  The others are as they were, and each of them is one failure more.  And over any store
that can be listed, each entry is one update or one failure. -/
theorem tick_isolates (now : UInt64) (s : Server σ)
    (hfiled : FiledUnderIds (FilingStore.entries s.store)) :
    let t := s.without (healthy s.store)
    FilingStore.entries (tick now t).2.store =
        (FilingStore.entries (tick now s).2.store).filter (fun e => healthy s.store e.1) ∧
      (∀ e ∈ FilingStore.entries s.store, about e.2 = none →
        e ∈ FilingStore.entries (tick now s).2.store) ∧
      (∀ listing, PlayerStore.loadAll s.store = .ok listing →
        (tick now t).1.updated = (tick now s).1.updated ∧
        (tick now s).1.failures.Perm ((tick now t).1.failures ++ complaints 0 listing) ∧
        (complaints 0 listing).length = listing.countP fun entry => (about entry).isNone) ∧
      ∀ {τ : Type} [PlayerStore τ] (u : Server τ) (listing : List (Except StoreError String)),
        PlayerStore.loadAll u.store = .ok listing →
          (tick now u).1.updated.length + (tick now u).1.failures.length = listing.length := by
  intro t
  refine ⟨?_, ?_, ?_, fun u listing hlist => length_updated_add now u hlist⟩
  · rw [← FilingStore.entries_restrict]
    cases hlist : PlayerStore.loadAll s.store with
    | error error =>
      have hlist' : PlayerStore.loadAll t.store = .error error := by
        refine (FilingStore.loadAll_restrict s.store _).trans ?_
        rw [hlist]
        rfl
      rw [store_tick_of_error hlist, store_tick_of_error hlist']
      rfl
    | ok listing => rw [(tick_without now s hfiled hlist).1]
  · intro e he hbad
    cases hlist : PlayerStore.loadAll s.store with
    | error error =>
      rw [store_tick_of_error hlist]
      exact he
    | ok listing =>
      rw [store_tick_of_ok hlist, FilingStore.loadAll_eq hlist]
      refine (spares_advanceAll now _ 0 s).others e he ?_
      intro hmem
      obtain ⟨entry, hentry, habout⟩ := List.mem_filterMap.mp hmem
      obtain ⟨other, hother, rfl⟩ := List.mem_map.mp hentry
      have hsame := List.inj_on_of_nodup_map (FilingStore.nodup_keys s.store) hother he
        (hfiled other hother _ habout).symm
      rw [hsame, hbad] at habout
      exact absurd habout (by simp)
  · intro listing hlist
    obtain ⟨-, -, hupdated, hfailures⟩ := tick_without now s hfiled hlist
    exact ⟨hupdated, hfailures, length_complaints 0 listing⟩

/-! ### A folder with two miners -/

/-- A server over a folder in which between two miners there are a file that is no player and a
directory with the name of a file. -/
def litteredFolder : Server Folder :=
  ofEconomy mineEconomy
    ((((Folder.empty.put "ann.json" (.file annText)).put "bad.json" (.file "ann")).put
      "bob.json" (.file bobText)).put "dir.json" .other) 0

theorem loadAll_litteredFolder :
    PlayerStore.loadAll litteredFolder.store = .ok litteredFolder.store.loadAll := rfl

/-- Both miners are advanced as if they were alone, and there are two failures. -/
theorem tick_isolates_of_litteredFolder :
    FilingStore.entries (tick 1 (litteredFolder.without (healthy litteredFolder.store))).2.store =
        (FilingStore.entries (tick 1 litteredFolder).2.store).filter
          (fun e => healthy litteredFolder.store e.1) ∧
      (tick 1 (litteredFolder.without (healthy litteredFolder.store))).1.updated =
        (tick 1 litteredFolder).1.updated ∧
      (tick 1 litteredFolder).1.failures.Perm
        ((tick 1 (litteredFolder.without (healthy litteredFolder.store))).1.failures ++
          [.unreadable 1, .entry (.file "dir.json")]) ∧
      (tick 1 litteredFolder).1.updated.length + (tick 1 litteredFolder).1.failures.length = 4 := by
  have hfiled : FiledUnderIds (FilingStore.entries litteredFolder.store) := by decide +kernel
  have hcomplaints : complaints 0 litteredFolder.store.loadAll =
      [.unreadable 1, .entry (.file "dir.json")] := by decide +kernel
  have hfour : litteredFolder.store.loadAll.length = 4 := by decide +kernel
  obtain ⟨hentries, -, hreport, hlength⟩ := tick_isolates 1 litteredFolder hfiled
  obtain ⟨hupdated, hfailures, -⟩ := hreport _ loadAll_litteredFolder
  have hsum := hlength litteredFolder _ loadAll_litteredFolder
  rw [hcomplaints] at hfailures
  rw [hfour] at hsum
  exact ⟨hentries, hupdated, hfailures, hsum⟩

end IncrementalGame.Server
