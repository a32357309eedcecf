import Mathlib.Data.List.Nodup
import Mathlib.Data.List.TakeWhile
import IncrementalGame.Proofs.Server.SteadyStore

/-!
# Entries under keys

The entries of a store are listed without saying under which ids they are kept, but every store here
keeps each of them under a key of its own.  A `FilingStore` gives the entries with their keys, and
can be told to leave some of them out (`restrict`).

What is loaded is the entry of the id.  A text that is stored in place of another one replaces this
entry where it stands, and one that is refused changes no entry.  And to leave out entries commutes
with all that is done under the keys of the others.  Tables, folders and stores that are out of
order for a while are such stores.
-/

namespace IncrementalGame

/-- A store that keeps each of its entries under a key of its own. -/
class FilingStore (σ : Type) [PlayerStore σ] where
  /-- The entries with their keys, in the order of the listing. -/
  entries : σ → List (String × Except StoreError String)
  /-- The store without the entries whose keys are not to be kept. -/
  restrict : σ → (String → Bool) → σ
  /-- No two entries have the same key. -/
  nodup_keys : ∀ store, ((entries store).map (·.1)).Nodup
  /-- What is listed are the entries. -/
  loadAll_eq : ∀ {store : σ} {listing}, PlayerStore.loadAll store = .ok listing →
    listing = (entries store).map (·.2)
  /-- What is loaded is the entry of the id. -/
  mem_of_load : ∀ {store : σ} {id text : String}, PlayerStore.load store id = .ok text →
    (id, .ok text) ∈ entries store
  /-- What is stored in place of another text replaces its entry. -/
  entries_save : ∀ {store : σ} {id old text : String}, PlayerStore.load store id = .ok old →
    (PlayerStore.save store id text).1 = .ok () →
      entries (PlayerStore.save store id text).2 =
        (entries store).map fun e => if e.1 = id then (id, .ok text) else e
  /-- What is refused changes no entry. -/
  entries_save_of_error : ∀ {store : σ} {id text : String} {error : StoreError},
    (PlayerStore.save store id text).1 = .error error →
      entries (PlayerStore.save store id text).2 = entries store
  /-- What is left are the entries whose keys are kept. -/
  entries_restrict : ∀ (store : σ) (keep : String → Bool),
    entries (restrict store keep) = (entries store).filter fun e => keep e.1
  /-- What is left can be listed just if all could. -/
  loadAll_restrict : ∀ (store : σ) (keep : String → Bool),
    PlayerStore.loadAll (restrict store keep) =
      (PlayerStore.loadAll store).map fun _ => (entries (restrict store keep)).map (·.2)
  /-- What is kept is loaded as before. -/
  load_restrict : ∀ (store : σ) {keep : String → Bool} {id : String}, keep id = true →
    PlayerStore.load (restrict store keep) id = PlayerStore.load store id
  /-- What is kept is stored as before. -/
  save_restrict : ∀ (store : σ) {keep : String → Bool} {id : String} (text : String),
    keep id = true → PlayerStore.save (restrict store keep) id text =
      ((PlayerStore.save store id text).1, restrict (PlayerStore.save store id text).2 keep)

/-! ## Tables -/

namespace KeyMap

variable {α : Type} (t : KeyMap α) {keep : String → Bool}

/-- A write to a key that is kept may come before or after the others are left out. -/
theorem filter_key_insert {key : String} (h : keep key = true) (value : α) :
    (t.insert key value).filter (fun key _ => keep key) =
      (t.filter fun key _ => keep key).insert key value := by
  apply ext_get?
  intro other
  rw [get?_filter_key]
  by_cases heq : other = key
  · rw [heq, if_pos h, get?_insert_self, get?_insert_self]
  · rw [get?_insert_of_ne _ heq, get?_insert_of_ne _ heq, get?_filter_key]

theorem filter_key_erase (key : String) :
    (t.erase key).filter (fun key _ => keep key) =
      (t.filter fun key _ => keep key).erase key := by
  apply ext_get?
  intro other
  rw [get?_filter_key]
  by_cases heq : other = key
  · rw [heq, get?_erase_self, get?_erase_self, ite_self]
  · rw [get?_erase_of_ne _ heq, get?_erase_of_ne _ heq, get?_filter_key]

end KeyMap

namespace MemoryStore

instance : FilingStore MemoryStore where
  entries store := store.texts.entries.map fun e => (e.1, .ok e.2)
  restrict store keep := ⟨store.texts.filter fun key _ => keep key⟩
  nodup_keys := by
    intro store
    rw [List.map_map]
    exact store.texts.nodup_keys
  loadAll_eq := by
    intro store listing h
    rw [List.map_map]
    exact (Except.ok.inj h).symm
  mem_of_load := by
    intro store id text h
    exact List.mem_map_of_mem (f := fun e => (e.1, Except.ok e.2))
      (KeyMap.mem_entries_iff.mpr (get?_of_load h))
  entries_save := by
    intro store id old text h _
    have hlisted : (store.texts.get? id).isSome = true := by rw [get?_of_load h, Option.isSome_some]
    show ((store.texts.insert id text).entries.map fun e => (e.1, Except.ok e.2)) = _
    rw [KeyMap.entries_insert_of_isSome hlisted, List.map_map, List.map_map]
    refine List.map_congr_left fun e _ => ?_
    by_cases heq : e.1 = id <;> simp [heq]
  entries_save_of_error := by
    intro store id text error h
    exact absurd h (by simp [PlayerStore.save])
  entries_restrict := by
    intro store keep
    rw [List.filter_map]
    rfl
  loadAll_restrict := by
    intro store keep
    rw [List.map_map]
    rfl
  load_restrict := by
    intro store keep id h
    show load ⟨store.texts.filter fun key _ => keep key⟩ id = load store id
    rw [load, load, KeyMap.get?_filter_key, if_pos h]
  save_restrict := by
    intro store keep id text h
    show (Except.ok (), (⟨(store.texts.filter fun key _ => keep key).insert id text⟩ : MemoryStore)) =
      (Except.ok (), ⟨(store.texts.insert id text).filter fun key _ => keep key⟩)
    rw [KeyMap.filter_key_insert _ h]

end MemoryStore

/-! ## Outages -/

namespace Unreliable

variable {σ : Type} [PlayerStore σ] [FilingStore σ]

instance : FilingStore (Unreliable σ) where
  entries u := FilingStore.entries u.store
  restrict u keep := { u with store := FilingStore.restrict u.store keep }
  nodup_keys u := FilingStore.nodup_keys u.store
  loadAll_eq := by
    intro u listing h
    change (if u.listingFails then .error outage else PlayerStore.loadAll u.store) = _ at h
    split at h
    · exact absurd h (by simp)
    · exact FilingStore.loadAll_eq h
  mem_of_load h := FilingStore.mem_of_load h
  entries_save := by
    intro u id old text hload h
    by_cases hfail : u.savesFail = true
    · rw [save_of_outage hfail] at h
      exact absurd h (by simp)
    · rw [save_of_order hfail] at h ⊢
      exact FilingStore.entries_save hload h
  entries_save_of_error := by
    intro u id text error h
    by_cases hfail : u.savesFail = true
    · rw [save_of_outage hfail]
    · rw [save_of_order hfail] at h ⊢
      exact FilingStore.entries_save_of_error h
  entries_restrict u keep := FilingStore.entries_restrict u.store keep
  loadAll_restrict := by
    intro u keep
    show (if u.listingFails then .error outage else PlayerStore.loadAll _) =
      (if u.listingFails then .error outage else PlayerStore.loadAll u.store).map _
    split
    · rfl
    · exact FilingStore.loadAll_restrict u.store keep
  load_restrict u _ _ h := FilingStore.load_restrict u.store h
  save_restrict := by
    intro u keep id text h
    let left : Unreliable σ := { u with store := FilingStore.restrict u.store keep }
    show PlayerStore.save left id text = _
    by_cases hfail : u.savesFail = true
    · have hleft : left.savesFail = true := hfail
      rw [save_of_outage hfail, save_of_outage hleft]
    · have hleft : ¬left.savesFail = true := hfail
      rw [save_of_order hfail, save_of_order hleft, FilingStore.save_restrict u.store text h]

end Unreliable

/-! ## Folders -/

namespace FileName

/-- A name with an extension ends in it. -/
theorem exists_of_extension? {name extension : String} (h : extension? name = some extension) :
    ∃ stem, name = stem ++ "." ++ extension := by
  rw [extension?] at h
  obtain ⟨before, hbefore⟩ : ∃ before, name.toList.reverse = reversedName name ++ before :=
    ⟨_, (List.takeWhile_append_dropWhile).symm⟩
  have hparts := List.takeWhile_append_dropWhile (p := (· != '.')) (l := reversedName name)
  simp only at h
  split at h
  next c d rest hdrop =>
    have hpoint : c = '.' := by
      have hhead := List.head?_dropWhile_not (· != '.') (reversedName name)
      rw [hdrop] at hhead
      simpa using hhead
    have hextension := Option.some_inj.mp h
    refine ⟨String.ofList ((d :: rest) ++ before).reverse, ?_⟩
    apply String.toList_inj.mp
    rw [← List.reverse_inj, hbefore, ← hparts, hdrop, ← hextension, hpoint]
    simp [String.toList_append]
  next => exact absurd h (by simp)

end FileName

namespace Folder

/-- The id whose file has a name. -/
def ownerOf (name : String) : String := String.ofList (name.toList.take (name.toList.length - 5))

theorem ownerOf_fileOf (id : String) : ownerOf (fileOf id) = id := by
  have hlist : (fileOf id).toList = id.toList ++ ['.', 'j', 's', 'o', 'n'] := by
    simp [fileOf, playerExtension, String.toList_append]
  rw [ownerOf, hlist, List.length_append]
  simp

/-- Each file that holds a player is the file of an id. -/
theorem fileOf_ownerOf {name : String} (h : FileName.extension? name = some playerExtension) :
    fileOf (ownerOf name) = name := by
  obtain ⟨stem, rfl⟩ := FileName.exists_of_extension? h
  exact congrArg fileOf (ownerOf_fileOf stem)

theorem isIdChar_slash : isIdChar '/' = false := by decide

/-- The file of an id that makes a file name is one that holds a player. -/
theorem extension?_fileOf {id : String} (h : isValidId id = true) :
    FileName.extension? (fileOf id) = some playerExtension := by
  rw [isValidId, Bool.and_eq_true, Bool.not_eq_true'] at h
  obtain ⟨hnonempty, hchars⟩ := h
  have hname : FileName.reversedName id = id.toList.reverse := by
    rw [FileName.reversedName, List.takeWhile_eq_self_iff]
    intro c hc
    have hchar : isIdChar c = true := List.all_eq_true.mp hchars c (List.mem_reverse.mp hc)
    rw [bne_iff_ne]
    rintro rfl
    exact absurd hchar (by rw [isIdChar_slash]; simp)
  have hsome : (FileName.reversedName id).isEmpty = false := by
    rw [hname, List.isEmpty_reverse]
    cases hlist : id.toList with
    | nil =>
      rw [String.toList_eq_nil_iff] at hlist
      rw [hlist] at hnonempty
      exact absurd hnonempty (by decide)
    | cons c rest => rfl
  show FileName.extension? (id ++ "." ++ playerExtension) = some playerExtension
  rw [FileName.extension?_dotted (by decide), hsome]
  rfl

/-! ### What is left out -/

/-- Whether a name is kept: unless it is the file of a player who is not to be kept. -/
def keepsName (keep : String → Bool) (name : String) : Bool :=
  FileName.extension? name != some playerExtension || keep (ownerOf name)

/-- A folder without the files of some players. -/
def restrict (folder : Folder) (keep : String → Bool) : Folder :=
  ⟨folder.entries.filter fun name _ => keepsName keep name⟩

variable {folder : Folder} {keep : String → Bool} {id : String}

theorem keepsName_draftOf (keep : String → Bool) (id : String) :
    keepsName keep (draftOf id) = true := by
  rw [keepsName, Bool.or_eq_true, bne_iff_ne]
  exact .inl (extension?_draftOf id)

theorem keepsName_fileOf (h : keep id = true) : keepsName keep (fileOf id) = true := by
  rw [keepsName, ownerOf_fileOf, h, Bool.or_true]

theorem get?_restrict (folder : Folder) {name : String} (h : keepsName keep name = true) :
    (folder.restrict keep).entries.get? name = folder.entries.get? name := by
  rw [restrict, KeyMap.get?_filter_key, if_pos h]

theorem allows_restrict (folder : Folder) (kind : FolderEntry → Bool) {name : String}
    (h : keepsName keep name = true) :
    (folder.restrict keep).allows kind name = folder.allows kind name := by
  rw [allows, allows, get?_restrict folder h]

theorem drafted_restrict (folder : Folder) (keep : String → Bool) (id text : String) :
    (folder.restrict keep).drafted id text = (folder.drafted id text).restrict keep := by
  rw [drafted, drafted, put, put, restrict, restrict,
    KeyMap.filter_key_insert _ (keepsName_draftOf keep id)]

theorem moveDraft_restrict (folder : Folder) (h : keep id = true) (text : String) :
    (folder.restrict keep).moveDraft id text = (folder.moveDraft id text).restrict keep := by
  rw [moveDraft, moveDraft, restrict, restrict, KeyMap.filter_key_insert _ (keepsName_fileOf h),
    KeyMap.filter_key_erase]

/-- To store a text that is kept may come before or after the others are left out. -/
theorem save_restrict (folder : Folder) (h : keep id = true) (text : String) :
    (folder.restrict keep).save id text =
      ((folder.save id text).1, (folder.save id text).2.restrict keep) := by
  have hdraft : (folder.restrict keep).allows FolderEntry.isWritable (draftOf id) =
      folder.allows FolderEntry.isWritable (draftOf id) :=
    allows_restrict folder _ (keepsName_draftOf keep id)
  have hfile : ((folder.drafted id text).restrict keep).allows FolderEntry.isReplaceable (fileOf id) =
      (folder.drafted id text).allows FolderEntry.isReplaceable (fileOf id) :=
    allows_restrict _ _ (keepsName_fileOf h)
  have hdrafted := drafted_restrict folder keep id text
  unfold drafted at hdrafted hfile
  simp only [save, hdraft, hdrafted, hfile]
  split
  · rfl
  · split
    · rfl
    · split
      · rfl
      · simp only [moveDraft_restrict _ h]

/-! ### As a store -/

theorem mem_players {e : String × FolderEntry} (h : e ∈ folder.players.entries) :
    FileName.extension? e.1 = some playerExtension :=
  beq_iff_eq.mp (List.mem_filter.mp h).2

theorem players_restrict (folder : Folder) (keep : String → Bool) :
    (folder.restrict keep).players.entries =
      folder.players.entries.filter fun e => keep (ownerOf e.1) := by
  show (folder.entries.entries.filter _).filter _ = (folder.entries.entries.filter _).filter _
  rw [List.filter_filter, List.filter_filter]
  refine List.filter_congr fun e _ => ?_
  simp only [keepsName, bne]
  cases FileName.extension? e.1 == some playerExtension <;> simp

theorem get?_players (hvalid : isValidId id = true) (folder : Folder) :
    folder.players.get? (fileOf id) = folder.entries.get? (fileOf id) := by
  rw [players, KeyMap.get?_filter_key, extension?_fileOf hvalid]
  rfl

/-- What is stored is the file of its player. -/
theorem players_moveDraft (hvalid : isValidId id = true) (folder : Folder) (text : String) :
    (folder.moveDraft id text).players = folder.players.insert (fileOf id) (.file text) := by
  have hkept : (FileName.extension? (fileOf id) == some playerExtension) = true := by
    rw [extension?_fileOf hvalid]
    rfl
  apply KeyMap.ext_get?
  intro name
  by_cases hname : name = fileOf id
  · rw [hname, get?_players hvalid, KeyMap.get?_insert_self]
    exact KeyMap.get?_insert_self _ _ _
  · rw [KeyMap.get?_insert_of_ne _ hname, players, players, KeyMap.get?_filter_key,
      KeyMap.get?_filter_key, moveDraft, KeyMap.get?_insert_of_ne _ hname]
    by_cases hdraft : name = draftOf id
    · rw [hdraft, beq_eq_false_iff_ne.mpr (extension?_draftOf id)]
      rfl
    · rw [KeyMap.get?_erase_of_ne _ hdraft]

/-- What is loaded is the text in the file of a player. -/
theorem mem_players_of_load {text : String} (h : folder.load id = .ok text) :
    isValidId id = true ∧ ∃ entry, (fileOf id, entry) ∈ folder.players.entries ∧
      read (fileOf id) entry = .ok text := by
  rw [load] at h
  split at h
  next => exact absurd h (by simp)
  next hvalid =>
    rw [Bool.not_eq_true', Bool.not_eq_false] at hvalid
    split at h
    next => exact absurd h (by simp)
    next =>
      split at h
      next => exact absurd h (by simp)
      next entry hentry =>
        refine ⟨hvalid, entry, KeyMap.mem_entries_iff.mpr ?_, h⟩
        rw [get?_players hvalid, hentry]

/-- The entries of a folder, under the ids whose files they are. -/
def filed (folder : Folder) : List (String × Except StoreError String) :=
  folder.players.entries.map fun e => (ownerOf e.1, read e.1 e.2)

instance : FilingStore Folder where
  entries := filed
  restrict := restrict
  nodup_keys := by
    intro folder
    have hfiles : (folder.players.entries.map (·.1)).Nodup := folder.players.nodup_keys
    rw [filed, List.map_map]
    refine List.Nodup.map_on ?_ (List.Nodup.of_map _ hfiles)
    intro e he other hother heq
    have hname : e.1 = other.1 := by
      rw [← fileOf_ownerOf (mem_players he), ← fileOf_ownerOf (mem_players hother)]
      exact congrArg fileOf heq
    exact List.inj_on_of_nodup_map hfiles he hother hname
  loadAll_eq := by
    intro folder listing h
    rw [filed, List.map_map]
    exact (Except.ok.inj h).symm
  mem_of_load := by
    intro folder id text h
    obtain ⟨-, entry, hmem, hread⟩ := mem_players_of_load h
    have hfiled := List.mem_map_of_mem (f := fun e => (ownerOf e.1, read e.1 e.2)) hmem
    rw [ownerOf_fileOf, hread] at hfiled
    exact hfiled
  entries_save := by
    intro folder id old text hload hsave
    change (folder.save id text).1 = .ok () at hsave
    show (folder.save id text).2.filed = _
    obtain ⟨hvalid, entry, hmem, -⟩ := mem_players_of_load hload
    rcases folder.save_cases id text with ⟨-, hok⟩ | ⟨error, -, herror | herror⟩
    · have hlisted : ((folder.drafted id text).players.get? (fileOf id)).isSome = true := by
        rw [players_drafted, KeyMap.mem_entries_iff.mp hmem, Option.isSome_some]
      rw [hok, filed, players_moveDraft hvalid, KeyMap.entries_insert_of_isSome hlisted,
        players_drafted, filed, List.map_map, List.map_map]
      refine List.map_congr_left fun e he => ?_
      by_cases heq : e.1 = fileOf id
      · simp [heq, ownerOf_fileOf, read]
      · have howner : ownerOf e.1 ≠ id := by
          rintro rfl
          exact heq (fileOf_ownerOf (mem_players he)).symm
        simp [heq, howner]
    · rw [herror] at hsave
      exact absurd hsave (by simp)
    · rw [herror] at hsave
      exact absurd hsave (by simp)
  entries_save_of_error := by
    intro folder id text error hsave
    change (folder.save id text).1 = .error error at hsave
    show (folder.save id text).2.filed = folder.filed
    rcases folder.save_cases id text with ⟨-, hok⟩ | ⟨error, -, herror | herror⟩
    · rw [hok] at hsave
      exact absurd hsave (by simp)
    · rw [herror]
    · rw [herror, filed, players_drafted, filed]
  entries_restrict := by
    intro folder keep
    rw [filed, players_restrict, filed, List.filter_map]
    rfl
  loadAll_restrict := by
    intro folder keep
    rw [filed, List.map_map]
    rfl
  load_restrict := by
    intro folder keep id h
    exact load_of_get?_eq (get?_restrict folder (keepsName_fileOf h))
  save_restrict := by
    intro folder keep id text h
    exact folder.save_restrict h text

end Folder

end IncrementalGame
