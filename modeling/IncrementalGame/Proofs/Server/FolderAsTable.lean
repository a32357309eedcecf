import IncrementalGame.Proofs.Server.FilingStore

/-!
# A folder of players answers as a table

A folder keeps the text of a player under a file name, between drafts, and lists files by their
extension.  None of this can be seen: whatever is asked of it and of a table, both give the same
answers, as long as the directory can have files of these names.  Only the order of a listing may
differ, for names of files are not in the order of ids: `a-b.json` stands before `a.json`.

The two differ in one thing.  A table takes every id, and a folder refuses the ids that make no file
name, without any change.  So the answers of the table are taken with these ids refused, and the
texts under them left out of the listing (`StoreCall.answersOfTable`).  A name that is too long for
the directory is not refused as such, but the file cannot be read.

What a folder and a table have in common is that the texts in the table under ids that make file
names are the files of these ids, and that there is nothing else in the folder (`Mirrors`).  Files
and drafts have different names, and so have the files of different ids, so each call keeps this.
-/

namespace IncrementalGame

open Folder (isValidId isTooLong fileOf draftOf)

/-! ## Calls -/

/-- What a store may be asked. -/
inductive StoreCall where
  /-- To store a text under an id. -/
  | save (id text : String)
  /-- For the text under an id. -/
  | load (id : String)
  /-- Whether something is stored under an id. -/
  | contains (id : String)
  /-- For all texts. -/
  | loadAll
  deriving DecidableEq

/-- What a store may answer. -/
inductive StoreAnswer where
  | saved (result : Except StoreError Unit)
  | loaded (result : Except StoreError String)
  | known (found : Bool)
  | listed (result : Except StoreError (List (Except StoreError String)))

/-- Whether two answers are the same, the order of a listing apart. -/
def StoreAnswer.Alike : StoreAnswer → StoreAnswer → Prop
  | .listed (.ok texts), .listed (.ok others) => texts.Perm others
  | answer, other => answer = other

namespace StoreCall

section

variable {σ : Type} [PlayerStore σ]

/-- What a store answers to a call, and the store behind it. -/
def serve : StoreCall → σ → StoreAnswer × σ
  | save id text, store =>
    let (result, store) := PlayerStore.save store id text
    (.saved result, store)
  | load id, store => (.loaded (PlayerStore.load store id), store)
  | contains id, store => (.known (PlayerStore.contains store id), store)
  | loadAll, store => (.listed (PlayerStore.loadAll store), store)

/-- What a store answers to calls one after the other, and the store behind them. -/
def serveAll : List StoreCall → σ → List StoreAnswer × σ
  | [], store => ([], store)
  | call :: rest, store =>
    let (answer, store) := call.serve store
    let (answers, store) := serveAll rest store
    (answer :: answers, store)

end

/-- Whether the id that a call is about, if it is about one, makes a file name. -/
def isValid : StoreCall → Bool
  | save id _ | load id | contains id => isValidId id
  | loadAll => true

/-- Whether the id that a call is about, if it is about one, makes a name that the directory can
have. -/
def isNamed : StoreCall → Bool
  | save id _ | load id | contains id => isValidId id && !isTooLong (fileOf id)
  | loadAll => true

/-- Whether the directory can have the file that a call is about to write. -/
def Fits : StoreCall → Prop
  | save id _ => isValidId id = true → isTooLong (fileOf id) = false
  | load _ | contains _ | loadAll => True

instance : DecidablePred Fits
  | save id _ => inferInstanceAs (Decidable (isValidId id = true → isTooLong (fileOf id) = false))
  | load _ | contains _ | loadAll => .isTrue trivial

/-- What a table answers to a call, but that ids that make no file name are refused, and what is
stored under them is not listed, and that no file can be read whose name is too long. -/
def answerOfTable (table : MemoryStore) : StoreCall → StoreAnswer
  | save id text =>
    .saved (if isValidId id then (PlayerStore.save table id text).1 else .error (.invalidId id))
  | load id =>
    .loaded (if !isValidId id then .error (.invalidId id)
      else if isTooLong (fileOf id) then .error (.file (fileOf id))
      else PlayerStore.load table id)
  | contains id => .known (isValidId id && PlayerStore.contains table id)
  | loadAll => .listed (PlayerStore.loadAll (FilingStore.restrict table isValidId))

/-- What a table so answers to calls one after the other. -/
def answersOfTable : List StoreCall → MemoryStore → List StoreAnswer
  | [], _ => []
  | call :: rest, table => call.answerOfTable table :: answersOfTable rest (call.serve table).2

end StoreCall

/-! ## What a folder and a table have in common -/

/-- Whether a folder holds just the texts that a table has under ids that make file names, each in
the file of its id. -/
structure Mirrors (folder : Folder) (table : MemoryStore) : Prop where
  /-- The file of an id has the text that the table has under it. -/
  file : ∀ id, isValidId id = true →
    folder.entries.get? (fileOf id) = (table.texts.get? id).map FolderEntry.file
  /-- There is nothing but files of ids. -/
  named : ∀ name entry, folder.entries.get? name = some entry →
    ∃ id, isValidId id = true ∧ name = fileOf id
  /-- No name is too long. -/
  short : ∀ id, isTooLong (fileOf id) = true → folder.entries.get? (fileOf id) = none

namespace Mirrors

variable {folder : Folder} {table : MemoryStore} {id : String}

theorem empty : Mirrors Folder.empty MemoryStore.empty where
  file _ _ := rfl
  named _ _ h := absurd h (by simp [Folder.empty])
  short _ _ := rfl

/-- No draft was left behind. -/
theorem draft (h : Mirrors folder table) (id : String) :
    folder.entries.get? (draftOf id) = none := by
  cases hentry : folder.entries.get? (draftOf id) with
  | none => rfl
  | some entry =>
    obtain ⟨other, -, hname⟩ := h.named _ entry hentry
    exact absurd hname.symm (Folder.fileOf_ne_draftOf other id)

/-- Where the file may stand, the draft may stand too, for its name is shorter. -/
theorem takes (h : Mirrors folder table) (hvalid : isValidId id = true)
    (hfits : isTooLong (fileOf id) = false) : folder.Takes id := by
  have hdraft : isTooLong (draftOf id) = false := by
    rw [isTooLong, decide_eq_false_iff_not] at hfits ⊢
    have hfile : (fileOf id).utf8ByteSize = id.utf8ByteSize + 5 := by
      rw [fileOf, String.utf8ByteSize_append, String.utf8ByteSize_append, Nat.add_assoc]
      rfl
    have htmp : (draftOf id).utf8ByteSize = id.utf8ByteSize + 4 := by
      rw [draftOf, String.utf8ByteSize_append]
      rfl
    omega
  refine ⟨hvalid, ?_, ?_⟩
  · rw [Folder.allows, hdraft, h.draft]
    rfl
  · rw [Folder.allows, hfits, h.file id hvalid]
    cases table.texts.get? id <;> rfl

/-! ### Reading -/

/-- The same text is loaded under an id that makes a file name, unless the name is too long. -/
theorem load_eq (h : Mirrors folder table) (hvalid : isValidId id = true) :
    folder.load id =
      if isTooLong (fileOf id) then .error (.file (fileOf id)) else table.load id := by
  rw [Folder.load, hvalid, h.file id hvalid, MemoryStore.load]
  cases isTooLong (fileOf id) with
  | true => rfl
  | false => cases table.texts.get? id <;> rfl

/-- The same ids are known, for nothing is stored under a name that is too long. -/
theorem contains_eq (h : Mirrors folder table) (hvalid : isValidId id = true) :
    (folder.load id).isOk = PlayerStore.contains table id := by
  rw [MemoryStore.contains_eq_isOk_load, h.load_eq hvalid]
  cases hlong : isTooLong (fileOf id) with
  | false => rfl
  | true =>
    have hnone := h.short id hlong
    rw [h.file id hvalid, Option.map_eq_none_iff] at hnone
    show false = (table.load id).isOk
    rw [MemoryStore.load, hnone]
    rfl

/-- **The same texts are listed**, each under its id. -/
theorem filed_perm (h : Mirrors folder table) :
    folder.filed.Perm (FilingStore.entries (FilingStore.restrict table isValidId)) := by
  have hfolder : folder.filed.Nodup :=
    List.Nodup.of_map _ (FilingStore.nodup_keys (σ := Folder) folder)
  have htable : (FilingStore.entries (FilingStore.restrict table isValidId)).Nodup :=
    List.Nodup.of_map _ (FilingStore.nodup_keys _)
  refine (List.perm_ext_iff_of_nodup hfolder htable).mpr ?_
  rintro ⟨id, result⟩
  rw [FilingStore.entries_restrict, List.mem_filter]
  constructor
  · intro hmem
    obtain ⟨⟨name, entry⟩, hentry, heq⟩ := List.mem_map.mp hmem
    obtain ⟨howner, hread⟩ := Prod.mk.inj heq
    have hlisted : folder.entries.get? name = some entry :=
      KeyMap.mem_entries_iff.mp (List.mem_of_mem_filter hentry)
    obtain ⟨other, hvalid, rfl⟩ := h.named name entry hlisted
    obtain rfl : other = id := by rw [← howner, Folder.ownerOf_fileOf]
    rw [h.file other hvalid] at hlisted
    obtain ⟨text, htext, rfl⟩ := Option.map_eq_some_iff.mp hlisted
    rw [← hread]
    exact ⟨List.mem_map.mpr ⟨(other, text), KeyMap.mem_entries_iff.mpr htext, rfl⟩, hvalid⟩
  · rintro ⟨hmem, hvalid⟩
    obtain ⟨⟨other, text⟩, hentry, heq⟩ := List.mem_map.mp hmem
    obtain ⟨rfl, rfl⟩ := Prod.mk.inj heq
    have hlisted : folder.players.get? (fileOf other) = some (.file text) := by
      rw [Folder.get?_players hvalid, h.file other hvalid, KeyMap.mem_entries_iff.mp hentry]
      rfl
    refine List.mem_map.mpr ⟨(fileOf other, .file text), KeyMap.mem_entries_iff.mpr hlisted, ?_⟩
    rw [Folder.ownerOf_fileOf]
    rfl

/-! ### Writing -/

/-- A text that is stored in both is its file. -/
theorem moveDraft (h : Mirrors folder table) (hvalid : isValidId id = true)
    (hfits : isTooLong (fileOf id) = false) (text : String) :
    Mirrors ((folder.drafted id text).moveDraft id text) (table.save id text) where
  file other hother := by
    by_cases heq : other = id
    · subst heq
      rw [Folder.moveDraft, MemoryStore.save, KeyMap.get?_insert_self, KeyMap.get?_insert_self]
      rfl
    · rw [Folder.moveDraft, MemoryStore.save, KeyMap.get?_insert_of_ne _ heq,
        KeyMap.get?_insert_of_ne _ (Folder.fileOf_ne_fileOf heq),
        KeyMap.get?_erase_of_ne _ (Folder.fileOf_ne_draftOf other id), Folder.drafted, Folder.put,
        KeyMap.get?_insert_of_ne _ (Folder.fileOf_ne_draftOf other id)]
      exact h.file other hother
  named name entry hentry := by
    by_cases hname : name = fileOf id
    · exact ⟨id, hvalid, hname⟩
    · -- the draft has been moved away, and all else is as it was
      by_cases hdraft : name = draftOf id
      · rw [Folder.moveDraft, KeyMap.get?_insert_of_ne _ hname, hdraft,
          KeyMap.get?_erase_self] at hentry
        exact absurd hentry (by simp)
      · rw [Folder.moveDraft, KeyMap.get?_insert_of_ne _ hname, KeyMap.get?_erase_of_ne _ hdraft,
          Folder.drafted, Folder.put, KeyMap.get?_insert_of_ne _ hdraft] at hentry
        exact h.named name entry hentry
  short other hlong := by
    have hne : other ≠ id := by
      rintro rfl
      exact absurd (hlong.symm.trans hfits) (by decide)
    rw [Folder.moveDraft, KeyMap.get?_insert_of_ne _ (Folder.fileOf_ne_fileOf hne),
      KeyMap.get?_erase_of_ne _ (Folder.fileOf_ne_draftOf other id), Folder.drafted, Folder.put,
      KeyMap.get?_insert_of_ne _ (Folder.fileOf_ne_draftOf other id)]
    exact h.short other hlong

/-- What a table stores under an id that makes no file name does not matter. -/
theorem save_of_not_valid (h : Mirrors folder table) (hvalid : isValidId id = false)
    (text : String) : Mirrors folder (table.save id text) where
  file other hother := by
    have hne : other ≠ id := by
      rintro rfl
      exact absurd (hother.symm.trans hvalid) (by decide)
    rw [MemoryStore.save, KeyMap.get?_insert_of_ne _ hne]
    exact h.file other hother
  named := h.named
  short := h.short

end Mirrors

/-! ## One call after the other -/

namespace StoreCall

variable {folder : Folder} {table : MemoryStore} {call : StoreCall}

/-- A call about an id that makes no file name is refused, and changes nothing. -/
theorem serve_of_not_valid (h : call.isValid = false) (folder : Folder) (table : MemoryStore) :
    call.serve folder = (call.answerOfTable table, folder) := by
  cases call with
  | save id text =>
    have hvalid : isValidId id = false := h
    have hsave : folder.save id text = (.error (.invalidId id), folder) := by
      rw [Folder.save, hvalid]
      rfl
    show (StoreAnswer.saved (folder.save id text).1, (folder.save id text).2) = _
    rw [hsave, answerOfTable, hvalid]
    rfl
  | load id =>
    have hvalid : isValidId id = false := h
    show (StoreAnswer.loaded (folder.load id), folder) = _
    rw [Folder.load, answerOfTable, hvalid]
    rfl
  | contains id =>
    have hvalid : isValidId id = false := h
    show (StoreAnswer.known (folder.load id).isOk, folder) = _
    rw [Folder.load, answerOfTable, hvalid]
    rfl
  | loadAll => exact absurd h (by simp [isValid])

/-- Any other call is answered alike, and leaves the same texts behind. -/
theorem serve_of_valid (hmirrors : Mirrors folder table) (hvalid : call.isValid = true)
    (hfits : call.Fits) :
    (call.serve folder).1.Alike (call.answerOfTable table) ∧
      Mirrors (call.serve folder).2 (call.serve table).2 := by
  cases call with
  | save id text =>
    have hid : isValidId id = true := hvalid
    have htakes := hmirrors.takes hid (hfits hid)
    have hsave : folder.save id text = (.ok (), (folder.drafted id text).moveDraft id text) := by
      rcases folder.save_cases id text with ⟨-, hok⟩ | ⟨error, hnot, -⟩
      · exact hok
      · exact absurd htakes hnot
    show StoreAnswer.Alike (.saved (folder.save id text).1) _ ∧ Mirrors (folder.save id text).2 _
    rw [hsave, answerOfTable, if_pos hid]
    exact ⟨rfl, hmirrors.moveDraft hid (hfits hid) text⟩
  | load id =>
    have hid : isValidId id = true := hvalid
    refine ⟨?_, hmirrors⟩
    show StoreAnswer.loaded (folder.load id) = _
    rw [answerOfTable, hid, hmirrors.load_eq hid]
    rfl
  | contains id =>
    have hid : isValidId id = true := hvalid
    refine ⟨?_, hmirrors⟩
    show StoreAnswer.known (folder.load id).isOk = _
    rw [answerOfTable, hid, Bool.true_and, hmirrors.contains_eq hid]
  | loadAll =>
    refine ⟨?_, hmirrors⟩
    have hlist : PlayerStore.loadAll (FilingStore.restrict table isValidId) =
        .ok ((FilingStore.restrict table isValidId).texts.entries.map fun e => .ok e.2) := rfl
    have hperm := hmirrors.filed_perm.map (·.2)
    rw [Folder.filed, List.map_map, ← FilingStore.loadAll_eq hlist] at hperm
    exact hperm

/-- **A call is answered alike**, and leaves the same texts behind. -/
theorem serve_alike (hmirrors : Mirrors folder table) (hfits : call.Fits) :
    (call.serve folder).1.Alike (call.answerOfTable table) ∧
      Mirrors (call.serve folder).2 (call.serve table).2 := by
  cases hvalid : call.isValid with
  | true => exact serve_of_valid hmirrors hvalid hfits
  | false =>
    rw [serve_of_not_valid hvalid folder table]
    cases call with
    | save id text => exact ⟨rfl, hmirrors.save_of_not_valid hvalid text⟩
    | load id | contains id => exact ⟨rfl, hmirrors⟩
    | loadAll => exact absurd hvalid (by simp [isValid])

theorem serveAll_alike {calls : List StoreCall} (hmirrors : Mirrors folder table)
    (hfits : ∀ call ∈ calls, call.Fits) :
    List.Forall₂ StoreAnswer.Alike (serveAll calls folder).1 (answersOfTable calls table) := by
  induction calls generalizing folder table with
  | nil => exact .nil
  | cons call rest ih =>
    obtain ⟨hcall, hrest⟩ := List.forall_mem_cons.mp hfits
    obtain ⟨halike, hmirrors⟩ := serve_alike hmirrors hcall
    exact .cons halike (ih hmirrors hrest)

/-- Where all ids make names of files, the answers of a table are taken as they are. -/
theorem answersOfTable_of_named {calls : List StoreCall}
    (hnamed : ∀ call ∈ calls, call.isNamed = true)
    (htable : ∀ id text, table.texts.get? id = some text → isValidId id = true) :
    answersOfTable calls table = (serveAll calls table).1 := by
  induction calls generalizing table with
  | nil => rfl
  | cons call rest ih =>
    obtain ⟨hcall, hrest⟩ := List.forall_mem_cons.mp hnamed
    rw [answersOfTable, serveAll]
    cases call with
    | save id text =>
      have hid : isValidId id = true := (Bool.and_eq_true_iff.mp hcall).1
      have hsaved : ∀ other found, (table.save id text).texts.get? other = some found →
          isValidId other = true := by
        intro other found hfound
        by_cases heq : other = id
        · rw [heq]
          exact hid
        · rw [MemoryStore.save, KeyMap.get?_insert_of_ne _ heq] at hfound
          exact htable other found hfound
      rw [answerOfTable, if_pos hid]
      exact congrArg _ (ih hrest hsaved)
    | load id =>
      obtain ⟨hid, hshort⟩ := Bool.and_eq_true_iff.mp hcall
      rw [Bool.not_eq_true'] at hshort
      rw [answerOfTable, hid, hshort]
      exact congrArg _ (ih hrest htable)
    | contains id =>
      have hid : isValidId id = true := (Bool.and_eq_true_iff.mp hcall).1
      rw [answerOfTable, hid, Bool.true_and]
      exact congrArg _ (ih hrest htable)
    | loadAll =>
      have hall : FilingStore.restrict table isValidId = table := by
        show (⟨table.texts.filter fun id _ => isValidId id⟩ : MemoryStore) = table
        refine congrArg MemoryStore.mk (KeyMap.ext_get? fun id => ?_)
        rw [KeyMap.get?_filter_key]
        split
        next => rfl
        next hid =>
          cases hfound : table.texts.get? id with
          | none => rfl
          | some text => exact absurd (htable id text hfound) hid
      rw [answerOfTable, hall]
      exact congrArg _ (ih hrest htable)

/-- **A folder answers as a table.**  Whatever is asked of a folder and of a table, both empty at
first, as long as the directory can have the files that are to be written: each answer is that of the
table, the order of a listing apart, but that ids that make no file name are refused, without any
change, and what the table has under them is not listed, and that a file cannot be read whose name
is too long.  If all ids make names of files, then these are the answers of the table.  And no draft
is listed, whatever it holds. -/
theorem folder_answers_as_table (calls : List StoreCall) (hfits : ∀ call ∈ calls, call.Fits) :
    let folder := (serveAll calls Folder.empty).2
    List.Forall₂ StoreAnswer.Alike (serveAll calls Folder.empty).1
        (answersOfTable calls MemoryStore.empty) ∧
      ((∀ call ∈ calls, call.isNamed = true) →
        answersOfTable calls MemoryStore.empty = (serveAll calls MemoryStore.empty).1) ∧
      (∀ call : StoreCall, call.isValid = false → (call.serve folder).2 = folder) ∧
      ∀ id entry, (folder.put (draftOf id) entry).loadAll = folder.loadAll := by
  intro folder
  refine ⟨serveAll_alike .empty hfits, fun hnamed => ?_, fun call hvalid => ?_, fun id entry => ?_⟩
  · exact answersOfTable_of_named hnamed fun id text h => absurd h (by simp [MemoryStore.empty])
  · rw [serve_of_not_valid hvalid folder MemoryStore.empty]
  · rw [Folder.loadAll_eq, Folder.loadAll_eq, Folder.players_put_draft]

/-- Two players whose files are not in the order of their ids, one of them stored twice, and three
ids that make no file name. -/
theorem folder_answers_as_table_of_registry :
    let calls : List StoreCall :=
      [.save "a" "1", .save "a-b" "2", .save "../a" "3", .loadAll, .save "a" "4", .load "a",
        .contains "a-b", .load "", .contains "é", .loadAll]
    (∀ call ∈ calls, call.Fits) ∧
      List.Forall₂ StoreAnswer.Alike (serveAll calls Folder.empty).1
        (answersOfTable calls MemoryStore.empty) := by
  intro calls
  have hfits : ∀ call ∈ calls, call.Fits := by decide
  exact ⟨hfits, (folder_answers_as_table calls hfits).1⟩

end StoreCall

end IncrementalGame
