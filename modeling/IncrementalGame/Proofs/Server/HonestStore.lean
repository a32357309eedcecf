import Mathlib.Tactic.Common
import IncrementalGame.Server.Folder

/-!
# Stores give back what was stored

A store is honest if nothing is ever loaded from it but what was stored.  The stores here are more
than that, they are faithful: storing a text under an id changes nothing but what is loaded under
this id, and that to the text, and nothing at all if it fails; and an id that texts can be stored
under stays one.  Tables, folders and stores that are out of order for a while are faithful.
-/

namespace IncrementalGame

/-- A store that gives back nothing but what was stored. -/
class HonestStore (σ : Type) [PlayerStore σ] : Prop where
  /-- What is loaded after a text was stored is the text, or it could be loaded before. -/
  load_save : ∀ (store : σ) (id text other loaded : String),
    PlayerStore.load (PlayerStore.save store id text).2 other = .ok loaded →
      loaded = text ∧ (PlayerStore.save store id text).1 = .ok () ∨
        PlayerStore.load store other = .ok loaded

/-- Whether every text can be stored under an id. -/
def Storable {σ : Type} [PlayerStore σ] (store : σ) (id : String) : Prop :=
  ∀ text, (PlayerStore.save store id text).1 = .ok ()

/-- A store in which storing a text has no other effect. -/
class FaithfulStore (σ : Type) [PlayerStore σ] : Prop where
  /-- What was stored is loaded. -/
  load_save_self : ∀ (store : σ) (id text : String), (PlayerStore.save store id text).1 = .ok () →
    PlayerStore.load (PlayerStore.save store id text).2 id = .ok text
  /-- What is stored under other ids is left alone. -/
  load_save_of_ne : ∀ (store : σ) (id text : String) {other : String}, other ≠ id →
    PlayerStore.load (PlayerStore.save store id text).2 other = PlayerStore.load store other
  /-- What cannot be stored leaves everything alone. -/
  load_save_of_error : ∀ (store : σ) (id text : String) {error : StoreError} (other : String),
    (PlayerStore.save store id text).1 = .error error →
      PlayerStore.load (PlayerStore.save store id text).2 other = PlayerStore.load store other
  /-- An id that texts can be stored under stays one. -/
  storable_save : ∀ (store : σ) (id text : String) {other : String}, Storable store other →
    Storable (PlayerStore.save store id text).2 other

/-- A faithful store is honest. -/
instance (priority := low) {σ : Type} [PlayerStore σ] [FaithfulStore σ] : HonestStore σ where
  load_save := by
    intro store id text other loaded h
    cases hsave : (PlayerStore.save store id text).1 with
    | error error =>
      rw [FaithfulStore.load_save_of_error store id text other hsave] at h
      exact .inr h
    | ok _ =>
      by_cases heq : other = id
      · rw [heq, FaithfulStore.load_save_self store id text hsave] at h
        exact .inl ⟨(Except.ok.inj h).symm, rfl⟩
      · rw [FaithfulStore.load_save_of_ne store id text heq] at h
        exact .inr h

/-! ## Tables -/

/-- What is loaded from a table is what is listed in it. -/
theorem MemoryStore.get?_of_load {store : MemoryStore} {id text : String}
    (h : store.load id = .ok text) : store.texts.get? id = some text := by
  rw [load] at h
  split at h
  next found hfound => rw [hfound, Except.ok.inj h]
  next => exact absurd h (by simp)

theorem MemoryStore.load_of_get? {store : MemoryStore} {id text : String}
    (h : store.texts.get? id = some text) : store.load id = .ok text := by rw [load, h]

/-- A table takes an id for stored exactly if its text can be loaded. -/
theorem MemoryStore.contains_eq_isOk_load (store : MemoryStore) (id : String) :
    PlayerStore.contains store id = (PlayerStore.load store id).isOk := by
  show (store.texts.get? id).isSome = (store.load id).isOk
  rw [load]
  cases store.texts.get? id <;> rfl

instance : FaithfulStore MemoryStore where
  load_save_self := by
    intro store id text _
    show MemoryStore.load ⟨store.texts.insert id text⟩ id = .ok text
    rw [MemoryStore.load, KeyMap.get?_insert_self]
  load_save_of_ne := by
    intro store id text other hne
    show MemoryStore.load ⟨store.texts.insert id text⟩ other = MemoryStore.load store other
    rw [MemoryStore.load, MemoryStore.load, KeyMap.get?_insert_of_ne _ hne]
  load_save_of_error := by
    intro store id text error other h
    exact absurd h (by simp [PlayerStore.save])
  storable_save _ _ _ _ _ := fun _ => rfl

/-! ## Outages -/

namespace Unreliable

variable {σ : Type} [PlayerStore σ] {u : Unreliable σ}

theorem save_of_outage (h : u.savesFail = true) (id text : String) :
    PlayerStore.save u id text = (.error outage, u) := if_pos h

theorem save_of_order (h : ¬u.savesFail = true) (id text : String) :
    PlayerStore.save u id text = ((PlayerStore.save u.store id text).1,
      { u with store := (PlayerStore.save u.store id text).2 }) := if_neg h

/-- Nothing can be stored during an outage, and else what the store takes. -/
theorem storable_iff (id : String) : Storable u id ↔ ¬u.savesFail = true ∧ Storable u.store id := by
  by_cases hfail : u.savesFail = true
  · refine iff_of_false (fun h => ?_) fun h => h.1 hfail
    have htext := h ""
    rw [save_of_outage hfail] at htext
    exact absurd htext (by simp)
  · simp [Storable, save_of_order hfail, hfail]

instance [FaithfulStore σ] : FaithfulStore (Unreliable σ) where
  load_save_self := by
    intro u id text h
    by_cases hfail : u.savesFail = true
    · rw [save_of_outage hfail] at h
      exact absurd h (by simp)
    · rw [save_of_order hfail] at h ⊢
      exact FaithfulStore.load_save_self u.store id text h
  load_save_of_ne := by
    intro u id text other hne
    by_cases hfail : u.savesFail = true
    · rw [save_of_outage hfail]
    · rw [save_of_order hfail]
      exact FaithfulStore.load_save_of_ne u.store id text hne
  load_save_of_error := by
    intro u id text error other h
    by_cases hfail : u.savesFail = true
    · rw [save_of_outage hfail]
    · rw [save_of_order hfail] at h ⊢
      exact FaithfulStore.load_save_of_error u.store id text other h
  storable_save := by
    intro u id text other h
    obtain ⟨hfail, hstore⟩ := (storable_iff other).mp h
    rw [save_of_order hfail]
    exact (storable_iff other).mpr ⟨hfail, FaithfulStore.storable_save u.store id text hstore⟩

end Unreliable

/-! ## Folders -/

namespace Folder

variable {folder : Folder}

/-- No file of a player is a draft. -/
theorem fileOf_ne_draftOf (other id : String) : fileOf other ≠ draftOf id := by
  intro h
  have hlast := congrArg (fun s : String => s.toList.getLast?) h
  simp [fileOf, draftOf, playerExtension, String.toList_append] at hlast

/-- Each player has a file of its own. -/
theorem fileOf_ne_fileOf {other id : String} (h : other ≠ id) : fileOf other ≠ fileOf id := by
  intro heq
  have hlist := congrArg String.toList heq
  simp only [fileOf, String.toList_append, List.append_assoc] at hlist
  exact h (String.toList_inj.mp (List.append_cancel_right hlist))

/-- What is loaded depends on the file of the player only. -/
theorem load_of_get?_eq {written : Folder} {id : String}
    (h : written.entries.get? (fileOf id) = folder.entries.get? (fileOf id)) :
    written.load id = folder.load id := by
  rw [load, load, h]

/-! ### What can be written -/

section

variable {kind : FolderEntry → Bool} {name : String}

/-- Texts put anywhere are in nobody's way. -/
theorem allows_put (h : folder.allows kind name = true) (other : String) {text : String}
    (htext : kind (.file text) = true) :
    (folder.put other (.file text)).allows kind name = true := by
  unfold allows put at *
  by_cases heq : name = other
  · rw [Bool.and_eq_true] at h ⊢
    refine ⟨h.1, ?_⟩
    rw [heq, KeyMap.get?_insert_self]
    exact htext
  · rw [KeyMap.get?_insert_of_ne _ heq]
    exact h

theorem allows_erase (h : folder.allows kind name = true) (other : String) :
    (⟨folder.entries.erase other⟩ : Folder).allows kind name = true := by
  unfold allows at *
  by_cases heq : name = other
  · rw [Bool.and_eq_true] at h ⊢
    refine ⟨h.1, ?_⟩
    rw [heq, KeyMap.get?_erase_self]
    rfl
  · rw [KeyMap.get?_erase_of_ne _ heq]
    exact h

end

/-- A text can be stored if the draft can be written and moved to its place. -/
def Takes (folder : Folder) (id : String) : Prop :=
  isValidId id = true ∧ folder.allows FolderEntry.isWritable (draftOf id) = true ∧
    folder.allows FolderEntry.isReplaceable (fileOf id) = true

/-- The folder in which a draft was written. -/
abbrev drafted (folder : Folder) (id text : String) : Folder :=
  folder.put (draftOf id) (.file text)

theorem allows_drafted (kind : FolderEntry → Bool) (id text : String) :
    (folder.drafted id text).allows kind (fileOf id) = folder.allows kind (fileOf id) := by
  unfold allows drafted put
  rw [KeyMap.get?_insert_of_ne _ (fileOf_ne_draftOf id id)]

/-- A text that is stored is written and moved to its place; if it cannot be stored, then nothing
has changed but for a draft. -/
theorem save_cases (folder : Folder) (id text : String) :
    (folder.Takes id ∧ folder.save id text = (.ok (), (folder.drafted id text).moveDraft id text)) ∨
      ∃ error, ¬folder.Takes id ∧ (folder.save id text = (.error error, folder) ∨
        folder.save id text = (.error error, folder.drafted id text)) := by
  unfold save
  by_cases hvalid : isValidId id = true
  · by_cases hdraft : folder.allows FolderEntry.isWritable (draftOf id) = true
    · by_cases hfile : folder.allows FolderEntry.isReplaceable (fileOf id) = true
      · left
        simp only [hvalid, hdraft, allows_drafted, hfile, Bool.not_true, Bool.false_eq_true,
          if_false]
        exact ⟨⟨hvalid, hdraft, hfile⟩, trivial⟩
      · right
        refine ⟨.file (fileOf id), fun h => hfile h.2.2, .inr ?_⟩
        simp [hvalid, hdraft, allows_drafted, hfile]
    · exact .inr ⟨.file (draftOf id), fun h => hdraft h.2.1, .inl (by simp [hvalid, hdraft])⟩
  · exact .inr ⟨.invalidId id, fun h => hvalid h.1, .inl (by simp [hvalid])⟩

theorem storable_iff (id : String) : Storable folder id ↔ folder.Takes id := by
  constructor
  · intro h
    have htext : (folder.save id "").1 = .ok () := h ""
    rcases folder.save_cases id "" with ⟨htakes, _⟩ | ⟨error, _, hsave | hsave⟩
    · exact htakes
    · rw [hsave] at htext
      exact absurd htext (by simp)
    · rw [hsave] at htext
      exact absurd htext (by simp)
  · intro htakes text
    show (folder.save id text).1 = .ok ()
    rcases folder.save_cases id text with ⟨_, hsave⟩ | ⟨_, hnot, _⟩
    · rw [hsave]
    · exact absurd htakes hnot

/-- A text that was stored is in nobody's way. -/
theorem allows_save {kind : FolderEntry → Bool} {name : String}
    (h : folder.allows kind name = true) (id : String) {text : String}
    (htext : kind (.file text) = true) : (folder.save id text).2.allows kind name = true := by
  rcases folder.save_cases id text with ⟨_, hsave⟩ | ⟨error, _, hsave | hsave⟩
  · rw [hsave]
    exact allows_put (allows_erase (allows_put h _ htext) _) _ htext
  · rw [hsave]
    exact h
  · rw [hsave]
    exact allows_put h _ htext

/-! ### What is loaded -/

theorem load_drafted (folder : Folder) (id text other : String) :
    (folder.drafted id text).load other = folder.load other :=
  load_of_get?_eq (KeyMap.get?_insert_of_ne _ (fileOf_ne_draftOf other id) _)

/-- To move a draft to its place changes nothing else. -/
theorem load_moveDraft_of_ne {id text other : String} (h : other ≠ id) :
    (folder.moveDraft id text).load other = folder.load other :=
  load_of_get?_eq ((KeyMap.get?_insert_of_ne _ (fileOf_ne_fileOf h) _).trans
    (KeyMap.get?_erase_of_ne _ (fileOf_ne_draftOf other id)))

/-- A draft that was moved to its place is what is loaded. -/
theorem load_moveDraft_self {id text : String} (h : folder.Takes id) (before : Folder) :
    (before.moveDraft id text).load id = .ok text := by
  obtain ⟨hvalid, _, hfile⟩ := h
  have hshort : isTooLong (fileOf id) = false := by
    rw [allows, Bool.and_eq_true, Bool.not_eq_true'] at hfile
    exact hfile.1
  have hget : (before.moveDraft id text).entries.get? (fileOf id) = some (.file text) :=
    KeyMap.get?_insert_self _ _ _
  simp only [load, hvalid, hshort, hget, Bool.not_true, Bool.false_eq_true, if_false]
  rfl

instance : FaithfulStore Folder where
  load_save_self := by
    intro folder id text h
    show (folder.save id text).2.load id = .ok text
    change (folder.save id text).1 = .ok () at h
    rcases folder.save_cases id text with ⟨htakes, hsave⟩ | ⟨error, _, hsave | hsave⟩
    · rw [hsave]
      exact load_moveDraft_self htakes _
    · exact absurd h (by simp [hsave])
    · exact absurd h (by simp [hsave])
  load_save_of_ne := by
    intro folder id text other hne
    show (folder.save id text).2.load other = folder.load other
    rcases folder.save_cases id text with ⟨_, hsave⟩ | ⟨error, _, hsave | hsave⟩
    · rw [hsave]
      exact (load_moveDraft_of_ne hne).trans (folder.load_drafted id text other)
    · rw [hsave]
    · rw [hsave]
      exact folder.load_drafted id text other
  load_save_of_error := by
    intro folder id text error other h
    show (folder.save id text).2.load other = folder.load other
    change (folder.save id text).1 = .error error at h
    rcases folder.save_cases id text with ⟨_, hsave⟩ | ⟨error, _, hsave | hsave⟩
    · exact absurd h (by simp [hsave])
    · rw [hsave]
    · rw [hsave]
      exact folder.load_drafted id text other
  storable_save := by
    intro folder id text other h
    obtain ⟨hvalid, hdraft, hfile⟩ := (storable_iff other).mp h
    exact (storable_iff other).mpr
      ⟨hvalid, allows_save hdraft id rfl, allows_save hfile id rfl⟩

end Folder

end IncrementalGame
