import IncrementalGame.Proofs.Server.Agreement
import IncrementalGame.Proofs.Server.OwnEntry

/-!
# Who is created

A player is created unless there is one.  A store that knows no better takes an id for stored just if
its text can be loaded (`KnowsByLoading`), so a text that is there but cannot be loaded does not
stand in the way of a creation.  It is replaced just if the store lets a text be put in its place
(`Exposed`); in all other cases the creation is refused and nothing that is stored has changed
(`created_iff_exposed`).

In a folder a file is exposed just if it is closed to reading (`Folder.exposed_iff`): it cannot be
read, but a draft can be moved to its place.  So a player whose file is closed to reading is created
anew in place of the old one (`exists_created_over_locked`).  What is no file cannot be read either,
but no draft can be moved there, so it stays.
-/

namespace IncrementalGame

/-- A store that takes an id for stored exactly if its text can be loaded. -/
class KnowsByLoading (σ : Type) [PlayerStore σ] : Prop where
  /-- What is taken for stored is what can be loaded. -/
  contains_eq : ∀ (store : σ) (id : String),
    PlayerStore.contains store id = (PlayerStore.load store id).isOk

instance : KnowsByLoading MemoryStore := ⟨MemoryStore.contains_eq_isOk_load⟩

instance : KnowsByLoading Folder := ⟨fun _ _ => rfl⟩

instance {σ : Type} [PlayerStore σ] [KnowsByLoading σ] : KnowsByLoading (Unreliable σ) :=
  ⟨fun u id => KnowsByLoading.contains_eq u.store id⟩

/-- Whether nothing can be loaded under an id, and yet a text can be stored there. -/
def Exposed {σ : Type} [PlayerStore σ] (store : σ) (id text : String) : Prop :=
  (PlayerStore.load store id).isOk = false ∧ (PlayerStore.save store id text).1 = .ok ()

namespace Server

variable {σ : Type} [PlayerStore σ]

/-- The text of a new player. -/
def newText (s : Server σ) (id : String) (now : UInt64) : String :=
  Snapshot.encode (.start id s.economy.catalog now)

/-! ## The three ends of a creation -/

theorem save_new_ok {s : Server σ} {id : String} {now : UInt64}
    (h : (PlayerStore.save s.store id (s.newText id now)).1 = .ok ()) :
    save (.start id s.economy.catalog now) s = (.ok (), s.given id (s.newText id now)) := by
  have hsave := save_of_ok (p := .start id s.economy.catalog now) (s := s)
    (by rw [id_start]; exact h)
  rwa [id_start] at hsave

theorem save_new_error {s : Server σ} {id : String} {now : UInt64} {error : StoreError}
    (h : (PlayerStore.save s.store id (s.newText id now)).1 = .error error) :
    save (.start id s.economy.catalog now) s =
      (.error (.store error), s.given id (s.newText id now)) := by
  have hsave := save_of_error (p := .start id s.economy.catalog now) (s := s)
    (by rw [id_start]; exact h)
  rwa [id_start] at hsave

section

variable [KnowsByLoading σ] (s : Server σ) (id : String) (now : UInt64)

/-- Who can be loaded is not created again; who cannot be loaded is created just if the store takes
the text of the new player. -/
theorem create_cases :
    ((PlayerStore.load s.store id).isOk = true ∧
        create id now s = (.error (.playerExists id), s)) ∨
      (∃ error, (PlayerStore.save s.store id (s.newText id now)).1 = .error error ∧
        (PlayerStore.load s.store id).isOk = false ∧
        create id now s = (.error (.store error), s.given id (s.newText id now))) ∨
      (Exposed s.store id (s.newText id now) ∧
        create id now s =
          (.ok (.start id s.economy.catalog now), s.given id (s.newText id now))) := by
  have hknown := KnowsByLoading.contains_eq s.store id
  cases hload : (PlayerStore.load s.store id).isOk with
  | true => exact .inl ⟨rfl, create_of_known (hknown.trans hload) now⟩
  | false =>
    have hunknown : ¬PlayerStore.contains s.store id = true := by
      rw [hknown, hload]
      exact Bool.false_ne_true
    right
    rw [create_of_unknown hunknown]
    cases hsave : (PlayerStore.save s.store id (s.newText id now)).1 with
    | error error =>
      exact .inl ⟨error, rfl, rfl, Fallible.bind_error _ (save_new_error hsave)⟩
    | ok _ =>
      rw [Fallible.bind_ok _ (save_new_ok hsave)]
      exact .inr ⟨⟨hload, hsave⟩, rfl⟩

end

/-- **A creation replaces what is exposed, and nothing else.**  It succeeds just if nothing can be
loaded under the id and the new player can be stored there; then that is what is loaded there.
Otherwise it is refused, and what is loaded under the id is as it was; a player who can be loaded is
told of, without any change.  What is stored under other ids never changes. -/
theorem created_iff_exposed [KnowsByLoading σ] [FaithfulStore σ] (s : Server σ) (id : String)
    (now : UInt64) :
    let result := (create id now s).1
    let store := (create id now s).2.store
    (result.isOk = true ↔ Exposed s.store id (s.newText id now)) ∧
      (result.isOk = true → result = .ok (.start id s.economy.catalog now) ∧
        PlayerStore.load store id = .ok (s.newText id now)) ∧
      (result.isOk = false → PlayerStore.load store id = PlayerStore.load s.store id) ∧
      ((PlayerStore.load s.store id).isOk = true →
        create id now s = (.error (.playerExists id), s)) ∧
      ∀ other, other ≠ id → PlayerStore.load store other = PlayerStore.load s.store other := by
  rcases s.create_cases id now with
    ⟨hload, hcreate⟩ | ⟨error, hsave, hload, hcreate⟩ | ⟨hexposed, hcreate⟩
  · rw [hcreate]
    refine ⟨iff_of_false Bool.false_ne_true fun h => ?_, fun h => absurd h Bool.false_ne_true,
      fun _ => rfl, fun _ => rfl, fun _ _ => rfl⟩
    exact absurd (hload.symm.trans h.1) (by decide)
  · rw [hcreate]
    refine ⟨iff_of_false Bool.false_ne_true fun h => ?_, fun h => absurd h Bool.false_ne_true,
      fun _ => FaithfulStore.load_save_of_error _ _ _ _ hsave,
      fun h => absurd (h.symm.trans hload) (by decide),
      fun other hother => FaithfulStore.load_save_of_ne _ _ _ hother⟩
    exact absurd (hsave.symm.trans h.2) (by simp)
  · rw [hcreate]
    exact ⟨iff_of_true rfl hexposed,
      fun _ => ⟨rfl, FaithfulStore.load_save_self _ _ _ hexposed.2⟩,
      fun h => absurd h.symm Bool.false_ne_true,
      fun h => absurd (h.symm.trans hexposed.1) (by decide),
      fun other hother => FaithfulStore.load_save_of_ne _ _ _ hother⟩

end Server

/-! ## Folders -/

namespace Folder

variable {folder : Folder} {id : String}

/-- A text is stored just if the draft can be written and moved to its place. -/
theorem save_eq_ok_iff (text : String) : (folder.save id text).1 = .ok () ↔ folder.Takes id := by
  rcases folder.save_cases id text with ⟨htakes, hok⟩ | ⟨error, hnot, hrefused | hrefused⟩
  · exact iff_of_true (congrArg Prod.fst hok) htakes
  · exact iff_of_false (by simp [hrefused]) hnot
  · exact iff_of_false (by simp [hrefused]) hnot

/-- What can be loaded where a draft can be moved: the text of a file that is there and not closed to
reading. -/
theorem isOk_load_eq_false_iff (h : folder.Takes id) :
    (folder.load id).isOk = false ↔
      ∀ entry, folder.entries.get? (fileOf id) = some entry → ∃ text, entry = .locked text false := by
  obtain ⟨hvalid, -, hreplaceable⟩ := h
  rw [allows, Bool.and_eq_true, Bool.not_eq_true'] at hreplaceable
  obtain ⟨hshort, hkind⟩ := hreplaceable
  rw [load, hvalid, hshort]
  cases hentry : folder.entries.get? (fileOf id) with
  | none => exact iff_of_true rfl fun _ h => absurd h (by simp)
  | some entry =>
    rw [hentry, Option.all_some] at hkind
    cases entry with
    | file text => exact iff_of_false Bool.false_ne_true.symm fun h => by simpa using h _ rfl
    | locked text readable =>
      cases readable with
      | true => exact iff_of_false Bool.false_ne_true.symm fun h => by simpa using h _ rfl
      | false => exact iff_of_true rfl fun _ h => ⟨text, (Option.some.inj h).symm⟩
    | other => exact absurd hkind (by decide)

/-- **In a folder only what is closed to reading is exposed**: an id is exposed just if its text can
be stored, and there is no file of it yet, or one that is closed to reading. -/
theorem exposed_iff (folder : Folder) (id text : String) :
    Exposed folder id text ↔ folder.Takes id ∧
      ∀ entry, folder.entries.get? (fileOf id) = some entry → ∃ old, entry = .locked old false := by
  show (folder.load id).isOk = false ∧ (folder.save id text).1 = .ok () ↔ _
  rw [save_eq_ok_iff, and_comm]
  exact and_congr_right isOk_load_eq_false_iff

end Folder

namespace Server

/-! ### A file that is closed to reading -/

/-- A server over a folder that has one entry for `ann`. -/
def house (entry : FolderEntry) : Server Folder :=
  ofEconomy stallEconomy (Folder.empty.put "ann.json" entry) 0

/-- The file of Ann is there, but closed to reading. -/
def attic : Server Folder := house (.locked buyerText false)

/-- There is another directory in place of the file of Ann. -/
def cellar : Server Folder := house .other

theorem exposed_attic (text : String) : Exposed attic.store "ann" text := by
  refine (Folder.exposed_iff _ _ _).mpr ⟨⟨by decide, by decide, by decide⟩, fun entry h => ?_⟩
  have hentry : attic.store.entries.get? (Folder.fileOf "ann") = some (.locked buyerText false) := by
    decide
  exact ⟨buyerText, (Option.some.inj (hentry.symm.trans h)).symm⟩

theorem not_exposed_cellar (text : String) : ¬Exposed cellar.store "ann" text := by
  intro h
  obtain ⟨⟨-, -, hreplaceable⟩, -⟩ := (Folder.exposed_iff _ _ _).mp h
  exact absurd hreplaceable (by decide)

/-- The closed file of Ann is replaced; the directory that is in place of her file is not. -/
theorem created_iff_exposed_of_attic :
    (create "ann" 0 attic).1 = .ok (.start "ann" stallEconomy.catalog 0) ∧
      PlayerStore.load (create "ann" 0 attic).2.store "ann" = .ok (attic.newText "ann" 0) ∧
      (create "ann" 0 cellar).1.isOk = false ∧
      PlayerStore.load (create "ann" 0 cellar).2.store "ann" = .error (.file "ann.json") := by
  obtain ⟨hiff, hmade, -⟩ := created_iff_exposed attic "ann" 0
  obtain ⟨hiff', -, hkept, -⟩ := created_iff_exposed cellar "ann" 0
  have hunread : PlayerStore.load cellar.store "ann" = .error (.file "ann.json") := rfl
  have hrefused : (create "ann" 0 cellar).1.isOk = false := by
    rw [← Bool.not_eq_true, hiff']
    exact not_exposed_cellar _
  obtain ⟨hresult, hload⟩ := hmade (hiff.mpr (exposed_attic _))
  exact ⟨hresult, hload, hrefused, (hkept hrefused).trans hunread⟩

/-- **A player may be created in place of one who is stored.**  The file of Ann has her text but is
closed to reading; her creation succeeds, and the file then has the text of a new player, without
her gold. -/
theorem exists_created_over_locked :
    attic.store.entries.get? (Folder.fileOf "ann") = some (.locked buyerText false) ∧
      Snapshot.decode buyerText = some (buyer "ann") ∧
      PlayerStore.load attic.store "ann" = .error (.file "ann.json") ∧
      PlayerStore.contains attic.store "ann" = false ∧
      (create "ann" 0 attic).1.isOk = true ∧
      (create "ann" 0 attic).2.store.entries.get? (Folder.fileOf "ann") =
        some (.file (Snapshot.encode (.start "ann" stallEconomy.catalog 0))) ∧
      (buyer "ann").resource "gold" = 20 ∧
      (Player.start "ann" stallEconomy.catalog 0).resource "gold" = 0 := by
  have hread : Snapshot.decode buyerText = some (buyer "ann") := by decide +kernel
  have hgold : (Player.start "ann" stallEconomy.catalog 0).resource "gold" = 0 := by
    decide +kernel
  refine ⟨by decide, hread, rfl, rfl, ?_⟩
  rcases attic.create_cases "ann" 0 with ⟨hload, -⟩ | ⟨error, hsave, -⟩ | ⟨-, hcreate⟩
  · exact absurd hload Bool.false_ne_true
  · exact absurd ((exposed_attic _).2.symm.trans hsave) (by simp)
  · rw [hcreate]
    refine ⟨rfl, ?_, rfl, hgold⟩
    show (attic.store.save "ann" (attic.newText "ann" 0)).2.entries.get? _ = _
    have htakes : attic.store.Takes "ann" :=
      (Folder.save_eq_ok_iff (attic.newText "ann" 0)).mp (exposed_attic _).2
    rcases attic.store.save_cases "ann" (attic.newText "ann" 0) with ⟨-, hok⟩ | ⟨_, hnot, -⟩
    · rw [hok]
      exact KeyMap.get?_insert_self _ _ _
    · exact absurd htakes hnot

end Server

end IncrementalGame
