import IncrementalGame.Proofs.KeyMap
import IncrementalGame.Proofs.Server.HonestStore

/-!
# Stores that stand still when they refuse

A store that refuses to store a text is steady if all of its entries are as they were: the same
texts are listed, the same are loaded, and the same ids are taken for stored (`SameEntries`).  It
need not be the same store: a folder may have a draft more, which is no file of a player.

Tables, folders and stores that are out of order for a while are steady, and so is a store that
refuses at whatever moments (`Fitful`).
-/

namespace IncrementalGame

/-- Whether two stores have the same entries. -/
structure SameEntries {σ : Type} [PlayerStore σ] (store store' : σ) : Prop where
  /-- The same texts are listed. -/
  listed : PlayerStore.loadAll store' = PlayerStore.loadAll store
  /-- The same text is loaded under each id. -/
  loaded : ∀ id, PlayerStore.load store' id = PlayerStore.load store id
  /-- The same ids are taken for stored. -/
  known : ∀ id, PlayerStore.contains store' id = PlayerStore.contains store id

theorem SameEntries.refl {σ : Type} [PlayerStore σ] (store : σ) : SameEntries store store :=
  ⟨rfl, fun _ => rfl, fun _ => rfl⟩

/-- A store whose entries are as they were when it refuses a text. -/
class SteadyStore (σ : Type) [PlayerStore σ] : Prop where
  /-- What is refused leaves the entries alone. -/
  sameEntries_of_error : ∀ (store : σ) (id text : String) {error : StoreError},
    (PlayerStore.save store id text).1 = .error error →
      SameEntries store (PlayerStore.save store id text).2

/-! ## Tables and outages -/

/-- A table refuses nothing. -/
instance : SteadyStore MemoryStore where
  sameEntries_of_error := by
    intro store id text error h
    exact absurd h (by simp [PlayerStore.save])

variable {σ : Type} [PlayerStore σ]

instance [SteadyStore σ] : SteadyStore (Unreliable σ) where
  sameEntries_of_error := by
    intro u id text error h
    by_cases hfail : u.savesFail = true
    · rw [Unreliable.save_of_outage hfail]
      exact .refl u
    · rw [Unreliable.save_of_order hfail] at h ⊢
      obtain ⟨hlisted, hloaded, hknown⟩ := SteadyStore.sameEntries_of_error u.store id text h
      refine ⟨?_, hloaded, hknown⟩
      show (if u.listingFails = true then _ else PlayerStore.loadAll _) =
        if u.listingFails = true then _ else PlayerStore.loadAll u.store
      rw [hlisted]

/-! ## Refusals at any moments -/

/-- A store together with a list that says which of the next texts it refuses. -/
structure Fitful (σ : Type) where
  store : σ
  /-- For each text to come, whether it is refused; after these none is. -/
  refusals : List Bool
  deriving DecidableEq

namespace Fitful

instance : PlayerStore (Fitful σ) where
  loadAll f := PlayerStore.loadAll f.store
  load f id := PlayerStore.load f.store id
  save f id text :=
    match f.refusals with
    | true :: later => (.error Unreliable.outage, { f with refusals := later })
    | refusals =>
      let (result, store) := PlayerStore.save f.store id text
      (result, ⟨store, refusals.tail⟩)
  contains f id := PlayerStore.contains f.store id

instance [SteadyStore σ] : SteadyStore (Fitful σ) where
  sameEntries_of_error := by
    rintro ⟨store, refusals⟩ id text error h
    rcases refusals with _ | ⟨_ | _, later⟩
    · obtain ⟨hlisted, hloaded, hknown⟩ := SteadyStore.sameEntries_of_error store id text h
      exact ⟨hlisted, hloaded, hknown⟩
    · obtain ⟨hlisted, hloaded, hknown⟩ := SteadyStore.sameEntries_of_error store id text h
      exact ⟨hlisted, hloaded, hknown⟩
    · exact ⟨rfl, fun _ => rfl, fun _ => rfl⟩

end Fitful

/-! ## Folders -/

namespace FileName

theorem reversedName_dotted {extension : String}
    (h : ∀ c ∈ extension.toList, c ≠ '/') (stem : String) :
    reversedName (stem ++ "." ++ extension) =
      extension.toList.reverse ++ '.' :: reversedName stem := by
  have hall : ∀ c ∈ extension.toList.reverse, (c != '/') = true := by
    intro c hc
    rw [bne_iff_ne]
    exact h c (List.mem_reverse.mp hc)
  have hlist : (stem ++ "." ++ extension).toList.reverse =
      extension.toList.reverse ++ '.' :: stem.toList.reverse := by
    simp [String.toList_append]
  rw [reversedName, hlist, List.takeWhile_append_of_pos hall, List.takeWhile_cons_of_pos (by decide)]
  rfl

/-- What follows the last point is the extension, unless there is nothing before the point. -/
theorem extension?_dotted {extension : String}
    (h : extension.toList.all (fun c => c != '/' && c != '.') = true) (stem : String) :
    extension? (stem ++ "." ++ extension) =
      if (reversedName stem).isEmpty then none else some extension := by
  have hchar : ∀ c ∈ extension.toList, c ≠ '/' ∧ (c != '.') = true := by
    intro c hc
    have hboth := List.all_eq_true.mp h c hc
    rw [Bool.and_eq_true, bne_iff_ne] at hboth
    exact hboth
  have hall : ∀ c ∈ extension.toList.reverse, (c != '.') = true :=
    fun c hc => (hchar c (List.mem_reverse.mp hc)).2
  have hname := reversedName_dotted (fun c hc => (hchar c hc).1) stem
  rw [extension?]
  simp only [hname]
  rw [List.dropWhile_append_of_pos hall, List.takeWhile_append_of_pos hall,
    List.dropWhile_cons_of_neg (by decide), List.takeWhile_cons_of_neg (by decide),
    List.append_nil, List.reverse_reverse, String.ofList_toList]
  cases reversedName stem <;> rfl

end FileName

namespace Folder

variable {folder : Folder}

/-- No draft is listed. -/
theorem extension?_draftOf (id : String) :
    FileName.extension? (draftOf id) ≠ some playerExtension := by
  have hdotted : draftOf id = id ++ "." ++ "tmp" := by
    rw [draftOf, String.append_assoc]
    rfl
  rw [hdotted, FileName.extension?_dotted (by decide)]
  split
  · simp
  · decide

/-- The files of a folder that hold players. -/
def players (folder : Folder) : KeyMap FolderEntry :=
  folder.entries.filter fun name _ => FileName.extension? name == some playerExtension

theorem loadAll_eq (folder : Folder) :
    folder.loadAll = folder.players.entries.map fun e => read e.1 e.2 := rfl

/-- Whatever stands under the name of a draft changes nothing about the players that are listed. -/
theorem players_put_draft (folder : Folder) (id : String) (entry : FolderEntry) :
    (folder.put (draftOf id) entry).players = folder.players := by
  apply KeyMap.ext_get?
  intro name
  rw [players, players, KeyMap.get?_filter_key, KeyMap.get?_filter_key]
  by_cases hname : name = draftOf id
  · rw [hname, beq_eq_false_iff_ne.mpr (extension?_draftOf id)]
    rfl
  · rw [put, KeyMap.get?_insert_of_ne _ hname]

/-- Who writes a draft changes nothing about the players that are listed. -/
theorem players_drafted (folder : Folder) (id text : String) :
    (folder.drafted id text).players = folder.players :=
  folder.players_put_draft id (.file text)

instance : SteadyStore Folder where
  sameEntries_of_error := by
    intro folder id text error h
    change (folder.save id text).1 = .error error at h
    show SameEntries folder (folder.save id text).2
    rcases folder.save_cases id text with ⟨_, hsave⟩ | ⟨error, _, hsave | hsave⟩
    · rw [hsave] at h
      exact absurd h (by simp)
    · rw [hsave]
      exact .refl folder
    · rw [hsave]
      have hload : ∀ id', (folder.drafted id text).load id' = folder.load id' :=
        folder.load_drafted id text
      refine ⟨?_, hload, fun id' => ?_⟩
      · show Except.ok (folder.drafted id text).loadAll = Except.ok folder.loadAll
        rw [loadAll_eq, loadAll_eq, players_drafted]
      · exact congrArg Except.isOk (hload id')

end Folder

end IncrementalGame
