import Mathlib.Data.List.Perm.Basic
import Mathlib.Data.List.Sort
import Mathlib.Tactic.Common
import IncrementalGame.Economy.Achievements
import IncrementalGame.Proofs.Catalog.Keyed

/-!
# The order in which levels are declared

A pass tries the levels of an achievement in ascending order, and the rewards of one may satisfy or
break the conditions of those above it.  The order in which a catalog lists the levels is not seen,
as long as no two of them have one number.

* `Catalog.exists_levels_of_perm`: entries that state their numbers are read alike in every order.
  One without a number has the number of its place, so to move it makes it another level.
* `levelsInOrder_eq_of_perm`: levels of different numbers have only one ascending order.
* `Item.Reordered`, `Catalog.Reordered`: two items, two catalogs, that differ in nothing that a pass
  reads but the order of levels.
* `unlockAchievements_reordered`: the pass is the same, in what it reports and in what it does.

Levels of one number are tried in the order in which they are declared, and the first that unlocks
keeps the others from being tried, so they cannot be exchanged.
-/

namespace IncrementalGame

/-! ## Reading levels -/

namespace Catalog

/-- Whether an entry of a list of levels states its number. -/
def Numbered (entry : Json) : Prop :=
  ∃ fields n, entry = .obj fields ∧ get? fields "level" = some (.num n)

/-- Whether an entry that states its number is read as a level. -/
def ReadAs (entry : Json) (read : AchievementLevel) : Prop :=
  ∃ fields, entry = .obj fields ∧ level fields 0 = .ok read

/-- The place of an entry that states its number is not looked at. -/
theorem level_of_numbered {fields : Fields} {n : Number}
    (h : get? fields "level" = some (.num n)) (fallback : Nat) :
    level fields fallback = level fields 0 := by
  have hnumber : levelNumber fields fallback = levelNumber fields 0 := by
    simp only [levelNumber, numberField, h]
    rfl
  rw [level, level, hnumber]

/-- Entries that state their numbers are read one by one, wherever they stand. -/
theorem levels_eq_ok_iff {entries : List Json} (hnumbered : ∀ entry ∈ entries, Numbered entry)
    (index : Nat) {read : List AchievementLevel} :
    levels index entries = .ok read ↔ List.Forall₂ ReadAs entries read := by
  induction entries generalizing index read with
  | nil =>
    rw [levels, List.forall₂_nil_left_iff]
    exact ⟨fun h => (Except.ok.inj h).symm, fun h => congrArg _ h.symm⟩
  | cons entry rest ih =>
    obtain ⟨fields, n, rfl, hn⟩ := hnumbered entry List.mem_cons_self
    have hrest : ∀ entry ∈ rest, Numbered entry :=
      fun entry h => hnumbered entry (List.mem_cons_of_mem _ h)
    rw [levels, level_of_numbered hn, List.forall₂_cons_left_iff]
    constructor
    · intro h
      obtain ⟨first, hfirst, h⟩ := Fallible.exists_of_bind_eq_ok h
      obtain ⟨others, hothers, h⟩ := Fallible.exists_of_bind_eq_ok h
      exact ⟨first, others, ⟨fields, rfl, hfirst⟩, (ih hrest _).mp hothers,
        (Except.ok.inj h).symm⟩
    · rintro ⟨first, others, ⟨_, heq, hfirst⟩, hothers, rfl⟩
      obtain rfl := Json.obj.inj heq
      rw [hfirst, (ih hrest (index + 1)).mpr hothers]
      rfl

/-- **Entries that state their numbers** are the same levels in every order. -/
theorem exists_levels_of_perm {entries entries' : List Json}
    (hnumbered : ∀ entry ∈ entries, Numbered entry) (hperm : entries'.Perm entries) {index : Nat}
    {read : List AchievementLevel} (h : levels index entries = .ok read) :
    ∃ read', levels index entries' = .ok read' ∧ read'.Perm read := by
  obtain ⟨read', hread, hperm'⟩ :=
    List.perm_comp_forall₂ hperm ((levels_eq_ok_iff hnumbered index).mp h)
  exact ⟨read',
    (levels_eq_ok_iff (fun entry hentry => hnumbered entry (hperm.mem_iff.mp hentry)) index).mpr
      hread, hperm'⟩

end Catalog

/-! ## Sorting levels -/

namespace Economy

/-- The levels that are tried are the declared ones, in ascending order. -/
theorem levelsInOrder_ascending (item : Item) :
    (levelsInOrder item).Pairwise fun a b => a.level ≤ b.level := by
  have htrans : ∀ a b c : AchievementLevel, decide (a.level ≤ b.level) = true →
      decide (b.level ≤ c.level) = true → decide (a.level ≤ c.level) = true := by
    intro a b c hab hbc
    rw [decide_eq_true_eq] at hab hbc ⊢
    exact UInt32.le_trans hab hbc
  have htotal : ∀ a b : AchievementLevel,
      (decide (a.level ≤ b.level) || decide (b.level ≤ a.level)) = true := by
    intro a b
    simpa using UInt32.le_total a.level b.level
  exact (List.pairwise_mergeSort htrans htotal item.levels).imp fun h => of_decide_eq_true h

theorem levelsInOrder_perm (item : Item) : (levelsInOrder item).Perm item.levels :=
  List.mergeSort_perm item.levels _

/-- **Levels of different numbers have one ascending order.** -/
theorem levelsInOrder_eq_of_perm {item item' : Item} (hperm : item'.levels.Perm item.levels)
    (hdistinct : (item.levels.map (·.level)).Nodup) : levelsInOrder item' = levelsInOrder item := by
  have hsame : (levelsInOrder item').Perm (levelsInOrder item) :=
    (levelsInOrder_perm item').trans (hperm.trans (levelsInOrder_perm item).symm)
  refine List.Perm.eq_of_pairwise (fun a b ha hb hab hba => ?_) (levelsInOrder_ascending item')
    (levelsInOrder_ascending item) hsame
  have hmem : a ∈ item.levels := hperm.mem_iff.mp ((levelsInOrder_perm item').mem_iff.mp ha)
  have hmem' : b ∈ item.levels := (levelsInOrder_perm item).mem_iff.mp hb
  exact List.inj_on_of_nodup_map hdistinct hmem hmem' (UInt32.le_antisymm hab hba)

theorem levelsInOrder_of_ascending {item : Item}
    (h : item.levels.Pairwise fun a b => a.level ≤ b.level) : levelsInOrder item = item.levels :=
  List.mergeSort_of_pairwise (h.imp fun hle => decide_eq_true hle)

end Economy

/-! ## Reordered catalogs -/

/-- Whether two items differ in nothing that a pass reads but the order in which they list their
levels.  Where the order differs, no two levels have one number. -/
structure Item.Reordered (item item' : Item) : Prop where
  name : item'.name = item.name
  levels : item'.levels.Perm item.levels
  distinct : item'.levels ≠ item.levels → (item.levels.map (·.level)).Nodup

instance (item item' : Item) : Decidable (item.Reordered item') :=
  decidable_of_iff
    (item'.name = item.name ∧ item'.levels.Perm item.levels ∧
      (item'.levels ≠ item.levels → (item.levels.map (·.level)).Nodup))
    ⟨fun h => ⟨h.1, h.2.1, h.2.2⟩, fun h => ⟨h.name, h.levels, h.distinct⟩⟩

/-- Whether two catalogs have the same achievements, apart from the order in which these list their
levels. -/
def Catalog.Reordered (catalog catalog' : Catalog) : Prop :=
  List.Forall₂ (fun entry entry' => entry'.1 = entry.1 ∧ entry.2.Reordered entry'.2)
    catalog.achievements.entries catalog'.achievements.entries

instance (catalog catalog' : Catalog) : Decidable (catalog.Reordered catalog') :=
  inferInstanceAs (Decidable (List.Forall₂ _ _ _))

theorem Item.Reordered.levelsInOrder_eq {item item' : Item} (h : item.Reordered item') :
    Economy.levelsInOrder item' = Economy.levelsInOrder item := by
  by_cases hsame : item'.levels = item.levels
  · rw [Economy.levelsInOrder, Economy.levelsInOrder, hsame]
  · exact Economy.levelsInOrder_eq_of_perm h.levels (h.distinct hsame)

/-! ## Passes -/

namespace Economy

variable {e e' : Economy}

/-- All that the rules of an economy know of it when they unlock a level is how much a log holds,
and of the item they know its name. -/
theorem tryLevel_congr (hsettings : e'.settings = e.settings) {item item' : Item}
    (hname : item'.name = item.name) (key : String) (level : AchievementLevel) :
    e'.tryLevel item' key level = e.tryLevel item key level := by
  have hunlock : e'.unlock item' key level = e.unlock item key level := by
    simp only [unlock, Rule.announce, hname, hsettings]
  rw [tryLevel, tryLevel, hunlock]

theorem tryLevels_congr (hsettings : e'.settings = e.settings) {item item' : Item}
    (hname : item'.name = item.name) (key : String) (levels : List AchievementLevel) :
    e'.tryLevels item' key levels = e.tryLevels item key levels := by
  induction levels with
  | nil => rfl
  | cons level rest ih => rw [tryLevels, tryLevels, tryLevel_congr hsettings hname, ih]

theorem tryItems_reordered (hsettings : e'.settings = e.settings)
    {items items' : List (String × Item)}
    (h : List.Forall₂ (fun entry entry' => entry'.1 = entry.1 ∧ entry.2.Reordered entry'.2)
      items items') :
    e'.tryItems items' = e.tryItems items := by
  induction h with
  | nil => rfl
  | @cons entry entry' rest rest' hentry _ ih =>
    obtain ⟨key, item⟩ := entry
    obtain ⟨key', item'⟩ := entry'
    obtain ⟨rfl, hitem⟩ : key' = key ∧ item.Reordered item' := hentry
    rw [tryItems, tryItems, hitem.levelsInOrder_eq, tryLevels_congr hsettings hitem.name, ih]

/-- **A pass does not see the order in which levels are declared.**  Under the same settings, two
catalogs whose achievements differ only in that order unlock the same levels in the same order, and
make the same of the player, of the events and of the evaluator with its source of chance. -/
theorem unlockAchievements_reordered (hsettings : e'.settings = e.settings)
    (h : e.catalog.Reordered e'.catalog) (w : World) :
    e'.unlockAchievements w = e.unlockAchievements w := by
  rw [unlockAchievements, unlockAchievements, tryItems_reordered hsettings h]

/-- Levels that are declared in ascending order are tried as they stand. -/
theorem tryItems_of_ascending {items : List (String × Item)}
    (h : ∀ entry ∈ items, entry.2.levels.Pairwise fun a b => a.level ≤ b.level) :
    e.tryItems items =
      List.flatten <$> items.mapM fun entry => e.tryLevels entry.2 entry.1 entry.2.levels := by
  induction items with
  | nil => rfl
  | cons entry rest ih =>
    rw [tryItems, levelsInOrder_of_ascending (h entry List.mem_cons_self),
      ih fun other hother => h other (List.mem_cons_of_mem _ hother), List.mapM_cons]
    simp only [map_eq_pure_bind, bind_assoc, pure_bind, List.flatten_cons]

/-! ### A quest -/

/-- A document with one achievement, whose levels are listed in the given order. -/
def questDocument (levels : List Json) : Json := .obj [
  ("achievements", .obj [("quest", .obj [("levels", .arr levels)])]),
  ("resources", .obj [("gold", .obj []), ("honour", .obj [])])]

/-- A level of a number that is reached under a condition and pays so much of a resource. -/
def questLevel (number : Int) (condition resource : String) (amount : Int) : Json := .obj [
  ("condition", .str condition), ("level", .num (.int number)),
  ("rewards", .obj [(resource, .num (.int amount))])]

/-- The first level pays the gold that the second one asks for, and the second one pays the honour
with which the third one is out of reach. -/
def questLevels : List Json :=
  [questLevel 1 "1" "gold" 5, questLevel 2 "gold >= 5" "honour" 1,
    questLevel 3 "honour < 1" "gold" 9]

/-- The economy of a quest. -/
def questEconomy (levels : List Json) : Economy := .ofDocument (questDocument levels)

/-- A player who sets out. -/
def squire : World :=
  ⟨.start "ann" (questEconomy questLevels).catalog 0, [], (questEconomy questLevels).evaluator 0, false⟩

/-- Listed from the last to the first, the levels of the quest unlock as they do in order. -/
theorem unlockAchievements_reversed_quest :
    ((questEconomy questLevels.reverse).unlockAchievements squire).1 =
        [("quest", 1), ("quest", 2)] ∧
      (questEconomy questLevels.reverse).unlockAchievements squire =
        (questEconomy questLevels).unlockAchievements squire := by
  have hreordered :
      (questEconomy questLevels).catalog.Reordered (questEconomy questLevels.reverse).catalog := by
    decide +kernel
  have hsettings : ∀ levels, (questEconomy levels).settings = .default := fun _ => rfl
  have hsame := unlockAchievements_reordered
    ((hsettings questLevels.reverse).trans (hsettings questLevels).symm) hreordered squire
  have hascending : ∀ entry ∈ (questEconomy questLevels).catalog.achievements.entries,
      entry.2.levels.Pairwise fun a b => a.level ≤ b.level := by decide +kernel
  refine ⟨?_, hsame⟩
  rw [hsame, unlockAchievements, tryItems_of_ascending hascending]
  decide +kernel

end Economy

end IncrementalGame
