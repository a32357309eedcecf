import IncrementalGame.Proofs.Catalog.Keyed
import IncrementalGame.Proofs.Json.Proper

/-!
# What a document lists

A catalog that was loaded has an item under a category and a key just if the document lists fields
there, and then the item is what these fields are read as (`get?_cases`).  So what can be said of
all items of a catalog is said of the fields of one item.

Of the effects and the levels of an item each is read from an entry of its own
(`forall₂_of_effectsField`, `forall₂_of_levelsField`).
-/

namespace IncrementalGame

namespace Catalog

section

variable {category key : String} {fields : Fields} {found : Item}

/-- The gate and the levels depend on the category. -/
theorem gate_or_levels (h : found.Reads category key fields) :
    (category = achievementsCategory ∧ found.gate = none ∧
      levelsField fields = .ok found.levels) ∨
    (category ≠ achievementsCategory ∧ found.levels = [] ∧
      gateField fields = .ok found.gate) := by
  have hread := h.levelsAndGate
  rw [levelsAndGate] at hread
  split at hread
  next hcategory =>
    obtain ⟨levels, hlevels, hread⟩ := Fallible.exists_of_bind_eq_ok hread
    obtain ⟨rfl, hgate⟩ := Prod.mk.inj (Except.ok.inj hread)
    exact .inl ⟨hcategory, hgate.symm, hlevels⟩
  next hcategory =>
    obtain ⟨gate, hgate, hread⟩ := Fallible.exists_of_bind_eq_ok hread
    obtain ⟨hlevels, rfl⟩ := Prod.mk.inj (Except.ok.inj hread)
    exact .inr ⟨hcategory, hlevels.symm, hgate⟩

theorem item_eq_ok_iff {raw : Json} :
    item category key raw = .ok found ↔
      ∃ fields, raw = .obj fields ∧ itemOfFields category key fields = .ok found := by
  cases raw with
  | obj fields =>
    rw [item]
    cases hread : itemOfFields category key fields <;> simp [hread]
  | null | bool | num | str | arr => simp [item]

end

/-! ## Effects and levels -/

/-- What is said of all readings is said of all entries that they were read from. -/
theorem forall_mem_iff_of_forall₂ {α β : Type} {reads : α → β → Prop} {entries : List α}
    {found : List β} (h : List.Forall₂ reads entries found) {p : α → Prop} {q : β → Prop}
    (heach : ∀ a ∈ entries, ∀ b, reads a b → (q b ↔ p a)) :
    (∀ b ∈ found, q b) ↔ ∀ a ∈ entries, p a := by
  induction h with
  | nil => simp
  | cons hread _ ih =>
    rw [List.forall_mem_cons, List.forall_mem_cons, heach _ List.mem_cons_self _ hread,
      ih fun a ha => heach a (List.mem_cons_of_mem _ ha)]

/-- The effects of an item as they are written; a single one needs no list. -/
def writtenEffects (fields : Fields) : List Json :=
  match get? fields "effects" with
  | none | some .null => []
  | some (.arr entries) => entries
  | some single => [single]

theorem proper_of_mem_writtenEffects {fields : Fields} (proper : (Json.obj fields).Proper)
    {entry : Json} (h : entry ∈ writtenEffects fields) : entry.Proper := by
  rw [writtenEffects] at h
  split at h
  next => exact absurd h List.not_mem_nil
  next => exact absurd h List.not_mem_nil
  next entries hentries => exact (proper.of_lookup hentries).of_mem_items h
  next single hsingle =>
    rw [List.mem_singleton.mp h]
    exact proper.of_lookup hsingle

theorem forall₂_of_effects {entries : List Json} {found : List Effect}
    (h : effects entries = .ok found) :
    List.Forall₂ (fun entry e => effect entry = .ok e) entries found := by
  induction entries generalizing found with
  | nil =>
    rw [effects] at h
    obtain rfl := Except.ok.inj h
    exact .nil
  | cons entry rest ih =>
    rw [effects] at h
    obtain ⟨first, hfirst, h⟩ := Fallible.exists_of_bind_eq_ok h
    obtain ⟨others, hothers, h⟩ := Fallible.exists_of_bind_eq_ok h
    obtain rfl := Except.ok.inj h
    exact .cons hfirst (ih hothers)

/-- Effects are read one by one. -/
theorem forall₂_of_effectsField {fields : Fields} {found : List Effect}
    (h : effectsField fields = .ok found) :
    List.Forall₂ (fun entry e => effect entry = .ok e) (writtenEffects fields) found := by
  apply forall₂_of_effects
  rw [effectsField] at h
  rw [writtenEffects]
  split at h <;> simp_all [effects]

end Catalog

/-- How a level is read from the fields of its entry. -/
structure AchievementLevel.Reads (fields : Catalog.Fields) (found : AchievementLevel) : Prop where
  level : ∃ fallback, Catalog.levelNumber fields fallback = .ok found.level
  condition : Catalog.textField fields "condition" = .ok (some found.condition)
  rewards : Catalog.amountsField fields "rewards" = .ok found.rewards

namespace Catalog

theorem reads_of_level {fields : Fields} {fallback : Nat} {found : AchievementLevel}
    (h : level fields fallback = .ok found) : found.Reads fields := by
  rw [level] at h
  obtain ⟨number, hnumber, h⟩ := Fallible.exists_of_bind_eq_ok h
  obtain ⟨condition, hcondition, h⟩ := Fallible.exists_of_bind_eq_ok h
  cases condition with
  | none => exact absurd h (by simp)
  | some condition =>
    obtain ⟨rewards, hrewards, h⟩ := Fallible.exists_of_bind_eq_ok h
    obtain rfl := Except.ok.inj h
    exact ⟨⟨fallback, hnumber⟩, hcondition, hrewards⟩

/-- The levels of an achievement as they are written: a list, or the achievement itself if it has a
condition. -/
def writtenLevels (fields : Fields) : List Json :=
  match get? fields "levels" with
  | some (.arr entries) => entries
  | some _ => []
  | none => if (get? fields "condition").isSome then [.obj fields] else []

theorem proper_of_mem_writtenLevels {fields : Fields} (proper : (Json.obj fields).Proper)
    {entry : Json} (h : entry ∈ writtenLevels fields) : entry.Proper := by
  rw [writtenLevels] at h
  split at h
  next entries hentries => exact (proper.of_lookup hentries).of_mem_items h
  next => exact absurd h List.not_mem_nil
  next =>
    split at h
    · rw [List.mem_singleton.mp h]
      exact proper
    · exact absurd h List.not_mem_nil

/-- Whether a level is what an entry is read as. -/
def ReadsLevel (entry : Json) (found : AchievementLevel) : Prop :=
  ∃ fields, entry = .obj fields ∧ found.Reads fields

theorem forall₂_of_levels {entries : List Json} {index : Nat} {found : List AchievementLevel}
    (h : levels index entries = .ok found) : List.Forall₂ ReadsLevel entries found := by
  induction entries generalizing index found with
  | nil =>
    rw [levels] at h
    obtain rfl := Except.ok.inj h
    exact .nil
  | cons entry rest ih =>
    cases entry with
    | obj fields =>
      rw [levels] at h
      obtain ⟨first, hfirst, h⟩ := Fallible.exists_of_bind_eq_ok h
      obtain ⟨others, hothers, h⟩ := Fallible.exists_of_bind_eq_ok h
      obtain rfl := Except.ok.inj h
      exact .cons ⟨fields, rfl, reads_of_level hfirst⟩ (ih hothers)
    | null | bool | num | str | arr => exact absurd h (by simp [levels])

/-- Levels are read one by one. -/
theorem forall₂_of_levelsField {fields : Fields} {found : List AchievementLevel}
    (h : levelsField fields = .ok found) :
    List.Forall₂ ReadsLevel (writtenLevels fields) found := by
  cases hlevels : get? fields "levels" with
  | some written =>
    cases written with
    | arr entries =>
      simp only [levelsField, hlevels] at h
      simpa only [writtenLevels, hlevels] using forall₂_of_levels h
    | null | bool | num | str | obj => exact absurd h (by simp [levelsField, hlevels])
  | none =>
    simp only [levelsField, hlevels] at h
    simp only [writtenLevels, hlevels]
    split at h
    next hcondition =>
      obtain ⟨first, hfirst, h⟩ := Fallible.exists_of_bind_eq_ok h
      obtain rfl := Except.ok.inj h
      simpa [hcondition] using ⟨fields, rfl, reads_of_level hfirst⟩
    next hcondition =>
      obtain rfl := Except.ok.inj h
      simp [hcondition]

/-! ## Tables of items -/

/-- The items of a category are the readings of what it lists, under the same keys. -/
theorem lookup_of_items {category : String} {fields : Fields} {listed : List (String × Item)}
    (h : items category fields = .ok listed) :
    listed.map Prod.fst = fields.map Prod.fst ∧
      ∀ key, (get? fields key = none ∧ KeyMap.lookup key listed = none) ∨
        ∃ raw found, get? fields key = some raw ∧ item category key raw = .ok found ∧
          KeyMap.lookup key listed = some found := by
  induction fields generalizing listed with
  | nil =>
    rw [items] at h
    obtain rfl := Except.ok.inj h
    exact ⟨rfl, fun _ => .inl ⟨rfl, rfl⟩⟩
  | cons field rest ih =>
    obtain ⟨key, raw⟩ := field
    rw [items] at h
    obtain ⟨first, hfirst, h⟩ := Fallible.exists_of_bind_eq_ok h
    obtain ⟨others, hothers, h⟩ := Fallible.exists_of_bind_eq_ok h
    obtain rfl := Except.ok.inj h
    obtain ⟨hkeys, hlookup⟩ := ih hothers
    refine ⟨by rw [List.map_cons, List.map_cons, hkeys], fun other => ?_⟩
    by_cases heq : key = other
    · subst heq
      exact .inr ⟨raw, first, by simp [get?, KeyMap.lookup], hfirst, by simp [KeyMap.lookup]⟩
    · simpa [get?, KeyMap.lookup, heq] using hlookup other

/-- The categories are those of the document, under the same names. -/
theorem lookup_of_categoriesOf {fields : Fields} {listed : List (String × KeyMap Item)}
    (h : categoriesOf fields = .ok listed) :
    listed.map Prod.fst = fields.map Prod.fst ∧
      ∀ name, (get? fields name = none ∧ KeyMap.lookup name listed = none) ∨
        ∃ raw entries, get? fields name = some (.obj raw) ∧ items name raw = .ok entries ∧
          KeyMap.lookup name listed = some (KeyMap.ofList entries) := by
  induction fields generalizing listed with
  | nil =>
    rw [categoriesOf] at h
    obtain rfl := Except.ok.inj h
    exact ⟨rfl, fun _ => .inl ⟨rfl, rfl⟩⟩
  | cons field rest ih =>
    obtain ⟨name, raw⟩ := field
    cases raw with
    | obj raw =>
      rw [categoriesOf] at h
      obtain ⟨first, hfirst, h⟩ := Fallible.exists_of_bind_eq_ok h
      obtain ⟨others, hothers, h⟩ := Fallible.exists_of_bind_eq_ok h
      obtain rfl := Except.ok.inj h
      obtain ⟨hnames, hlookup⟩ := ih hothers
      refine ⟨by rw [List.map_cons, List.map_cons, hnames], fun other => ?_⟩
      by_cases heq : name = other
      · subst heq
        exact .inr ⟨raw, first, by simp [get?, KeyMap.lookup], hfirst, by simp [KeyMap.lookup]⟩
      · simpa [get?, KeyMap.lookup, heq] using hlookup other
    | null | bool | num | str | arr => exact absurd h (by simp [categoriesOf])

/-! ## Documents -/

/-- Whether a document lists some fields under a category and a key. -/
def Listed (document : Json) (name key : String) (fields : Fields) : Prop :=
  ∃ root raw, document = .obj root ∧ get? (rootOf root) name = some (.obj raw) ∧
    get? raw key = some (.obj fields)

theorem proper_rootOf {root : Fields} (proper : (Json.obj root).Proper) :
    (Json.obj (rootOf root)).Proper := by
  rw [rootOf]
  split
  next inner hinner => exact proper.of_lookup hinner
  next => exact proper

section

variable {document : Json} {catalog : Catalog} {name key : String} {fields : Fields}

/-- What is listed in a proper document is proper. -/
theorem Listed.proper (h : Listed document name key fields) (proper : document.Proper) :
    (Json.obj fields).Proper := by
  obtain ⟨root, raw, rfl, hcategory, hitem⟩ := h
  exact ((proper_rootOf proper).of_lookup hcategory).of_lookup hitem

/-- Under a category and a key no two things are listed. -/
theorem Listed.unique (h : Listed document name key fields) {other : Fields}
    (h' : Listed document name key other) : fields = other := by
  obtain ⟨root, raw, rfl, hcategory, hitem⟩ := h
  obtain ⟨root', raw', hroot, hcategory', hitem'⟩ := h'
  obtain rfl := Json.obj.inj hroot
  obtain rfl := Json.obj.inj (Option.some_inj.mp (hcategory.symm.trans hcategory'))
  exact Json.obj.inj (Option.some_inj.mp (hitem.symm.trans hitem'))

/-- Under a category and a key a loaded catalog has nothing since nothing is listed there, or else
the reading of what is listed there. -/
theorem get?_cases (proper : document.Proper) (h : load document = .ok catalog)
    (name key : String) :
    ((∀ fields, ¬Listed document name key fields) ∧ (catalog.category name).get? key = none) ∨
      ∃ fields found, Listed document name key fields ∧
        itemOfFields name key fields = .ok found ∧
        (catalog.category name).get? key = some found := by
  cases document with
  | null | bool | num | str | arr => exact absurd h (by simp [load])
  | obj root =>
    rw [load] at h
    obtain ⟨categories, hcategories, h⟩ := Fallible.exists_of_bind_eq_ok h
    obtain rfl := Except.ok.inj h
    obtain ⟨hnames, hlookup⟩ := lookup_of_categoriesOf hcategories
    rw [category, KeyMap.getD,
      KeyMap.get?_ofList (KeyMap.ascending_of_keys_eq hnames (proper_rootOf proper).ascending)]
    rcases hlookup name with ⟨hnone, habsent⟩ | ⟨raw, entries, hraw, hentries, hpresent⟩
    · refine .inl ⟨?_, by rw [habsent, Option.getD_none, KeyMap.get?_empty]⟩
      rintro fields ⟨_, raw, hroot, hraw, -⟩
      obtain rfl := Json.obj.inj hroot
      exact absurd (hnone.symm.trans hraw) (by simp)
    · obtain ⟨hkeys, hitems⟩ := lookup_of_items hentries
      rw [hpresent, Option.getD_some, KeyMap.get?_ofList
        (KeyMap.ascending_of_keys_eq hkeys ((proper_rootOf proper).of_lookup hraw).ascending)]
      rcases hitems key with ⟨hnone, habsent⟩ | ⟨value, found, hvalue, hfound, hitem⟩
      · refine .inl ⟨?_, habsent⟩
        rintro fields ⟨_, raw', hroot, hraw', hvalue⟩
        obtain rfl := Json.obj.inj hroot
        obtain rfl := Json.obj.inj (Option.some_inj.mp (hraw.symm.trans hraw'))
        exact absurd (hnone.symm.trans hvalue) (by simp)
      · obtain ⟨fields, rfl, hfields⟩ := item_eq_ok_iff.mp hfound
        exact .inr ⟨fields, found, ⟨root, raw, rfl, hraw, hvalue⟩, hfields, hitem⟩

/-- **The items of a loaded catalog** are the readings of what the document lists. -/
theorem exists_listed_of_get? (proper : document.Proper) (h : load document = .ok catalog)
    {found : Item} (hfound : (catalog.category name).get? key = some found) :
    ∃ fields, Listed document name key fields ∧ found.Reads name key fields := by
  rcases get?_cases proper h name key with ⟨-, hnone⟩ | ⟨fields, other, hlisted, hread, hother⟩
  · exact absurd (hnone.symm.trans hfound) (by simp)
  · obtain rfl := Option.some_inj.mp (hother.symm.trans hfound)
    exact ⟨fields, hlisted, reads_of_itemOfFields hread⟩

/-- **Whatever a document lists** is read as an item of the catalog. -/
theorem Listed.exists_get? (hlisted : Listed document name key fields) (proper : document.Proper)
    (h : load document = .ok catalog) :
    ∃ found, (catalog.category name).get? key = some found ∧ found.Reads name key fields := by
  rcases get?_cases proper h name key with ⟨hnone, -⟩ | ⟨other, found, hother, hread, hfound⟩
  · exact absurd hlisted (hnone fields)
  · obtain rfl := hlisted.unique hother
    exact ⟨found, hfound, reads_of_itemOfFields hread⟩

end

end Catalog

end IncrementalGame
