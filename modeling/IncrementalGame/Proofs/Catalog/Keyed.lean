import Mathlib.Tactic.Common
import IncrementalGame.Economy.World
import IncrementalGame.Proofs.Fallible
import IncrementalGame.Proofs.KeyMap

/-!
# The keys of a loaded catalog

An item knows the category and the key it is listed under.  In a catalog that was loaded it knows
them right (`keyed_of_load`), so a rule that speaks of an item by its own key and one that speaks of
it by the key it was found under mean the same.

How an item is read from the fields it is written with is put down once, part by part
(`Item.Reads`).  A document that can be loaded makes an economy (`Economy.ofDocument`).
-/

namespace IncrementalGame

/-- How the parts of an item are read from the fields it is written with. -/
structure Item.Reads (category key : String) (fields : Catalog.Fields) (item : Item) : Prop where
  place : item.category = category ∧ item.key = key
  initial : Catalog.initialField fields = .ok item.initial
  effects : Catalog.effectsField fields = .ok item.effects
  levelsAndGate : Catalog.levelsAndGate category fields = .ok (item.levels, item.gate)
  name : (Catalog.textField fields "name").map (·.getD key) = .ok item.name
  tag : Catalog.textField fields "type" = .ok item.tag
  description : (Catalog.textField fields "description").map (·.getD "") = .ok item.description
  cost : Catalog.amountsField fields "cost" = .ok item.cost
  requirements : Catalog.keysField fields "reqs" = .ok item.requirements
  properties : item.properties =
    KeyMap.ofList (fields.filter fun f => !Catalog.knownFields.contains f.1)

namespace Catalog

/-- Whether every item knows where it is listed. -/
def Keyed (catalog : Catalog) : Prop :=
  ∀ (name key : String) (item : Item), (catalog.category name).get? key = some item →
    item.category = name ∧ item.key = key

theorem reads_of_itemOfFields {category key : String} {fields : Fields} {found : Item}
    (h : itemOfFields category key fields = .ok found) :
    found.Reads category key fields := by
  rw [itemOfFields] at h
  obtain ⟨initial, hinitial, h⟩ := Fallible.exists_of_bind_eq_ok h
  obtain ⟨effects, heffects, h⟩ := Fallible.exists_of_bind_eq_ok h
  obtain ⟨⟨levels, gate⟩, hlevels, h⟩ := Fallible.exists_of_bind_eq_ok h
  obtain ⟨name, hname, h⟩ := Fallible.exists_of_bind_eq_ok h
  obtain ⟨tag, htag, h⟩ := Fallible.exists_of_bind_eq_ok h
  obtain ⟨description, hdescription, h⟩ := Fallible.exists_of_bind_eq_ok h
  obtain ⟨cost, hcost, h⟩ := Fallible.exists_of_bind_eq_ok h
  obtain ⟨requirements, hrequirements, h⟩ := Fallible.exists_of_bind_eq_ok h
  obtain rfl := Except.ok.inj h
  exact {
    place := ⟨rfl, rfl⟩, initial := hinitial, effects := heffects
    levelsAndGate := hlevels, tag := htag, cost := hcost, requirements := hrequirements
    name := congrArg (Except.map _) hname
    description := congrArg (Except.map _) hdescription
    properties := rfl }

theorem keyed_of_itemOfFields {category key : String} {fields : Fields} {found : Item}
    (h : itemOfFields category key fields = .ok found) :
    found.category = category ∧ found.key = key := (reads_of_itemOfFields h).place

theorem keyed_of_item {category key : String} {raw : Json} {found : Item}
    (h : item category key raw = .ok found) : found.category = category ∧ found.key = key := by
  cases raw with
  | obj fields =>
    rw [item] at h
    split at h
    next i hi =>
      rw [← Except.ok.inj h]
      exact keyed_of_itemOfFields hi
    next => exact absurd h (by simp)
  | null | bool | num | str | arr => exact absurd h (by simp [item])

theorem keyed_of_items {category : String} {fields : Fields} {listed : List (String × Item)}
    (h : items category fields = .ok listed) :
    ∀ entry ∈ listed, entry.2.category = category ∧ entry.2.key = entry.1 := by
  induction fields generalizing listed with
  | nil =>
    rw [items] at h
    rw [← Except.ok.inj h]
    intro entry hentry
    exact absurd hentry List.not_mem_nil
  | cons field rest ih =>
    obtain ⟨key, raw⟩ := field
    rw [items] at h
    obtain ⟨first, hfirst, h⟩ := Fallible.exists_of_bind_eq_ok h
    obtain ⟨others, hothers, h⟩ := Fallible.exists_of_bind_eq_ok h
    rw [← Except.ok.inj h]
    intro entry hentry
    rcases List.mem_cons.mp hentry with rfl | hentry
    · exact keyed_of_item hfirst
    · exact ih hothers entry hentry

theorem keyed_of_categoriesOf {fields : Fields} {listed : List (String × KeyMap Item)}
    (h : categoriesOf fields = .ok listed) :
    ∀ entry ∈ listed, ∀ key item, entry.2.get? key = some item →
      item.category = entry.1 ∧ item.key = key := by
  induction fields generalizing listed with
  | nil =>
    rw [categoriesOf] at h
    rw [← Except.ok.inj h]
    intro entry hentry
    exact absurd hentry List.not_mem_nil
  | cons field rest ih =>
    obtain ⟨name, raw⟩ := field
    cases raw with
    | obj raw =>
      rw [categoriesOf] at h
      obtain ⟨first, hfirst, h⟩ := Fallible.exists_of_bind_eq_ok h
      obtain ⟨others, hothers, h⟩ := Fallible.exists_of_bind_eq_ok h
      rw [← Except.ok.inj h]
      intro entry hentry key item hitem
      rcases List.mem_cons.mp hentry with rfl | hentry
      · exact keyed_of_items hfirst (key, item) (KeyMap.mem_of_get?_ofList hitem)
      · exact ih hothers entry hentry key item hitem
    | null | bool | num | str | arr => exact absurd h (by simp [categoriesOf])

/-- **In a loaded catalog every item knows where it is listed.** -/
theorem keyed_of_load {document : Json} {catalog : Catalog} (h : load document = .ok catalog) :
    catalog.Keyed := by
  cases document with
  | obj fields =>
    rw [load] at h
    obtain ⟨categories, hcategories, h⟩ := Fallible.exists_of_bind_eq_ok h
    rw [← Except.ok.inj h]
    intro name key item hitem
    rw [category, KeyMap.getD] at hitem
    cases hlisted : (KeyMap.ofList categories).get? name with
    | none =>
      rw [hlisted, Option.getD_none, KeyMap.get?_empty] at hitem
      exact absurd hitem (by simp)
    | some items =>
      rw [hlisted, Option.getD_some] at hitem
      exact keyed_of_categoriesOf hcategories (name, items) (KeyMap.mem_of_get?_ofList hlisted) key
        item hitem
  | null | bool | num | str | arr => exact absurd h (by simp [load])

end Catalog

namespace Economy

/-- The economy of a document, if it can be loaded, under the default settings. -/
def ofDocument (document : Json) : Economy where
  catalog := (Catalog.load document).toOption.getD default
  settings := .default
  sound := by decide

theorem load_eq_ofDocument {document : Json} (h : (Catalog.load document).toOption.isSome = true) :
    Catalog.load document = .ok (ofDocument document).catalog := by
  unfold ofDocument
  cases hload : Catalog.load document with
  | ok catalog => rfl
  | error flaw =>
    rw [hload] at h
    exact absurd h Bool.false_ne_true

end Economy

end IncrementalGame
