import IncrementalGame.Economy.World
import IncrementalGame.Proofs.Formula.Memory
import IncrementalGame.Proofs.KeyMap

/-!
# Tame catalogs

What a formula amounts to is remembered under a text that the names of the variables are part of, so
a name with a separator in it may make two questions look alike.  In a tame catalog no name that may
become the name of a variable has one (`Catalog.Plain`, `Catalog.PlainCosts`), and no formula and no
gate hangs on chance (`Catalog.Certain`).

What a formula of such a catalog amounts to is the same for all evaluators that remember nothing
wrong (`Formula.Evaluator.evaluate_of_certain`).
-/

namespace IncrementalGame

/-! ## Plain names -/

/-- Whether a name contains no separator. -/
def PlainName (name : String) : Prop := ∀ c ∈ name.toList, ¬Formula.IsSeparator c

-- The instance of lists is named, since characters are finitely many and could all be tried.
instance : DecidablePred PlainName := fun name =>
  List.decidableBAll (¬Formula.IsSeparator ·) name.toList

theorem PlainName.append {name ending : String} (h : PlainName name) (hending : PlainName ending) :
    PlainName (name ++ ending) := by
  intro c hc
  rw [String.toList_append, List.mem_append] at hc
  exact hc.elim (h c) (hending c)

namespace KeyMap

variable {α β : Type}

/-- Whether all keys of a table are plain. -/
def Plain (t : KeyMap α) : Prop := ∀ entry ∈ t.entries, PlainName entry.1

instance (t : KeyMap α) : Decidable t.Plain :=
  List.decidableBAll (fun entry : String × α => PlainName entry.1) t.entries

theorem plain_empty : (empty : KeyMap α).Plain := fun _ h => absurd h List.not_mem_nil

variable {t : KeyMap α}

theorem Plain.of_get? (h : t.Plain) {key : String} {value : α} (hget : t.get? key = some value) :
    PlainName key := h _ (mem_entries_iff.mpr hget)

theorem Plain.of_mem_keys (h : t.Plain) {key : String} (hkey : key ∈ t.keys) : PlainName key := by
  obtain ⟨entry, hentry, rfl⟩ := List.mem_map.mp hkey
  exact h entry hentry

theorem Plain.insert (h : t.Plain) {key : String} (hkey : PlainName key) (value : α) :
    (t.insert key value).Plain := by
  intro entry hentry
  rcases mem_place hentry with rfl | hold
  · exact hkey
  · exact h entry hold

theorem Plain.map (h : t.Plain) (f : String → α → β) : (t.map f).Plain := by
  intro entry hentry
  obtain ⟨old, hold, rfl⟩ := List.mem_map.mp hentry
  exact h old hold

theorem Plain.overlay (h : t.Plain) {upper : KeyMap α} (hupper : upper.Plain) :
    (t.overlay upper).Plain :=
  List.foldlRecOn upper.entries _ h fun _ hvars entry hentry =>
    hvars.insert (hupper entry hentry) entry.2

end KeyMap

/-! ## Formulas that do not hang on chance -/

namespace Formula

open IncrementalGame.Random (Generator)

/-- Whether a formula calls no function that draws, so far as it can be read at all. -/
def Certain (formula : String) : Prop := ∀ tree, parse formula = .ok tree → tree.isRandom = false

instance : DecidablePred Certain := fun formula =>
  match hparse : parse formula with
  | .ok tree =>
    decidable_of_iff (tree.isRandom = false)
      ⟨fun h other hother => by rw [← Except.ok.inj (hparse.symm.trans hother)]; exact h,
        fun h => h tree hparse⟩
  | .error _ => .isTrue fun _ hother => absurd (hparse.symm.trans hother) (by simp)

theorem Certain.evaluateFresh_eq {formula : String} (h : Certain formula) (vars : Variables)
    (g g' : Generator) : (evaluateFresh formula vars g').1 = (evaluateFresh formula vars g).1 := by
  cases hparse : parse formula with
  | error error => rw [evaluateFresh_of_error hparse, evaluateFresh_of_error hparse]
  | ok tree =>
    obtain ⟨result, hresult⟩ := Expr.idle_amount (h tree hparse) vars
    rw [evaluateFresh_of_ok hparse, evaluateFresh_of_ok hparse, hresult g, hresult g']

namespace Evaluator

variable {formula : String} {vars : Variables} {ev ev' : Evaluator}

/-- **Evaluators that remember nothing wrong give the same answer**, whatever they remember. -/
theorem evaluate_of_certain (h : Certain formula) (hvars : Separable vars)
    (hev : Faithful ev.memo) (hev' : Faithful ev'.memo) :
    (evaluate formula vars ev').1 = (evaluate formula vars ev).1 := by
  rw [(evaluate_eq_fresh ev hev formula hvars).1, (evaluate_eq_fresh ev' hev' formula hvars).1]
  exact h.evaluateFresh_eq vars _ _

/-- A condition is a formula with another answer. -/
theorem holds_apply (formula : String) (vars : Variables) (ev : Evaluator) :
    holds formula vars ev =
      ((evaluate formula vars ev).1.map (· != 0.0), (evaluate formula vars ev).2) := by
  cases hasked : evaluate formula vars ev with
  | mk result rest =>
    simp only [holds, bind, StateT.bind, hasked]
    cases result <;> rfl

theorem faithful_holds (ev : Evaluator) (h : Faithful ev.memo) (formula : String)
    {vars : Variables} (hvars : Separable vars) : Faithful (holds formula vars ev).2.memo := by
  rw [holds_apply]
  exact (ev.evaluate_eq_fresh h formula hvars).2.2

end Evaluator

end Formula

/-! ## Items -/

/-- Whether a gate is no matter of chance. -/
def Gate.Certain : Gate → Prop
  | .chance _ => False
  | .condition formula => Formula.Certain formula

instance : DecidablePred Gate.Certain
  | .chance _ => .isFalse id
  | .condition formula => inferInstanceAs (Decidable (Formula.Certain formula))

/-- The formulas of an effect. -/
def Effect.formulas (effect : Effect) : List String :=
  effect.expression.toList ++ effect.condition.toList

theorem Effect.mem_formulas_of_expression {effect : Effect} {formula : String}
    (h : effect.expression = some formula) : formula ∈ effect.formulas :=
  List.mem_append_left _ (Option.mem_toList.mpr h)

theorem Effect.mem_formulas_of_condition {effect : Effect} {formula : String}
    (h : effect.condition = some formula) : formula ∈ effect.formulas :=
  List.mem_append_right _ (Option.mem_toList.mpr h)

namespace Item

/-- Whether nothing about an item hangs on chance. -/
structure Certain (item : Item) : Prop where
  gate : ∀ gate ∈ item.gate, gate.Certain
  effects : ∀ effect ∈ item.effects, ∀ formula ∈ effect.formulas, Formula.Certain formula
  levels : ∀ level ∈ item.levels, Formula.Certain level.condition

instance : DecidablePred Certain := fun item =>
  decidable_of_iff
    ((∀ gate ∈ item.gate, gate.Certain) ∧
      (∀ effect ∈ item.effects, ∀ formula ∈ effect.formulas, Formula.Certain formula) ∧
      ∀ level ∈ item.levels, Formula.Certain level.condition)
    ⟨fun ⟨hgate, heffects, hlevels⟩ => ⟨hgate, heffects, hlevels⟩,
      fun ⟨hgate, heffects, hlevels⟩ => ⟨hgate, heffects, hlevels⟩⟩

/-- Whether the key of an item, the targets of its effects and the names of its rewards are plain. -/
structure Plain (item : Item) : Prop where
  key : PlainName item.key
  targets : ∀ effect ∈ item.effects, PlainName effect.target
  rewards : ∀ level ∈ item.levels, level.rewards.Plain

instance : DecidablePred Plain := fun item =>
  decidable_of_iff
    (PlainName item.key ∧ (∀ effect ∈ item.effects, PlainName effect.target) ∧
      ∀ level ∈ item.levels, level.rewards.Plain)
    ⟨fun ⟨hkey, htargets, hrewards⟩ => ⟨hkey, htargets, hrewards⟩,
      fun ⟨hkey, htargets, hrewards⟩ => ⟨hkey, htargets, hrewards⟩⟩

end Item

/-! ## Catalogs -/

namespace Catalog

/-- Whether nothing in a catalog hangs on chance. -/
def Certain (catalog : Catalog) : Prop :=
  ∀ category ∈ catalog.categories.entries, ∀ entry ∈ category.2.entries, entry.2.Certain

/-- Whether all keys, targets of effects and names of rewards in a catalog are plain. -/
def Plain (catalog : Catalog) : Prop :=
  ∀ category ∈ catalog.categories.entries, ∀ entry ∈ category.2.entries,
    PlainName entry.1 ∧ entry.2.Plain

/-- Whether the names of the resources that buildings cost are plain. -/
def PlainCosts (catalog : Catalog) : Prop :=
  ∀ entry ∈ catalog.buildings.entries, entry.2.cost.Plain

instance : DecidablePred Certain := fun catalog =>
  inferInstanceAs (Decidable (∀ category ∈ catalog.categories.entries,
    ∀ entry ∈ category.2.entries, entry.2.Certain))

instance : DecidablePred Plain := fun catalog =>
  inferInstanceAs (Decidable (∀ category ∈ catalog.categories.entries,
    ∀ entry ∈ category.2.entries, PlainName entry.1 ∧ entry.2.Plain))

instance : DecidablePred PlainCosts := fun catalog =>
  inferInstanceAs (Decidable (∀ entry ∈ catalog.buildings.entries, entry.2.cost.Plain))

/-- Whether no name in a catalog can be mistaken for more than a name, and nothing hangs on
chance. -/
structure Tame (catalog : Catalog) : Prop where
  plain : catalog.Plain
  plainCosts : catalog.PlainCosts
  certain : catalog.Certain

variable {catalog : Catalog} {name key : String} {item : Item}

/-- An item that is found is listed in some category. -/
theorem exists_category_of_get? (h : (catalog.category name).get? key = some item) :
    ∃ category ∈ catalog.categories.entries, (key, item) ∈ category.2.entries := by
  rw [category, KeyMap.getD] at h
  cases hname : catalog.categories.get? name with
  | none =>
    rw [hname] at h
    exact absurd h (by simp)
  | some items =>
    rw [hname] at h
    exact ⟨(name, items), KeyMap.mem_entries_iff.mpr hname, KeyMap.mem_entries_iff.mpr h⟩

theorem Certain.of_get? (h : catalog.Certain)
    (hget : (catalog.category name).get? key = some item) : item.Certain := by
  obtain ⟨category, hcategory, hitem⟩ := exists_category_of_get? hget
  exact h category hcategory _ hitem

theorem Plain.of_get? (h : catalog.Plain)
    (hget : (catalog.category name).get? key = some item) : PlainName key ∧ item.Plain := by
  obtain ⟨category, hcategory, hitem⟩ := exists_category_of_get? hget
  exact h category hcategory _ hitem

/-- The keys of each category are plain. -/
theorem Plain.category (h : catalog.Plain) (name : String) : (catalog.category name).Plain :=
  fun _ hentry => (h.of_get? (KeyMap.mem_entries_iff.mp hentry)).1

end Catalog

end IncrementalGame
