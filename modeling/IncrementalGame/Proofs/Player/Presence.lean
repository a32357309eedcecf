import IncrementalGame.Proofs.Binary64.Integers
import IncrementalGame.Proofs.Economy.FreshStart

/-!
# Presence

A requirement asks what a player has (`Player.has`), and a formula asks for a positive variable
(`have`, `no`).  Under one name several values may meet, of which the greatest stands, so a variable
is positive just if one of the values is (`present_formulaVariables`), whatever the others are.

What a player has is among these values, and so are his tallies: the count of prestiges and the
statistics of his resources (`Player.Tallied`).  These a formula sees and a requirement does not.

* `Player.present_iff` --- a name is present just if the player has it or it is a tally of his;
* `World.asks_alike` --- what formulas and requirements answer about one name;
* `exists_tally_not_had` --- after the first prestige they differ.
-/

namespace IncrementalGame

open Formula (Builtin Expr Variables evaluateFresh)
open IncrementalGame.Random (Generator)

namespace Player

variable {key : String}

/-! ## The greatest of several values -/

theorem present_iff_get? {vars : Variables} :
    Builtin.present vars key = true ↔ ∃ x, vars.get? key = some x ∧ 0.0 < x := by
  rw [Builtin.present]
  cases vars.get? key <;> simp

/-- A value more makes its name present if it is positive, and no name absent. -/
theorem present_bindGreatest (vars : Variables) (name : String) (x : Float) :
    Builtin.present (bindGreatest vars name x) key = true ↔
      Builtin.present vars key = true ∨ key = name ∧ 0.0 < x := by
  rw [present_iff_get?, present_iff_get?]
  by_cases heq : key = name
  · subst heq
    cases hbound : vars.get? key <;>
      simp [bindGreatest, hbound, Binary64.pos_greater_iff]
  · have hsame : (bindGreatest vars name x).get? key = vars.get? key := by
      rw [bindGreatest]
      split
      · exact KeyMap.get?_insert_of_ne _ heq _
      · exact KeyMap.get?_insert_of_ne _ heq _
    rw [hsame]
    simp [heq]

theorem present_foldl_bindGreatest (bindings : List (String × Float)) (vars : Variables) :
    Builtin.present (bindings.foldl (fun vars e => bindGreatest vars e.1 e.2) vars) key = true ↔
      Builtin.present vars key = true ∨ ∃ x, (key, x) ∈ bindings ∧ 0.0 < x := by
  induction bindings generalizing vars with
  | nil => simp
  | cons e rest ih =>
    obtain ⟨name, y⟩ := e
    rw [List.foldl_cons, ih, present_bindGreatest, or_assoc]
    refine or_congr_right ⟨?_, ?_⟩
    · rintro (⟨rfl, hpos⟩ | ⟨x, hx, hpos⟩)
      · exact ⟨y, List.mem_cons_self, hpos⟩
      · exact ⟨x, List.mem_cons_of_mem _ hx, hpos⟩
    · rintro ⟨x, hx, hpos⟩
      rcases List.mem_cons.mp hx with heq | hx
      · cases heq
        exact .inl ⟨rfl, hpos⟩
      · exact .inr ⟨x, hx, hpos⟩

/-- A name is present just if one of its values is positive. -/
theorem present_formulaVariables (p : Player) :
    Builtin.present p.formulaVariables key = true ↔ ∃ x, (key, x) ∈ p.bindings ∧ 0.0 < x := by
  rw [formulaVariables, present_foldl_bindGreatest]
  simp [Builtin.present]

/-! ## What is had, and tallies -/

/-- Whether a name is that of a positive statistic of a resource. -/
def Measured (p : Player) (resource key : String) : Prop :=
  key = resource ++ ":max" ∧ 0 < (p.statsOf resource).max ∨
    key = resource ++ ":earned" ∧ 0 < (p.statsOf resource).earned ∨
    key = resource ++ ":ps" ∧ 0.0 < (p.statsOf resource).perTick

/-- Whether a name stands for a positive number of a player that is none of what he has: the count
of prestiges, or a statistic of one of his resources. -/
def Tallied (p : Player) (key : String) : Prop :=
  key = "prestige" ∧ 0 < p.prestige ∨ ∃ resource ∈ p.resources.keys, p.Measured resource key

theorem pos_numberOf_iff (b : Bool) : 0.0 < Formula.numberOf b ↔ b = true := by
  cases b with
  | false => exact iff_of_false (by decide) Bool.false_ne_true
  | true => exact iff_of_true (by decide) rfl

/-- The values that a table gives to a name are positive just if what it holds under the name is
something, which its fallback is not. -/
theorem exists_pos_entry_iff {α : Type} (t : KeyMap α) (key : String) {number : α → Float}
    {something : α → Prop} (hnumber : ∀ value, 0.0 < number value ↔ something value) {fallback : α}
    (hfallback : ¬something fallback) :
    (∃ x, (key, x) ∈ t.entries.map (fun e => (e.1, number e.2)) ∧ 0.0 < x) ↔
      something (t.getD key fallback) := by
  rw [KeyMap.getD_iff_exists hfallback]
  constructor
  · rintro ⟨x, hx, hpos⟩
    obtain ⟨⟨name, value⟩, hentry, heq⟩ := List.mem_map.mp hx
    cases heq
    exact ⟨value, KeyMap.mem_entries_iff.mp hentry, (hnumber value).mp hpos⟩
  · rintro ⟨value, hentry, hvalue⟩
    exact ⟨number value, List.mem_map.mpr ⟨(key, value), KeyMap.mem_entries_iff.mpr hentry, rfl⟩,
      (hnumber value).mpr hvalue⟩

theorem exists_pos_resourceBinding_iff (p : Player) (resource : String) (balance : UInt64) :
    (∃ x, (key, x) ∈ p.resourceBindings resource balance ∧ 0.0 < x) ↔
      key = resource ∧ 0 < balance ∨ p.Measured resource key := by
  simp only [resourceBindings, Measured, List.mem_cons, List.not_mem_nil, or_false, Prod.mk.injEq,
    or_and_right, and_assoc, exists_or, exists_and_left, exists_eq_left, Binary64.pos_toFloat_iff]

/-- The values that the resources give to a name. -/
theorem exists_pos_resource_iff (p : Player) :
    (∃ x, (key, x) ∈ p.resources.entries.flatMap (fun e => p.resourceBindings e.1 e.2) ∧ 0.0 < x) ↔
      0 < p.resource key ∨ ∃ resource ∈ p.resources.keys, p.Measured resource key := by
  rw [resource, KeyMap.getD_iff_exists (UInt64.lt_irrefl 0)]
  constructor
  · rintro ⟨x, hx, hpos⟩
    obtain ⟨⟨resource, balance⟩, hentry, hx⟩ := List.mem_flatMap.mp hx
    rcases (p.exists_pos_resourceBinding_iff resource balance).mp ⟨x, hx, hpos⟩ with
      ⟨rfl, hbalance⟩ | hmeasured
    · exact .inl ⟨balance, KeyMap.mem_entries_iff.mp hentry, hbalance⟩
    · exact .inr ⟨resource, List.mem_map.mpr ⟨_, hentry, rfl⟩, hmeasured⟩
  · intro h
    have hentry : ∃ resource balance, (resource, balance) ∈ p.resources.entries ∧
        (key = resource ∧ 0 < balance ∨ p.Measured resource key) := by
      rcases h with ⟨balance, hfound, hbalance⟩ | ⟨resource, hkey, hmeasured⟩
      · exact ⟨key, balance, KeyMap.mem_entries_iff.mpr hfound, .inl ⟨rfl, hbalance⟩⟩
      · obtain ⟨⟨_, balance⟩, hentry, rfl⟩ := List.mem_map.mp hkey
        exact ⟨_, balance, hentry, .inr hmeasured⟩
    obtain ⟨resource, balance, hentry, hgives⟩ := hentry
    obtain ⟨x, hx, hpos⟩ := (p.exists_pos_resourceBinding_iff resource balance).mpr hgives
    exact ⟨x, List.mem_flatMap.mpr ⟨_, hentry, hx⟩, hpos⟩

/-- **A name is present in formulas** just if the player has it, or it is a tally of his. -/
theorem present_iff (p : Player) (key : String) :
    Builtin.present p.formulaVariables key = true ↔ p.has key = true ∨ p.Tallied key := by
  have hbuildings := exists_pos_entry_iff p.buildings key
    Binary64.pos_toFloat_iff_of_count (UInt32.lt_irrefl 0)
  have hupgrades := exists_pos_entry_iff p.upgrades key pos_numberOf_iff Bool.false_ne_true
  have hachievements := exists_pos_entry_iff p.achievements key
    Binary64.pos_toFloat_iff_of_count (UInt32.lt_irrefl 0)
  have hprestige : (∃ x, (key, x) = ("prestige", p.prestige.toFloat) ∧ 0.0 < x) ↔
      key = "prestige" ∧ 0 < p.prestige := by
    simp only [Prod.mk.injEq, and_assoc, exists_and_left, exists_eq_left,
      Binary64.pos_toFloat_iff_of_count]
  have hhas : p.has key = true ↔ ((0 < p.resource key ∨ 0 < p.building key) ∨
      p.hasUpgrade key = true) ∨ 0 < p.achievementLevel key := by
    simp only [has, Bool.or_eq_true, decide_eq_true_iff]
  rw [present_formulaVariables, hhas, Tallied]
  simp only [bindings, List.mem_append, List.mem_singleton, or_and_right, exists_or]
  rw [exists_pos_resource_iff, hbuildings, hupgrades, hachievements, hprestige, building,
    hasUpgrade, achievementLevel]
  simp only [or_assoc, or_left_comm, or_comm]

theorem mem_missing_iff {p : Player} {item : Item} :
    key ∈ p.missing item ↔ key ∈ item.requirements ∧ p.has key = false := by
  rw [missing, List.mem_filter, Bool.not_eq_true']

end Player

/-! ## What formulas and requirements answer -/

/-- An item is refused for a key just if it requires it and the player has it not. -/
theorem Action.require_refuses_iff (w : World) (item : Item) (key : String) :
    (∃ keys, key ∈ keys ∧
      Action.require item w = (.error (.requirementsNotMet item.key keys), w)) ↔
      key ∈ item.requirements ∧ w.player.has key = false := by
  rw [← Player.mem_missing_iff]
  cases hmissing : w.player.missing item with
  | nil =>
    rw [Action.require_ok hmissing]
    refine iff_of_false ?_ List.not_mem_nil
    rintro ⟨keys, -, heq⟩
    cases heq
  | cons first rest =>
    rw [Action.require_error hmissing]
    constructor
    · rintro ⟨keys, hkey, heq⟩
      cases heq
      exact hkey
    · intro hkey
      exact ⟨_, hkey, rfl⟩

namespace Formula.Expr

variable (vars : Variables) (key : String) (g : Generator)

theorem eval_isPresent : (Expr.call "have" [.text key]).eval vars g =
    (.ok (.bool (Builtin.present vars key)), g) := by
  have name : Builtin.ofName? "have" = some .isPresent := by decide
  rw [eval, name]
  rfl

theorem eval_isAbsent : (Expr.call "no" [.text key]).eval vars g =
    (.ok (.bool (!Builtin.present vars key)), g) := by
  have name : Builtin.ofName? "no" = some .isAbsent := by decide
  rw [eval, name]
  rfl

end Formula.Expr

/-- **Formulas and requirements answer alike**, but for tallies: a formula finds what the player has
and what is tallied, and a requirement is met by what the player has. -/
theorem World.asks_alike (w : World) (key : String) :
    ∃ found : Bool,
      (∀ g, (Expr.call "have" [.text key]).eval w.player.formulaVariables g =
          (.ok (.bool found), g) ∧
        (Expr.call "no" [.text key]).eval w.player.formulaVariables g =
          (.ok (.bool !found), g)) ∧
      (found = true ↔ w.player.has key = true ∨ w.player.Tallied key) ∧
      ∀ item : Item,
        (∃ keys, key ∈ keys ∧
          Action.require item w = (.error (.requirementsNotMet item.key keys), w)) ↔
          key ∈ item.requirements ∧ w.player.has key = false :=
  ⟨Builtin.present w.player.formulaVariables key,
    fun g => ⟨Expr.eval_isPresent _ key g, Expr.eval_isAbsent _ key g⟩,
    w.player.present_iff key, fun item => Action.require_refuses_iff w item key⟩

/-! ### A temple -/

/-- A document of a temple that requires a prestige, and of a prestige without a price. -/
def templeDocument : Json := .obj [
  ("buildings", .obj [("temple", .obj [("reqs", .arr [.str "prestige"])])]),
  ("prestige", .obj [("prestige", .obj [])]),
  ("resources", .obj [("gold", .obj [])])]

/-- The economy of the temple. -/
def templeEconomy : Economy := .ofDocument templeDocument

/-- **After the first prestige** a formula finds it, but a temple that requires it is refused. -/
theorem exists_tally_not_had :
    ∃ p : Player, p.Reachable templeEconomy ∧ p.has "prestige" = false ∧
      (evaluateFresh "have('prestige')" p.formulaVariables (Generator.ofSeed 0)).1.toOption =
        some 1.0 ∧
      (templeEconomy.catalog.buildings.get? "temple").map p.missing = some ["prestige"] := by
  refine ⟨_, .run "ann" 0 (templeEconomy.evaluator 0) [.performPrestige 1], ?_, ?_, ?_⟩
  · decide +kernel
  · decide +kernel
  · decide +kernel

end IncrementalGame
