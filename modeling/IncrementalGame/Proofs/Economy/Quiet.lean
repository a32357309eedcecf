import Mathlib.Logic.Relation
import Mathlib.Tactic.Common
import IncrementalGame.Economy.Prestige
import IncrementalGame.Economy.Tick

/-!
# Changes that nobody is told of

Everything that a rule does to a player without an event is one of seven small changes
(`QuietStep`): amounts are added and taken, resources set back, multipliers scaled, shinies and
rates booked, the clock moved.  `Quiet` is a sequence of such changes, and whatever each of the
seven keeps, every sequence of them keeps.

The lists of such changes that rules are made of are sequences: payments, rewards and refunds,
resets (`quiet_debit`, `quiet_addAll`, `quiet_resetResources`, `quiet_reset`).

What it is to add and to take an amount is said first (`Player.addResource_cases`,
`Player.exists_removeResource_eq`).
-/

namespace IncrementalGame

/-! ## Amounts -/

namespace Player

variable (p : Player) (key : String) (amount : Float)

/-- To take an amount changes nothing but balances. -/
theorem exists_removeResource_eq :
    ∃ resources, p.removeResource key amount = { p with resources := resources } := by
  unfold removeResource
  split
  · exact ⟨p.resources, rfl⟩
  · exact ⟨_, rfl⟩

/-- To add an amount is to do nothing, to take its opposite, or, if it is a finite number and not
negative, to gain it. -/
theorem addResource_cases :
    p.addResource key amount = p ∨
      p.addResource key amount = p.removeResource key (-amount) ∨
      amount.isFinite = true ∧ ¬ amount < 0.0 ∧ p.addResource key amount = p.gain key amount := by
  unfold addResource
  split
  next => exact .inl rfl
  next hamount =>
    rw [Bool.or_eq_true, not_or, Bool.not_eq_true', Bool.not_eq_false] at hamount
    split
    next => exact .inr (.inl rfl)
    next hneg => exact .inr (.inr ⟨hamount.1, hneg, rfl⟩)

end Player

/-! ## Steps -/

/-- One change to a player that raises no event. -/
inductive QuietStep (catalog : Catalog) : Player → Player → Prop where
  | add (p : Player) (resource : String) (x : Float) :
    QuietStep catalog p (p.addResource resource x)
  | remove (p : Player) (resource : String) (x : Float) :
    QuietStep catalog p (p.removeResource resource x)
  | setBack (p : Player) (resource : String) :
    QuietStep catalog p (p.setResource resource (catalog.initialAmount resource))
  | scale (p : Player) (resource : String) (factor : Float) :
    QuietStep catalog p (Economy.scale resource factor p)
  | shinies (p : Player) (shinies : KeyMap ShinyState) :
    QuietStep catalog p { p with shinies := shinies }
  | rates (p : Player) (credited : KeyMap Float) :
    QuietStep catalog p (Economy.bookRates credited p)
  | clock (p : Player) (now : UInt64) : QuietStep catalog p { p with lastUpdate := now }

/-- Changes to a player that raise no event, one after the other. -/
def Quiet (catalog : Catalog) : Player → Player → Prop :=
  Relation.ReflTransGen (QuietStep catalog)

namespace Quiet

variable {catalog : Catalog}

theorem refl (p : Player) : Quiet catalog p p := Relation.ReflTransGen.refl

theorem step {p q : Player} (h : QuietStep catalog p q) : Quiet catalog p q :=
  Relation.ReflTransGen.single h

theorem trans {p q r : Player} (hpq : Quiet catalog p q) (hqr : Quiet catalog q r) :
    Quiet catalog p r := Relation.ReflTransGen.trans hpq hqr

/-- Quiet changes along a list are quiet. -/
theorem foldl {α : Type} {f : Player → α → Player} (h : ∀ p a, Quiet catalog p (f p a))
    (l : List α) (p : Player) : Quiet catalog p (l.foldl f p) := by
  induction l generalizing p with
  | nil => exact refl p
  | cons a l ih => exact (h p a).trans (ih (f p a))

/-- What each quiet change keeps, quiet changes keep. -/
theorem keeps {β : Type} (view : Player → β)
    (h : ∀ {p q : Player}, QuietStep catalog p q → view q = view p) {p q : Player}
    (hq : Quiet catalog p q) : view q = view p := by
  induction hq with
  | refl => rfl
  | tail _ hstep ih => rw [h hstep, ih]

/-- What each quiet change preserves, quiet changes preserve. -/
theorem preserves (holds : Player → Prop)
    (h : ∀ {p q : Player}, QuietStep catalog p q → holds p → holds q) {p q : Player}
    (hq : Quiet catalog p q) (hp : holds p) : holds q := by
  induction hq with
  | refl => exact hp
  | tail _ hstep ih => exact h hstep ih

/-- What relates a player to each quiet change of it relates it to quiet changes. -/
theorem along (rel : Player → Player → Prop) (hrefl : ∀ p, rel p p)
    (htrans : ∀ {p q r}, rel p q → rel q r → rel p r)
    (h : ∀ {p q : Player}, QuietStep catalog p q → rel p q) {p q : Player}
    (hq : Quiet catalog p q) : rel p q := by
  induction hq with
  | refl => exact hrefl p
  | tail _ hstep ih => exact htrans ih (h hstep)

end Quiet

/-! ## Lists of changes -/

variable (catalog : Catalog)

/-- Rewards, refunds and credits. -/
theorem quiet_addAll (amounts : KeyMap Float) (p : Player) :
    Quiet catalog p (amounts.foldl Player.addResource p) := by
  refine Quiet.foldl ?_ amounts.entries p
  intro p e
  exact .step (.add p e.1 e.2)

/-- Payments. -/
theorem quiet_debit (cost : KeyMap Float) (p : Player) : Quiet catalog p (p.debit cost) := by
  refine Quiet.foldl ?_ cost.entries p
  intro p e
  exact .step (.remove p e.1 e.2)

theorem quiet_spend {cost : KeyMap Float} {p q : Player} (h : p.spend cost = .ok q) :
    Quiet catalog p q := by
  unfold Player.spend at h
  split at h
  · exact absurd h (by simp)
  · rw [← Except.ok.inj h]
    exact quiet_debit catalog cost p

/-- Resets of all resources. -/
theorem quiet_resetResources (p : Player) : Quiet catalog p (p.resetResources catalog) := by
  refine Quiet.foldl ?_ (p.resources.keys ++ catalog.resources.keys) p
  intro p key
  exact .step (.setBack p key)

/-- Resets. -/
theorem quiet_reset (e : Economy) (target : String) (p : Player) :
    Quiet e.catalog p (e.reset target p) := by
  unfold Economy.reset
  split
  · exact quiet_resetResources e.catalog p
  · split
    · exact .step (.setBack p target)
    · exact .refl p

/-- Starts of shinies. -/
theorem quiet_grant (shiny : String) (now : UInt64) (p : Player) :
    Quiet catalog p (Economy.grant shiny now p) := .step (.shinies p _)

/-! ## What no quiet change touches -/

namespace Player

/-- What a player is known by and has, apart from balances and what belongs to them. -/
structure Holdings where
  /-- How many buildings of each kind are owned. -/
  buildings : KeyMap UInt32
  upgrades : KeyMap Bool
  achievements : KeyMap UInt32
  /-- How often prestige was performed. -/
  prestige : UInt32
  deriving DecidableEq

/-- The holdings of a player. -/
def holdings (p : Player) : Holdings := ⟨p.buildings, p.upgrades, p.achievements, p.prestige⟩

end Player

variable {catalog} {p q : Player}

theorem QuietStep.same (h : QuietStep catalog p q) :
    (q.id, q.holdings, q.log) = (p.id, p.holdings, p.log) := by
  cases h with
  | add resource x =>
    rcases p.addResource_cases resource x with h | h | ⟨_, _, h⟩
    · rw [h]
    · obtain ⟨resources, hremove⟩ := p.exists_removeResource_eq resource (-x)
      rw [h, hremove]
      rfl
    · rw [h]
      rfl
  | remove resource x =>
    obtain ⟨resources, h⟩ := p.exists_removeResource_eq resource x
    rw [h]
    rfl
  | setBack | scale | shinies | rates | clock => rfl

/-- **Quiet changes touch neither the holdings nor the log.** -/
theorem Quiet.same (h : Quiet catalog p q) :
    q.id = p.id ∧ q.holdings = p.holdings ∧ q.log = p.log := by
  have hsame := h.keeps (fun p => (p.id, p.holdings, p.log)) QuietStep.same
  exact ⟨congrArg (·.1) hsame, congrArg (·.2.1) hsame, congrArg (·.2.2) hsame⟩

end IncrementalGame
