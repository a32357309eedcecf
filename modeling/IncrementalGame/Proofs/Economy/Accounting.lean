import Mathlib.Tactic
import IncrementalGame.Proofs.Economy.Course
import IncrementalGame.Proofs.KeyMap

/-!
# Resource accounting

Three counters belong to a resource, each of which stops at its end for itself: the balance, the
greatest balance so far and all that was ever earned.  `Accounted` ties them together: a balance is
at most the greatest one, and the greatest one is at most the first amount and all that was earned.
Every gain is booked as it is credited (`Accounted.insert`), and nothing else raises a balance above
the first amount.

* `accounted_start` --- it holds at the start of a game;
* `Accounted.step` --- a quiet change keeps it, and announcements do not touch it;
* `Accounted.course`, `Grown.course` --- so it holds after any moves, and meanwhile neither the
  greatest balance nor what was earned ever sinks.
-/

namespace IncrementalGame

/-! ## Whole units -/

/-- The whole units that a balance is set to. -/
def Player.wholeUnits (amount : Float) : UInt64 :=
  (Binary64.floor (if amount.isFinite then Binary64.greater amount 0.0 else 0.0)).toUInt64

/-- The whole units of a resource at the start; none of one that is not declared. -/
def Catalog.initialUnits (catalog : Catalog) (resource : String) : UInt64 :=
  match catalog.resources.get? resource with
  | some item => Player.wholeUnits item.initial
  | none => 0

theorem Player.wholeUnits_zero : Player.wholeUnits 0.0 = 0 := by decide +kernel

/-- What is set back is set to the units at the start. -/
theorem Catalog.wholeUnits_initialAmount (catalog : Catalog) (resource : String) :
    Player.wholeUnits (catalog.initialAmount resource) = catalog.initialUnits resource := by
  rw [initialAmount, initialUnits]
  cases catalog.resources.get? resource with
  | some item => rfl
  | none => exact Player.wholeUnits_zero

/-- Rates that are booked in a table of statistics leave its counters alone. -/
theorem counters_bookRates (credited : KeyMap Float) (keys : List String)
    (stats : KeyMap ResourceStats) (r : String) :
    let booked := keys.foldl
      (fun stats resource => stats.update resource .none fun s =>
        { s with perTick := credited.getD resource 0.0 }) stats
    ((stats.get? r).isSome = true → (booked.get? r).isSome = true) ∧
      (booked.getD r .none).max = (stats.getD r .none).max ∧
      (booked.getD r .none).earned = (stats.getD r .none).earned := by
  induction keys generalizing stats with
  | nil => exact ⟨id, rfl, rfl⟩
  | cons key rest ih =>
    obtain ⟨hlisted, hmax, hearned⟩ := ih (stats.update key .none fun s =>
      { s with perTick := credited.getD key 0.0 })
    rw [List.foldl_cons]
    refine ⟨fun h => hlisted (KeyMap.isSome_get?_insert h _ _), ?_, ?_⟩
    · rw [hmax, KeyMap.update]
      by_cases heq : r = key
      · rw [heq, KeyMap.getD_insert_self]
      · rw [KeyMap.getD_insert_of_ne _ heq]
    · rw [hearned, KeyMap.update]
      by_cases heq : r = key
      · rw [heq, KeyMap.getD_insert_self]
      · rw [KeyMap.getD_insert_of_ne _ heq]

/-! ## The invariant -/

/-- Whether the counters of every resource fit together. -/
structure Accounted (catalog : Catalog) (p : Player) : Prop where
  /-- Every balance has statistics. -/
  listed : ∀ r, (p.resources.get? r).isSome = true → (p.stats.get? r).isSome = true
  /-- No balance is above the greatest one. -/
  balance_le : ∀ r, (p.resource r).toNat ≤ (p.statsOf r).max.toNat
  /-- Nothing comes from nowhere. -/
  max_le : ∀ r, (p.statsOf r).max.toNat ≤
    (catalog.initialUnits r).toNat + (p.statsOf r).earned.toNat

namespace Accounted

variable {catalog : Catalog} {p q : Player}

/-- A balance and its statistics are written together. -/
theorem insert (h : Accounted catalog p) {r : String} {balance : UInt64} {s : ResourceStats}
    (hresources : q.resources = p.resources.insert r balance) (hstats : q.stats = p.stats.insert r s)
    (hbalance : balance.toNat ≤ s.max.toNat)
    (hmax : s.max.toNat ≤ (catalog.initialUnits r).toNat + s.earned.toNat) :
    Accounted catalog q := by
  refine ⟨fun other hother => ?_, fun other => ?_, fun other => ?_⟩
  · rw [hstats]
    by_cases heq : other = r
    · rw [heq, KeyMap.get?_insert_self]
      rfl
    · rw [hresources, KeyMap.get?_insert_of_ne _ heq] at hother
      exact KeyMap.isSome_get?_insert (h.listed other hother) r s
  · rw [Player.resource, Player.statsOf, hresources, hstats]
    by_cases heq : other = r
    · rw [heq, KeyMap.getD_insert_self, KeyMap.getD_insert_self]
      exact hbalance
    · rw [KeyMap.getD_insert_of_ne _ heq, KeyMap.getD_insert_of_ne _ heq]
      exact h.balance_le other
  · rw [Player.statsOf, hstats]
    by_cases heq : other = r
    · rw [heq, KeyMap.getD_insert_self]
      exact hmax
    · rw [KeyMap.getD_insert_of_ne _ heq]
      exact h.max_le other

/-- A gain is booked as it is credited, also where the counters have come to their end. -/
theorem gain (h : Accounted catalog p) (r : String) (x : Float) :
    Accounted catalog (p.gain r x) := by
  have hbalance := h.balance_le r
  have hmax := h.max_le r
  refine h.insert rfl rfl ?_ ?_
  · rw [Saturating.toNat_max64]
    exact Nat.le_max_right _ _
  · have hend := (p.statsOf r).max.toNat_lt_size
    simp only [Saturating.toNat_max64, Saturating.toNat_add64]
    omega

theorem removeResource (h : Accounted catalog p) (r : String) (x : Float) :
    Accounted catalog (p.removeResource r x) := by
  unfold Player.removeResource
  cases hr : p.resources.get? r with
  | none => exact h
  | some balance =>
    refine ⟨fun other hother => ?_, fun other => ?_, h.max_le⟩
    · by_cases heq : other = r
      · rw [heq]
        exact h.listed r (by rw [hr]; rfl)
      · rw [KeyMap.get?_insert_of_ne _ heq] at hother
        exact h.listed other hother
    · by_cases heq : other = r
      · have hle := h.balance_le r
        rw [Player.resource, KeyMap.getD, hr, Option.getD_some] at hle
        rw [heq, Player.resource, KeyMap.getD_insert_self, Saturating.toNat_sub64]
        exact Nat.le_trans (Nat.sub_le _ _) hle
      · rw [Player.resource, KeyMap.getD_insert_of_ne _ heq]
        exact h.balance_le other

theorem addResource (h : Accounted catalog p) (r : String) (x : Float) :
    Accounted catalog (p.addResource r x) := by
  rcases p.addResource_cases r x with hadd | hadd | ⟨_, _, hadd⟩
  · rw [hadd]
    exact h
  · rw [hadd]
    exact h.removeResource r (-x)
  · rw [hadd]
    exact h.gain r x

/-- A balance set to no more than the first amount. -/
theorem setResource (h : Accounted catalog p) (r : String) {x : Float}
    (hx : Player.wholeUnits x = catalog.initialUnits r) :
    Accounted catalog (p.setResource r x) := by
  have hmax := h.max_le r
  refine h.insert rfl rfl ?_ ?_
  · rw [Saturating.toNat_max64]
    exact Nat.le_max_right _ _
  · show (Saturating.max64 (p.statsOf r).max (Player.wholeUnits x)).toNat ≤
      (catalog.initialUnits r).toNat + (p.statsOf r).earned.toNat
    rw [Saturating.toNat_max64, hx]
    omega

/-- Booked rates are no part of the counters. -/
theorem bookRates (h : Accounted catalog p) (credited : KeyMap Float) :
    Accounted catalog (Economy.bookRates credited p) := by
  have hbooked := counters_bookRates credited p.resources.keys p.stats
  refine ⟨fun r hr => (hbooked r).1 (h.listed r hr), fun r => ?_, fun r => ?_⟩
  · rw [Player.statsOf, Economy.bookRates, (hbooked r).2.1]
    exact h.balance_le r
  · rw [Player.statsOf, Economy.bookRates, (hbooked r).2.1, (hbooked r).2.2]
    exact h.max_le r

/-- **A quiet change keeps the counters together.** -/
theorem step (hstep : QuietStep catalog p q) (h : Accounted catalog p) : Accounted catalog q := by
  cases hstep with
  | add r x => exact h.addResource r x
  | remove r x => exact h.removeResource r x
  | setBack r => exact h.setResource r (catalog.wholeUnits_initialAmount r)
  | scale r x => exact ⟨h.listed, h.balance_le, h.max_le⟩
  | shinies s => exact ⟨h.listed, h.balance_le, h.max_le⟩
  | rates credited => exact h.bookRates credited
  | clock now => exact ⟨h.listed, h.balance_le, h.max_le⟩

/-- No step of a game takes them apart. -/
theorem course {e : Economy} {v w : World} (hc : Course e v w)
    (h : Accounted e.catalog v.player) : Accounted e.catalog w.player := by
  refine hc.preserves (fun w => Accounted e.catalog w.player) ?_ h
  intro v w hstep h
  cases hstep with
  | hush hquiet => exact hquiet.1.preserves _ step h
  | tell hbefore hdue hafter hplayer hraised =>
    have hp := hbefore.preserves _ step h
    have hq := hafter.preserves _ step ⟨hp.listed, hp.balance_le, hp.max_le⟩
    rw [hplayer]
    exact ⟨hq.listed, hq.balance_le, hq.max_le⟩

end Accounted

/-! ## The start -/

theorem accounted_startResource {catalog : Catalog} {p : Player} (h : Accounted catalog p)
    {key : String} {item : Item} (hitem : catalog.resources.get? key = some item) :
    Accounted catalog (p.startResource key item.initial) := by
  have hunits : Player.wholeUnits item.initial = catalog.initialUnits key := by
    rw [Catalog.initialUnits, hitem]
  -- the statistics begin anew, so only the balance that is set counts
  have hstats : (p.startResource key item.initial).stats = p.stats.insert key
      { ResourceStats.none with
        max := Saturating.max64 0 (Player.wholeUnits item.initial) } := by
    rw [Player.startResource, Player.setResource, Player.statsOf, KeyMap.getD_insert_self,
      KeyMap.insert_insert]
    rfl
  refine h.insert rfl hstats ?_ ?_
  · rw [Saturating.toNat_max64]
    exact Nat.le_max_right _ _
  · rw [hunits, Saturating.toNat_max64, UInt64.toNat_zero, Nat.zero_max]
    exact Nat.le_add_right _ _

/-- **The counters fit together at the start.** -/
theorem accounted_start (id : String) (catalog : Catalog) (now : UInt64) :
    Accounted catalog (Player.start id catalog now) := by
  have hfold : ∀ (entries : List (String × Item)),
      (∀ entry ∈ entries, catalog.resources.get? entry.1 = some entry.2) →
      ∀ p, Accounted catalog p → Accounted catalog
        (entries.foldl (fun p entry => p.startResource entry.1 entry.2.initial) p) := by
    intro entries
    induction entries with
    | nil =>
      intro _ p h
      exact h
    | cons entry rest ih =>
      intro hlisted p h
      exact ih (fun b hb => hlisted b (List.mem_cons_of_mem _ hb)) _
        (accounted_startResource h (hlisted entry List.mem_cons_self))
  refine hfold catalog.resources.entries (fun _ h => KeyMap.mem_entries_iff.mp h) _ ?_
  exact ⟨fun r h => by simp [Player.blank] at h, fun r => Nat.zero_le _, fun r => Nat.zero_le _⟩

/-! ## Growth -/

/-- Whether no greatest balance and nothing earned has sunk. -/
def Grown (p q : Player) : Prop :=
  ∀ r, ((p.stats.get? r).isSome = true → (q.stats.get? r).isSome = true) ∧
    (p.statsOf r).max.toNat ≤ (q.statsOf r).max.toNat ∧
    (p.statsOf r).earned.toNat ≤ (q.statsOf r).earned.toNat

namespace Grown

variable {catalog : Catalog} {p q : Player}

theorem refl (p : Player) : Grown p p := fun _ => ⟨id, Nat.le_refl _, Nat.le_refl _⟩

theorem trans {r : Player} (hpq : Grown p q) (hqr : Grown q r) : Grown p r := fun key =>
  ⟨(hqr key).1 ∘ (hpq key).1, (hpq key).2.1.trans (hqr key).2.1,
    (hpq key).2.2.trans (hqr key).2.2⟩

theorem of_stats_eq (h : q.stats = p.stats) : Grown p q := fun r => by
  rw [Player.statsOf, Player.statsOf, h]
  exact ⟨id, Nat.le_refl _, Nat.le_refl _⟩

/-- Statistics are written over by no smaller ones. -/
theorem insert {r : String} {s : ResourceStats} (hstats : q.stats = p.stats.insert r s)
    (hmax : (p.statsOf r).max.toNat ≤ s.max.toNat)
    (hearned : (p.statsOf r).earned.toNat ≤ s.earned.toNat) : Grown p q := by
  intro other
  rw [Player.statsOf, Player.statsOf, hstats]
  refine ⟨fun h => KeyMap.isSome_get?_insert h r s, ?_⟩
  by_cases heq : other = r
  · rw [heq, KeyMap.getD_insert_self]
    exact ⟨hmax, hearned⟩
  · rw [KeyMap.getD_insert_of_ne _ heq]
    exact ⟨Nat.le_refl _, Nat.le_refl _⟩

theorem removeResource (p : Player) (r : String) (x : Float) : Grown p (p.removeResource r x) := by
  obtain ⟨resources, h⟩ := p.exists_removeResource_eq r x
  rw [h]
  exact of_stats_eq rfl

theorem gain (p : Player) (r : String) (x : Float) : Grown p (p.gain r x) := by
  refine insert (r := r) rfl ?_ ?_
  · rw [Saturating.toNat_max64]
    exact Nat.le_max_left _ _
  · have hend := (p.statsOf r).earned.toNat_lt_size
    rw [Saturating.toNat_add64]
    omega

theorem addResource (p : Player) (r : String) (x : Float) : Grown p (p.addResource r x) := by
  rcases p.addResource_cases r x with h | h | ⟨_, _, h⟩
  · rw [h]
    exact refl p
  · rw [h]
    exact removeResource p r (-x)
  · rw [h]
    exact gain p r x

theorem setResource (p : Player) (r : String) (x : Float) : Grown p (p.setResource r x) := by
  refine insert (r := r) rfl ?_ (Nat.le_refl _)
  rw [Saturating.toNat_max64]
  exact Nat.le_max_left _ _

theorem bookRates (p : Player) (credited : KeyMap Float) :
    Grown p (Economy.bookRates credited p) := by
  intro r
  obtain ⟨hlisted, hmax, hearned⟩ := counters_bookRates credited p.resources.keys p.stats r
  refine ⟨hlisted, ?_, ?_⟩
  · rw [Player.statsOf, Player.statsOf, Economy.bookRates, hmax]
  · rw [Player.statsOf, Player.statsOf, Economy.bookRates, hearned]

/-- A quiet change lets neither sink. -/
theorem step (hstep : QuietStep catalog p q) : Grown p q := by
  cases hstep with
  | add r x => exact addResource p r x
  | remove r x => exact removeResource p r x
  | setBack r => exact setResource p r _
  | scale | shinies | clock => exact of_stats_eq rfl
  | rates credited => exact bookRates p credited

theorem quiet (h : Quiet catalog p q) : Grown p q := h.along Grown refl trans step

/-- No step of a game lets either sink. -/
theorem course {e : Economy} {v w : World} (hc : Course e v w) : Grown v.player w.player := by
  refine hc.along (fun v w => Grown v.player w.player) (fun w => refl w.player) trans ?_
  intro v w hstep
  cases hstep with
  | hush hquiet => exact quiet hquiet.1
  | tell hbefore hdue hafter hplayer hraised =>
    refine (quiet hbefore).trans (trans (of_stats_eq rfl) ((quiet hafter).trans (of_stats_eq ?_)))
    rw [hplayer]
    rfl

end Grown

/-! ## Every run -/

/-- **Resource accounting**: after any moves from the start of a game, the balance of a resource is
at most the greatest one so far, and that is at most the first amount and all that was earned; and
whatever moves follow, neither the greatest balance nor what was earned sinks. -/
theorem balance_le_max_le_initial_add_earned (e : Economy) (id : String) (now : UInt64)
    (evaluator : Formula.Evaluator) (moves more : List Move) (r : String) :
    let v := Move.run e moves ⟨.start id e.catalog now, [], evaluator, false⟩
    let w := Move.run e more v
    (∀ balance, v.player.resources.get? r = some balance →
      ∃ s, v.player.stats.get? r = some s ∧ balance.toNat ≤ s.max.toNat ∧
        s.max.toNat ≤ (e.catalog.initialUnits r).toNat + s.earned.toNat) ∧
      ∀ s, v.player.stats.get? r = some s →
        ∃ t, w.player.stats.get? r = some t ∧ s.max.toNat ≤ t.max.toNat ∧
          s.earned.toNat ≤ t.earned.toNat := by
  intro v w
  have hv : Accounted e.catalog v.player :=
    Accounted.course (Move.course_run e moves _) (accounted_start id e.catalog now)
  have hgrown : Grown v.player w.player := Grown.course (Move.course_run e more v)
  constructor
  · intro balance hbalance
    obtain ⟨s, hs⟩ := Option.isSome_iff_exists.mp (hv.listed r (by rw [hbalance]; rfl))
    have hle := hv.balance_le r
    have hmax := hv.max_le r
    rw [Player.statsOf, KeyMap.getD, hs, Option.getD_some] at hle hmax
    rw [Player.resource, KeyMap.getD, hbalance, Option.getD_some] at hle
    exact ⟨s, hs, hle, hmax⟩
  · intro s hs
    obtain ⟨hlisted, hmax, hearned⟩ := hgrown r
    obtain ⟨t, ht⟩ := Option.isSome_iff_exists.mp (hlisted (by rw [hs]; rfl))
    rw [Player.statsOf, Player.statsOf, KeyMap.getD, KeyMap.getD, hs, ht, Option.getD_some,
      Option.getD_some] at hmax hearned
    exact ⟨t, ht, hmax, hearned⟩

end IncrementalGame
