import Mathlib.Tactic.Common
import IncrementalGame.Proofs.Economy.Actions
import IncrementalGame.Proofs.KeyMap

/-!
# Multipliers and rates

The multiplier of each resource and the rate in its statistics are numbers that nothing keeps
finite, but few things change them.  A new player has multipliers of one and rates of zero
(`hasFiniteRates_start`), and to buy and to sell leaves all of them as they are (`sameRates_buy`,
`sameRates_sell`).
-/

namespace IncrementalGame

/-- Whether the multipliers of a player and the rates in its statistics are finite. -/
def Player.hasFiniteRates (p : Player) : Bool :=
  p.multipliers.entries.all (fun e => e.2.isFinite) &&
    p.stats.entries.all fun e => e.2.perTick.isFinite

theorem Player.hasFiniteRates_iff {p : Player} :
    p.hasFiniteRates = true ↔ (∀ e ∈ p.multipliers.entries, e.2.isFinite = true) ∧
      ∀ key, (p.statsOf key).perTick.isFinite = true := by
  rw [hasFiniteRates, Bool.and_eq_true, List.all_eq_true, List.all_eq_true]
  refine and_congr_right fun _ => ⟨fun h key => ?_, fun h e he => ?_⟩
  · rw [statsOf, KeyMap.getD]
    cases hstats : p.stats.get? key with
    | none => decide
    | some stats => exact h (key, stats) (KeyMap.mem_entries_iff.mpr hstats)
  · have hstats := h e.1
    rw [statsOf, KeyMap.getD, KeyMap.mem_entries_iff.mp he] at hstats
    exact hstats

/-- Whether two players have the same multipliers and the same rates. -/
structure SameRates (p q : Player) : Prop where
  multipliers : q.multipliers = p.multipliers
  perTick : ∀ key, (q.statsOf key).perTick = (p.statsOf key).perTick

namespace SameRates

variable {p q : Player}

theorem hasFiniteRates (h : SameRates p q) (hp : p.hasFiniteRates = true) :
    q.hasFiniteRates = true := by
  rw [Player.hasFiniteRates_iff] at hp ⊢
  constructor
  · rw [h.multipliers]
    exact hp.1
  · intro key
    rw [h.perTick key]
    exact hp.2 key

theorem refl (p : Player) : SameRates p p := ⟨rfl, fun _ => rfl⟩

theorem trans {r : Player} (hpq : SameRates p q) (hqr : SameRates q r) : SameRates p r :=
  ⟨hqr.multipliers.trans hpq.multipliers, fun key => (hqr.perTick key).trans (hpq.perTick key)⟩

theorem of_eq (hmultipliers : q.multipliers = p.multipliers) (hstats : q.stats = p.stats) :
    SameRates p q := by
  refine ⟨hmultipliers, fun key => ?_⟩
  rw [Player.statsOf, Player.statsOf, hstats]

theorem foldl {α : Type} {f : Player → α → Player} (h : ∀ p a, SameRates p (f p a))
    (l : List α) (p : Player) : SameRates p (l.foldl f p) := by
  induction l generalizing p with
  | nil => exact refl p
  | cons a rest ih => exact (h p a).trans (ih (f p a))

/-- Statistics are written over by some with the same rate. -/
theorem insert (key : String) {stats : ResourceStats} (hmultipliers : q.multipliers = p.multipliers)
    (hstats : q.stats = p.stats.insert key stats)
    (hrate : stats.perTick = (p.statsOf key).perTick) : SameRates p q := by
  refine ⟨hmultipliers, fun other => ?_⟩
  by_cases heq : other = key
  · rw [Player.statsOf, hstats, heq, KeyMap.getD_insert_self, hrate]
  · rw [Player.statsOf, hstats, KeyMap.getD_insert_of_ne _ heq, Player.statsOf]

theorem removeResource (p : Player) (key : String) (amount : Float) :
    SameRates p (p.removeResource key amount) := by
  obtain ⟨resources, h⟩ := p.exists_removeResource_eq key amount
  rw [h]
  exact of_eq rfl rfl

theorem addResource (p : Player) (key : String) (amount : Float) :
    SameRates p (p.addResource key amount) := by
  rcases p.addResource_cases key amount with h | h | ⟨_, _, h⟩
  · rw [h]
    exact refl p
  · rw [h]
    exact removeResource p key (-amount)
  · rw [h]
    exact insert key rfl rfl rfl

theorem addAll (amounts : KeyMap Float) (p : Player) :
    SameRates p (amounts.foldl Player.addResource p) := by
  refine foldl ?_ amounts.entries p
  intro p e
  exact addResource p e.1 e.2

theorem setResource (p : Player) (key : String) (amount : Float) :
    SameRates p (p.setResource key amount) := insert key rfl rfl rfl

theorem spend {cost : KeyMap Float} (h : p.spend cost = .ok q) : SameRates p q := by
  unfold Player.spend at h
  split at h
  · exact absurd h (by simp)
  · rw [← Except.ok.inj h]
    refine foldl ?_ cost.entries p
    intro p e
    exact removeResource p e.1 e.2

end SameRates

/-! ## New players -/

/-- A new player has multipliers of one and rates of zero. -/
theorem Player.hasFiniteRates_start (id : String) (catalog : Catalog) (now : UInt64) :
    (Player.start id catalog now).hasFiniteRates = true := by
  have hfold : ∀ (entries : List (String × Item)) (p : Player), p.hasFiniteRates = true →
      (entries.foldl (fun p entry => p.startResource entry.1 entry.2.initial) p).hasFiniteRates =
        true := by
    intro entries
    induction entries with
    | nil =>
      intro p h
      exact h
    | cons entry rest ih =>
      intro p h
      refine ih _ ((SameRates.setResource _ entry.1 entry.2.initial).hasFiniteRates ?_)
      rw [hasFiniteRates_iff] at h ⊢
      constructor
      · intro other hother
        rw [KeyMap.mem_entries_iff] at hother
        by_cases heq : other.1 = entry.1
        · rw [heq, KeyMap.get?_insert_self] at hother
          rw [← Option.some_inj.mp hother]
          decide
        · rw [KeyMap.get?_insert_of_ne _ heq, ← KeyMap.mem_entries_iff] at hother
          exact h.1 other hother
      · intro key
        by_cases heq : key = entry.1
        · rw [statsOf, heq, KeyMap.getD_insert_self]
          decide
        · rw [statsOf, KeyMap.getD_insert_of_ne _ heq]
          exact h.2 key
  exact hfold catalog.resources.entries _ (by rfl)

/-! ## Trade -/

namespace Economy

variable (e : Economy) (w : World)

/-- A purchase leaves multipliers and rates alone. -/
theorem sameRates_buy (key : String) : SameRates w.player (e.buy key w).2.player := by
  rcases e.buy_cases key with ⟨upgrade, _, hbuy⟩ | ⟨building, _, _, hbuy⟩ | hbuy
  · rw [hbuy]
    rcases e.buyUpgrade_cases upgrade w with ⟨refusal, h⟩ | ⟨q, _, _, hspend, h⟩
    · rw [h]
      exact .refl w.player
    · rw [h]
      exact (SameRates.spend hspend).trans (.of_eq rfl rfl)
  · rw [hbuy]
    rcases e.buyBuilding_cases building w with ⟨refusal, h⟩ | ⟨q, _, hspend, h⟩
    · rw [h]
      exact .refl w.player
    · rw [h]
      exact (SameRates.spend hspend).trans (.of_eq rfl rfl)
  · rw [hbuy]
    exact .refl w.player

/-- A sale leaves multipliers and rates alone. -/
theorem sameRates_sell (key : String) : SameRates w.player (e.sell key w).2.player := by
  rcases e.sell_cases w key with ⟨refusal, h⟩ | ⟨item, p, _, _, hp, h⟩
  · rw [h]
    exact .refl w.player
  · rw [h]
    have hrefund : SameRates w.player p := hp ▸ .addAll _ w.player
    exact hrefund.trans (.of_eq rfl rfl)

end Economy

end IncrementalGame
