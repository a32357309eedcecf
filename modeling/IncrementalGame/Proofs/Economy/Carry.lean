import IncrementalGame.Proofs.Binary64.Whole
import IncrementalGame.Proofs.Economy.Course

/-!
# What is carried stays below one

A gain is split into a whole part, which is credited, and the rest, which is carried on.  The rest
is computed exactly and lies below one (`Fraction.sub_floor`), and with a rest below one the next
gain never leaves the finite numbers.  So whatever a game does, what a player carries of each
resource is a finite number from zero on and below one (`Player.Carries`).
-/

namespace IncrementalGame

open Binary64

/-- Whether a number is finite, not negative, and below one. -/
structure Fraction (x : Float) : Prop where
  finite : x.isFinite = true
  nonneg : 0 ≤ scaled x
  lt_one : scaled x < one

theorem fraction_zero : Fraction 0.0 where
  finite := by decide
  nonneg := by decide
  lt_one := lt_of_le_of_lt (show scaled 0.0 ≤ 0 by decide) natCast_one_pos

/-- What is left of a number without its whole part. -/
theorem Fraction.sub_floor {x : Float} (hfinite : x.isFinite = true) (hnonneg : 0 ≤ scaled x) :
    Fraction (x - floor x) := by
  obtain ⟨hrest, hscaled⟩ := scaled_sub_floor hfinite hnonneg
  refine ⟨hrest, ?_, ?_⟩
  · rw [hscaled]
    exact Int.emod_nonneg _ natCast_one_pos.ne'
  · rw [hscaled]
    exact Int.emod_lt_of_pos _ natCast_one_pos

/-- Whether all that a player carries is below one. -/
def Player.Carries (p : Player) : Prop := ∀ key x, p.carry.get? key = some x → Fraction x

namespace Player

variable {p : Player}

theorem Carries.getD (h : p.Carries) (key : String) : Fraction (p.carry.getD key 0.0) := by
  unfold KeyMap.getD
  cases hx : p.carry.get? key with
  | none => exact fraction_zero
  | some x => exact h key x hx

theorem Carries.insert (h : p.Carries) {q : Player} {key : String} {x : Float}
    (hq : q.carry = p.carry.insert key x) (hx : Fraction x) : q.Carries := by
  intro other y hy
  rw [hq] at hy
  by_cases heq : other = key
  · rw [heq, KeyMap.get?_insert_self] at hy
    rw [← Option.some_inj.mp hy]
    exact hx
  · rw [KeyMap.get?_insert_of_ne _ heq] at hy
    exact h other y hy

theorem Carries.of_eq (h : p.Carries) {q : Player} (hq : q.carry = p.carry) : q.Carries := by
  intro key x hx
  rw [hq] at hx
  exact h key x hx

theorem Carries.gain (h : p.Carries) (key : String) {amount : Float}
    (hfinite : amount.isFinite = true) (hnonneg : 0 ≤ scaled amount) :
    (p.gain key amount).Carries := by
  have hcarry := h.getD key
  obtain ⟨htotal, hsum⟩ :=
    isFinite_add hcarry.finite hfinite hcarry.nonneg hcarry.lt_one.le hnonneg
  exact h.insert rfl (.sub_floor htotal hsum)

theorem Carries.removeResource (h : p.Carries) (key : String) (amount : Float) :
    (p.removeResource key amount).Carries := by
  obtain ⟨resources, hremove⟩ := p.exists_removeResource_eq key amount
  rw [hremove]
  exact h.of_eq rfl

theorem Carries.addResource (h : p.Carries) (key : String) (amount : Float) :
    (p.addResource key amount).Carries := by
  rcases p.addResource_cases key amount with hadd | hadd | ⟨hfinite, hneg, hadd⟩
  · rw [hadd]
    exact h
  · rw [hadd]
    exact h.removeResource key (-amount)
  · rw [lt_iff_scaled hfinite fraction_zero.finite, not_lt] at hneg
    rw [hadd]
    exact h.gain key hfinite (le_trans fraction_zero.nonneg hneg)

/-- A first amount is finite and not negative, whatever it was declared as. -/
theorem firstAmount_spec (amount : Float) :
    let first := if amount.isFinite then greater amount 0.0 else 0.0
    first.isFinite = true ∧ 0 ≤ scaled first := by
  intro first
  by_cases hfinite : amount.isFinite = true
  · have hfirst : first = greater amount 0.0 := if_pos hfinite
    have hnumber : ¬ amount.isNaN = true := by
      rw [isNaN_iff]
      exact not_lt.mpr (isFinite_iff.mp hfinite).le
    rw [hfirst, greater, if_neg hnumber, if_neg (by decide)]
    split
    next => exact ⟨fraction_zero.finite, fraction_zero.nonneg⟩
    next hneg =>
      rw [lt_iff_scaled hfinite fraction_zero.finite, not_lt] at hneg
      exact ⟨hfinite, le_trans fraction_zero.nonneg hneg⟩
  · have hfirst : first = 0.0 := if_neg hfinite
    rw [hfirst]
    exact ⟨fraction_zero.finite, fraction_zero.nonneg⟩

theorem Carries.setResource (h : p.Carries) (key : String) (amount : Float) :
    (p.setResource key amount).Carries := by
  obtain ⟨hfinite, hnonneg⟩ := firstAmount_spec amount
  exact h.insert rfl (.sub_floor hfinite hnonneg)

/-- A new player carries only what first amounts leave. -/
theorem carries_start (id : String) (catalog : Catalog) (now : UInt64) :
    (Player.start id catalog now).Carries := by
  have hfold : ∀ (entries : List (String × Item)) (p : Player), p.Carries →
      (entries.foldl (fun p entry => p.startResource entry.1 entry.2.initial) p).Carries := by
    intro entries
    induction entries with
    | nil =>
      intro p h
      exact h
    | cons entry rest ih =>
      intro p h
      exact ih _ (Carries.setResource (h.of_eq rfl) entry.1 entry.2.initial)
  refine hfold catalog.resources.entries _ ?_
  intro key x hx
  exact absurd hx (by simp [blank])

/-! ## Along a course -/

theorem Carries.quiet {catalog : Catalog} {q : Player} (hq : Quiet catalog p q) (h : p.Carries) :
    q.Carries := by
  refine hq.preserves Player.Carries ?_ h
  intro p q hstep h
  cases hstep with
  | add resource x => exact h.addResource resource x
  | remove resource x => exact h.removeResource resource x
  | setBack resource => exact h.setResource resource _
  | scale resource factor => exact h.of_eq rfl
  | shinies shinies => exact h.of_eq rfl
  | rates credited => exact h.of_eq rfl
  | clock now => exact h.of_eq rfl

/-- **What a player carries stays below one**, whatever the game does. -/
theorem Carries.course {e : Economy} {v w : World} (hc : Course e v w) (h : v.player.Carries) :
    w.player.Carries := by
  refine hc.preserves (fun w => w.player.Carries) ?_ h
  intro v w hstep h
  cases hstep with
  | hush hquiet => exact h.quiet hquiet.1
  | @tell p q event message before due after player raised =>
    have hsettled : (p.settle event).Carries := (h.quiet before).of_eq rfl
    have hlogged := hsettled.quiet after
    rw [player]
    exact hlogged.of_eq rfl

end Player

end IncrementalGame
