import IncrementalGame.Proofs.Binary64.Comparison
import IncrementalGame.Proofs.Economy.Carry
import IncrementalGame.Proofs.Economy.Prices

/-!
# What an amount is worth

Of each resource a player has a purse: a balance of whole units and the fraction that is carried.
Amounts of other resources do not touch it, so all that is added to a player comes down to amounts
added to purses (`Player.purse_addAll`).

What a purse is worth is the sum of both, as an exact number.  `Purse.change` says what an amount
changes about it: an amount that is not negative is added in full, one that is negative is taken in
whole units and not below zero, and what is no finite number changes nothing (`Purse.worth_add`).
This presumes that the sum of the fraction and the amount is a binary64 number and that the balance
does not come to its end (`Purse.Fits`); a run of amounts changes what is there by what each of them
changes (`Purse.worth_foldl`).
-/

namespace IncrementalGame

open Binary64 (toRat scaled one floor)

/-- What a player has of one resource. -/
structure Purse where
  /-- The whole units. -/
  balance : UInt64
  /-- The fraction that is carried. -/
  carry : Float
  deriving DecidableEq

/-- What a player has of a resource. -/
def Player.purse (p : Player) (resource : String) : Purse :=
  ⟨p.resource resource, p.carry.getD resource 0.0⟩

namespace Purse

/-- A purse to which an amount was added, as it is added to a player. -/
def add (a : Purse) (x : Float) : Purse :=
  if !x.isFinite || x == 0.0 then a
  else if x < 0.0 then { a with balance := Saturating.sub64 a.balance (costUnits (-x)) }
  else
    let total := a.carry + x
    ⟨Saturating.add64 a.balance (floor total).toUInt64, total - floor total⟩

/-- What is in a purse. -/
def worth (a : Purse) : ℚ := a.balance.toNat + toRat a.carry

theorem scaled_zero : scaled 0.0 = 0 := by decide +kernel

/-- A purse without a fraction is worth its units. -/
theorem worth_units (n : UInt64) : worth ⟨n, 0.0⟩ = n.toNat := by
  rw [worth, toRat, scaled_zero, Int.cast_zero, zero_div, add_zero]

/-- What an amount changes about what is in a purse. -/
def change (a : Purse) (x : Float) : ℚ :=
  if x.isFinite = true then
    if 0 ≤ toRat x then toRat x else -(min a.balance.toNat ⌈-toRat x⌉₊ : ℕ)
  else 0

/-- What amounts change about it, one after the other. -/
def changes : Purse → List Float → ℚ
  | _, [] => 0
  | a, x :: rest => a.change x + (a.add x).changes rest

/-- Whether an amount, if it is positive, is added without rounding, and the balance does not come to
its end. -/
def Fits (a : Purse) (x : Float) : Prop :=
  x.isFinite = true → 0 < scaled x →
    scaled (a.carry + x) = scaled a.carry + scaled x ∧
      a.balance.toNat + (scaled (a.carry + x) / one).toNat < UInt64.size

/-- Whether amounts do so, one after the other. -/
def FitsAll : Purse → List Float → Prop
  | _, [] => True
  | a, x :: rest => a.Fits x ∧ (a.add x).FitsAll rest

instance (a : Purse) (x : Float) : Decidable (a.Fits x) :=
  inferInstanceAs (Decidable (x.isFinite = true → 0 < scaled x → _ ∧ _))

instance decidableFitsAll : ∀ (a : Purse) (xs : List Float), Decidable (a.FitsAll xs)
  | _, [] => .isTrue trivial
  | a, x :: rest =>
    have := decidableFitsAll (a.add x) rest
    inferInstanceAs (Decidable (a.Fits x ∧ (a.add x).FitsAll rest))

/-! ## One amount -/

variable {a : Purse} {x : Float}

/-- What is no finite number is ignored. -/
theorem add_of_not_finite (h : ¬x.isFinite = true) : a.add x = a := by
  rw [add, (Bool.not_eq_true _).mp h]
  rfl

theorem add_of_zero (h : x.isFinite = true) (hzero : scaled x = 0) : a.add x = a := by
  have hbeq : (x == 0.0) = true :=
    (Binary64.beq_iff_scaled h fraction_zero.finite).mpr (hzero.trans scaled_zero.symm)
  rw [add, hbeq, Bool.or_true, if_pos rfl]

theorem add_of_neg (h : x.isFinite = true) (hneg : scaled x < 0) :
    a.add x = { a with balance := Saturating.sub64 a.balance (costUnits (-x)) } := by
  have hbeq : ¬(x == 0.0) = true := by
    rw [Binary64.beq_iff_scaled h fraction_zero.finite, scaled_zero]
    exact hneg.ne
  have hlt : x < 0.0 := by
    rw [Binary64.lt_iff_scaled h fraction_zero.finite, scaled_zero]
    exact hneg
  rw [add, h, (Bool.not_eq_true _).mp hbeq, if_neg (by decide), if_pos hlt]

theorem add_of_pos (h : x.isFinite = true) (hpos : 0 < scaled x) :
    a.add x = ⟨Saturating.add64 a.balance (floor (a.carry + x)).toUInt64,
      a.carry + x - floor (a.carry + x)⟩ := by
  have hbeq : ¬(x == 0.0) = true := by
    rw [Binary64.beq_iff_scaled h fraction_zero.finite, scaled_zero]
    exact hpos.ne'
  have hlt : ¬x < 0.0 := by
    rw [Binary64.lt_iff_scaled h fraction_zero.finite, scaled_zero]
    exact hpos.le.not_gt
  rw [add, h, (Bool.not_eq_true _).mp hbeq, if_neg (by decide), if_neg hlt]

/-! ## What it is worth -/

/-- An amount that is not negative leaves a fraction to be carried. -/
theorem fraction_add (hcarry : Fraction a.carry) (x : Float) : Fraction (a.add x).carry := by
  by_cases hfinite : x.isFinite = true
  · rcases lt_trichotomy (scaled x) 0 with hneg | hzero | hpos
    · rw [add_of_neg hfinite hneg]
      exact hcarry
    · rw [add_of_zero hfinite hzero]
      exact hcarry
    · obtain ⟨htotal, hnonneg⟩ :=
        Binary64.isFinite_add hcarry.finite hfinite hcarry.nonneg hcarry.lt_one.le hpos.le
      rw [add_of_pos hfinite hpos]
      exact .sub_floor htotal hnonneg
  · rw [add_of_not_finite hfinite]
    exact hcarry

/-- What a positive amount adds to the balance, if that does not come to its end: the whole part
of the sum with the fraction that was carried. -/
theorem balance_add_of_pos (hcarry : Fraction a.carry) (hfinite : x.isFinite = true)
    (hpos : 0 < scaled x)
    (hroom : a.balance.toNat + (scaled (a.carry + x) / one).toNat < UInt64.size) :
    (a.add x).balance.toNat = a.balance.toNat + (scaled (a.carry + x) / one).toNat := by
  obtain ⟨htotal, hnonneg⟩ :=
    Binary64.isFinite_add hcarry.finite hfinite hcarry.nonneg hcarry.lt_one.le hpos.le
  rw [UInt64.size] at hroom
  rw [add_of_pos hfinite hpos, Saturating.toNat_add64,
    Binary64.toNat_toUInt64_floor htotal hnonneg, UInt64.size]
  omega

/-- What is carried then is the rest of that sum. -/
theorem toRat_carry_add_of_pos (hcarry : Fraction a.carry) (hfinite : x.isFinite = true)
    (hpos : 0 < scaled x) :
    toRat (a.add x).carry = ((scaled (a.carry + x) % one : ℤ) : ℚ) / one := by
  obtain ⟨htotal, hnonneg⟩ :=
    Binary64.isFinite_add hcarry.finite hfinite hcarry.nonneg hcarry.lt_one.le hpos.le
  rw [add_of_pos hfinite hpos, toRat, (Binary64.scaled_sub_floor htotal hnonneg).2]

/-- A positive amount that fits is added in full. -/
theorem worth_add_of_pos (hcarry : Fraction a.carry) (hfits : a.Fits x) (hfinite : x.isFinite = true)
    (hpos : 0 < scaled x) : (a.add x).worth = a.worth + toRat x := by
  obtain ⟨hexact, hroom⟩ := hfits hfinite hpos
  have hunits : 0 ≤ scaled (a.carry + x) / one := by
    rw [hexact]
    exact Int.ediv_nonneg (Int.add_nonneg hcarry.nonneg hpos.le) Binary64.natCast_one_pos.le
  have hcast : (((scaled (a.carry + x) / one).toNat : ℕ) : ℚ) =
      ((scaled (a.carry + x) / one : ℤ) : ℚ) := by
    exact_mod_cast Int.toNat_of_nonneg hunits
  calc (a.add x).worth
      = a.balance.toNat + ((scaled (a.carry + x) / one : ℤ) +
          ((scaled (a.carry + x) % one : ℤ) : ℚ) / one) := by
        rw [worth, balance_add_of_pos hcarry hfinite hpos hroom,
          toRat_carry_add_of_pos hcarry hfinite hpos, Nat.cast_add, hcast, add_assoc]
    _ = a.balance.toNat + toRat (a.carry + x) := by rw [← Binary64.toRat_eq_ediv_add_emod]
    _ = a.worth + toRat x := by rw [Binary64.toRat_add_of_scaled hexact, worth, add_assoc]

/-- A negative amount is taken in whole units, and not below zero. -/
theorem worth_add_of_neg (hfinite : x.isFinite = true) (hneg : scaled x < 0) :
    (a.add x).worth = a.worth - (min a.balance.toNat ⌈-toRat x⌉₊ : ℕ) := by
  obtain ⟨hopposite, hscaled⟩ := Binary64.scaled_neg hfinite
  have htoRat : toRat (-x) = -toRat x := by
    rw [toRat, toRat, hscaled, Int.cast_neg, neg_div]
  have hdue := toNat_costUnits hopposite
  rw [htoRat] at hdue
  have hlt := a.balance.toNat_lt
  have htaken : (a.add x).balance.toNat + min a.balance.toNat ⌈-toRat x⌉₊ = a.balance.toNat := by
    rw [add_of_neg hfinite hneg, Saturating.toNat_sub64, hdue]
    omega
  have hcast : ((a.add x).balance.toNat : ℚ) + (min a.balance.toNat ⌈-toRat x⌉₊ : ℕ) =
      a.balance.toNat := by exact_mod_cast htaken
  have hcarry : (a.add x).carry = a.carry := by rw [add_of_neg hfinite hneg]
  rw [worth, worth, hcarry, ← hcast]
  ring

/-- **What an amount changes about a purse.** -/
theorem worth_add (hcarry : Fraction a.carry) (hfits : a.Fits x) :
    (a.add x).worth = a.worth + a.change x := by
  rw [change]
  split
  next hfinite =>
    split
    next hnonneg =>
      rcases (Binary64.toRat_nonneg_iff.mp hnonneg).lt_or_eq with hpos | hzero
      · exact worth_add_of_pos hcarry hfits hfinite hpos
      · rw [add_of_zero hfinite hzero.symm, toRat, ← hzero, Int.cast_zero, zero_div, add_zero]
    next hnonneg =>
      have hneg : scaled x < 0 := not_le.mp (mt Binary64.toRat_nonneg_iff.mpr hnonneg)
      rw [worth_add_of_neg hfinite hneg, sub_eq_add_neg]
  next hfinite => rw [add_of_not_finite hfinite, add_zero]

/-- **What a run of amounts changes about a purse** is what each of them changes. -/
theorem worth_foldl {xs : List Float} (hcarry : Fraction a.carry) (hfits : a.FitsAll xs) :
    (xs.foldl add a).worth = a.worth + a.changes xs := by
  induction xs generalizing a with
  | nil => rw [changes, add_zero]; rfl
  | cons x rest ih =>
    obtain ⟨hfirst, hrest⟩ := hfits
    rw [List.foldl_cons, ih (fraction_add hcarry x) hrest, worth_add hcarry hfirst, changes,
      add_assoc]

/-- **An amount changes as much as it is** just if it is not negative, or a whole number of units
that are there to be taken. -/
theorem change_eq_toRat_iff (hfinite : x.isFinite = true) :
    a.change x = toRat x ↔ 0 ≤ toRat x ∨ ∃ n : ℕ, n ≤ a.balance.toNat ∧ toRat x = -n := by
  rw [change, if_pos hfinite]
  split
  next hnonneg => exact iff_of_true rfl (.inl hnonneg)
  next hnonneg =>
    constructor
    · intro h
      exact .inr ⟨_, Nat.min_le_left _ _, h.symm⟩
    · rintro (h | ⟨n, hle, h⟩)
      · exact absurd h hnonneg
      · rw [h, neg_neg, Nat.ceil_natCast, Nat.min_eq_right hle]

end Purse

/-! ## Purses of players -/

namespace Player

variable (p : Player) {resource : String}

theorem purse_addResource_self (resource : String) (x : Float) :
    (p.addResource resource x).purse resource = (p.purse resource).add x := by
  rw [addResource, Purse.add]
  split
  next => rfl
  next =>
    split
    next =>
      rw [removeResource, purse, purse, Player.resource, Player.resource]
      cases hbalance : p.resources.get? resource with
      | none =>
        have hzero : Saturating.sub64 0 (costUnits (-x)) = 0 :=
          UInt64.toNat_inj.mp (by rw [Saturating.toNat_sub64]; exact Nat.zero_sub _)
        simp only [KeyMap.getD, hbalance, Option.getD_none, hzero]
      | some balance =>
        simp only [KeyMap.getD, hbalance, KeyMap.get?_insert_self, Option.getD_some]
    next =>
      rw [gain, purse, purse, Player.resource]
      simp only [KeyMap.getD_insert_self]

theorem purse_addResource_of_ne {key : String} (h : resource ≠ key) (x : Float) :
    (p.addResource key x).purse resource = p.purse resource := by
  obtain ⟨hresources, hcarry, -⟩ := p.get?_addResource_of_ne h x
  rw [purse, purse, Player.resource, Player.resource, KeyMap.getD, KeyMap.getD, KeyMap.getD,
    KeyMap.getD, hresources, hcarry]

/-- **Of amounts that are added, a purse gets the one of its resource.** -/
theorem purse_addAll (amounts : KeyMap Float) (resource : String) :
    (amounts.foldl addResource p).purse resource =
      (amounts.get? resource).toList.foldl Purse.add (p.purse resource) := by
  obtain ⟨entries, hascending⟩ := amounts
  show (entries.foldl (fun p entry => p.addResource entry.1 entry.2) p).purse resource =
    (KeyMap.lookup resource entries).toList.foldl Purse.add (p.purse resource)
  induction entries generalizing p with
  | nil => rfl
  | cons entry entries ih =>
    obtain ⟨key, x⟩ := entry
    rw [List.foldl_cons, ih _ hascending.of_cons]
    by_cases heq : key = resource
    · subst heq
      -- the keys ascend, so there is no other amount of the resource
      have hlater : KeyMap.lookup key entries = none :=
        KeyMap.lookup_eq_none_of_lt fun later hmem => List.rel_of_pairwise_cons hascending hmem
      rw [hlater, purse_addResource_self]
      simp [KeyMap.lookup]
    · rw [purse_addResource_of_ne _ (Ne.symm heq)]
      simp [KeyMap.lookup, heq]

end Player

end IncrementalGame
