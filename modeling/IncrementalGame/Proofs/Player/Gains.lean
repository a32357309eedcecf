import IncrementalGame.Proofs.Binary64.Integers
import IncrementalGame.Proofs.Player.Purses

/-!
# Gains are kept to the last fraction

An amount that is not negative is added to a purse in full, whatever is there: what does not make a
whole unit stays as the fraction that is carried (`Purse.deposit`).  So a run of such amounts changes
what a purse is worth by their sum, and as the fraction stays below one, the whole units and the
fraction can be read off that (`Purse.floor_worth`).  What was earned is booked along with the
balance and out of the same fraction: it is the balance of a purse of its own (`Player.earnings`).

All this presumes that no sum of a fraction and an amount is rounded (`Purse.Exact`) and that no
counter comes to its end.  The first hangs on the order of the amounts.  The second does not:
whether a counter comes to its end depends on what the amounts add together (`Purse.fitsAll_iff`).

* `Player.gains_kept` --- balance and fraction together grow by the sum of the amounts, and balance
  and earnings by the same whole units; any other run of the same sum credits the same.
* `Purse.exactAll_of_grid` --- nothing is rounded, in any order, where the fraction and the amounts
  are whole multiples of one power of two and not too great for it.
-/

namespace IncrementalGame

open Binary64 (toRat scaled magnitude one binade)

namespace Purse

/-- What an amount that is not negative adds: itself, or nothing if it is no finite number. -/
def deposit (x : Float) : ℚ := if x.isFinite = true then toRat x else 0

/-- What such amounts add together. -/
def deposits (xs : List Float) : ℚ := (xs.map deposit).sum

/-- Whether an amount, if it is positive, is added to the fraction without rounding. -/
def Exact (a : Purse) (x : Float) : Prop :=
  x.isFinite = true → 0 < scaled x → scaled (a.carry + x) = scaled a.carry + scaled x

/-- Whether amounts are, one after the other. -/
def ExactAll : Purse → List Float → Prop
  | _, [] => True
  | a, x :: rest => a.Exact x ∧ (a.add x).ExactAll rest

instance (a : Purse) (x : Float) : Decidable (a.Exact x) :=
  inferInstanceAs (Decidable (x.isFinite = true → 0 < scaled x → _))

instance decidableExactAll : ∀ (a : Purse) (xs : List Float), Decidable (a.ExactAll xs)
  | _, [] => .isTrue trivial
  | a, x :: rest =>
    have := decidableExactAll (a.add x) rest
    inferInstanceAs (Decidable (a.Exact x ∧ (a.add x).ExactAll rest))

variable {a b : Purse} {x : Float} {xs ys : List Float}

/-! ## What amounts add -/

theorem scaled_nonneg (hx : 0.0 ≤ x) (hfinite : x.isFinite = true) : 0 ≤ scaled x := by
  rw [← scaled_zero]
  exact (Binary64.le_iff_scaled fraction_zero.finite hfinite).mp hx

theorem deposit_nonneg (hx : 0.0 ≤ x) : 0 ≤ deposit x := by
  rw [deposit]
  split
  next hfinite => exact Binary64.toRat_nonneg (scaled_nonneg hx hfinite)
  next => exact le_rfl

/-- Only a positive amount that is finite adds something. -/
theorem add_of_not_pos (hx : 0.0 ≤ x) (h : ¬(x.isFinite = true ∧ 0 < scaled x)) :
    a.add x = a ∧ deposit x = 0 := by
  rw [deposit]
  split
  next hfinite =>
    have hzero : scaled x = 0 :=
      le_antisymm (not_lt.mp fun hpos => h ⟨hfinite, hpos⟩) (scaled_nonneg hx hfinite)
    exact ⟨add_of_zero hfinite hzero, by rw [toRat, hzero, Int.cast_zero, zero_div]⟩
  next hfinite => exact ⟨add_of_not_finite hfinite, rfl⟩

theorem deposits_cons (x : Float) (rest : List Float) :
    deposits (x :: rest) = deposit x + deposits rest := by
  rw [deposits, List.map_cons, List.sum_cons, deposits]

/-- The sum in multiples of the least positive number, as it can be evaluated. -/
theorem deposits_eq_div (xs : List Float) :
    deposits xs = ((xs.map fun x => if x.isFinite = true then scaled x else 0).sum : ℤ) / one := by
  induction xs with
  | nil => rw [List.map_nil, List.sum_nil, Int.cast_zero, zero_div, deposits, List.map_nil,
      List.sum_nil]
  | cons x rest ih =>
    rw [deposits_cons, ih, List.map_cons, List.sum_cons, Int.cast_add, add_div, deposit, toRat]
    split
    next => rfl
    next => rw [Int.cast_zero, zero_div]

theorem deposits_nonneg (hxs : ∀ x ∈ xs, 0.0 ≤ x) : 0 ≤ deposits xs := by
  refine List.sum_nonneg fun q hq => ?_
  obtain ⟨x, hmem, rfl⟩ := List.mem_map.mp hq
  exact deposit_nonneg (hxs x hmem)

theorem change_eq_deposit (hx : 0.0 ≤ x) : a.change x = deposit x := by
  rw [change, deposit]
  split
  next hfinite => rw [if_pos (Binary64.toRat_nonneg (scaled_nonneg hx hfinite))]
  next => rfl

/-- Amounts that are not negative change a purse by their sum, whatever is there. -/
theorem changes_eq_deposits (hxs : ∀ x ∈ xs, 0.0 ≤ x) : a.changes xs = deposits xs := by
  induction xs generalizing a with
  | nil => rfl
  | cons x rest ih =>
    obtain ⟨hx, hrest⟩ := List.forall_mem_cons.mp hxs
    rw [changes, change_eq_deposit hx, ih hrest, deposits_cons]

/-! ## Whole units and fraction -/

theorem toRat_lt_one (hcarry : Fraction a.carry) : toRat a.carry < 1 := by
  rw [toRat, div_lt_one Binary64.ratCast_one_pos]
  exact_mod_cast hcarry.lt_one

theorem floor_worth_add (hcarry : Fraction a.carry) {q : ℚ} (hq : 0 ≤ q) :
    ⌊a.worth + q⌋₊ = a.balance.toNat + ⌊toRat a.carry + q⌋₊ := by
  have hrest : 0 ≤ toRat a.carry + q := add_nonneg (Binary64.toRat_nonneg hcarry.nonneg) hq
  rw [worth, add_assoc, add_comm (a.balance.toNat : ℚ), Nat.floor_add_natCast hrest, add_comm]

/-- The whole units of a purse are those of what it is worth. -/
theorem floor_worth (hcarry : Fraction a.carry) : ⌊a.worth⌋₊ = a.balance.toNat := by
  have h := floor_worth_add hcarry le_rfl
  rwa [add_zero, add_zero, Nat.floor_eq_zero.mpr (toRat_lt_one hcarry), Nat.add_zero] at h

/-- So purses of one worth hold the same. -/
theorem eq_of_worth_eq (ha : Fraction a.carry) (hb : Fraction b.carry) (h : a.worth = b.worth) :
    a.balance = b.balance ∧ toRat a.carry = toRat b.carry := by
  have hbalance : a.balance = b.balance :=
    UInt64.toNat_inj.mp (by rw [← floor_worth ha, h, floor_worth hb])
  refine ⟨hbalance, ?_⟩
  rw [worth, worth, hbalance] at h
  exact add_left_cancel h

/-! ## Rounding and room -/

theorem Fits.exact (h : a.Fits x) : a.Exact x := fun hfinite hpos => (h hfinite hpos).1

/-- The whole part of a sum that is not rounded. -/
theorem floor_add_of_exact (hexact : a.Exact x) (hfinite : x.isFinite = true)
    (hpos : 0 < scaled x) : (scaled (a.carry + x) / one).toNat = ⌊toRat a.carry + deposit x⌋₊ := by
  have hsum := hexact hfinite hpos
  have hfloor : ⌊toRat (a.carry + x)⌋ = scaled (a.carry + x) / one :=
    Binary64.floor_toRat_eq_iff.mpr
      ⟨Int.ediv_mul_le _ Binary64.natCast_one_pos.ne',
        Int.lt_ediv_add_one_mul_self _ Binary64.natCast_one_pos⟩
  rw [deposit, if_pos hfinite, ← Binary64.toRat_add_of_scaled hsum, ← hfloor, Int.floor_toNat]

/-- An amount fits just if it is added without rounding and what is there then is less than the
balance can hold. -/
theorem fits_iff (hcarry : Fraction a.carry) (hx : 0.0 ≤ x) :
    a.Fits x ↔ a.Exact x ∧ ⌊a.worth + deposit x⌋₊ < UInt64.size := by
  by_cases hgain : x.isFinite = true ∧ 0 < scaled x
  · obtain ⟨hfinite, hpos⟩ := hgain
    constructor
    · intro hfits
      refine ⟨hfits.exact, ?_⟩
      rw [floor_worth_add hcarry (deposit_nonneg hx),
        ← floor_add_of_exact hfits.exact hfinite hpos]
      exact (hfits hfinite hpos).2
    · rintro ⟨hexact, hroom⟩ - -
      rw [floor_worth_add hcarry (deposit_nonneg hx),
        ← floor_add_of_exact hexact hfinite hpos] at hroom
      exact ⟨hexact hfinite hpos, hroom⟩
  · have hroom : ⌊a.worth + deposit x⌋₊ < UInt64.size := by
      rw [(add_of_not_pos (a := a) hx hgain).2, add_zero, floor_worth hcarry]
      exact a.balance.toNat_lt_size
    exact iff_of_true (fun hfinite hpos => absurd ⟨hfinite, hpos⟩ hgain)
      ⟨fun hfinite hpos => absurd ⟨hfinite, hpos⟩ hgain, hroom⟩

/-- **Whether the balance comes to its end** depends on what the amounts add together, and not on how
they are split or ordered. -/
theorem fitsAll_iff (hcarry : Fraction a.carry) (hxs : ∀ x ∈ xs, 0.0 ≤ x) :
    a.FitsAll xs ↔ a.ExactAll xs ∧ ⌊a.worth + deposits xs⌋₊ < UInt64.size := by
  -- what is there and what is still to come, together, stay the same from step to step
  induction xs generalizing a with
  | nil =>
    refine iff_of_true trivial ⟨trivial, ?_⟩
    rw [deposits, List.map_nil, List.sum_nil, add_zero, floor_worth hcarry]
    exact a.balance.toNat_lt_size
  | cons x rest ih =>
    obtain ⟨hx, hrest⟩ := List.forall_mem_cons.mp hxs
    have hworth (hfits : a.Fits x) :
        (a.add x).worth + deposits rest = a.worth + deposits (x :: rest) := by
      rw [worth_add hcarry hfits, change_eq_deposit hx, deposits_cons, add_assoc]
    rw [FitsAll, ExactAll, ih (fraction_add hcarry x) hrest]
    constructor
    · rintro ⟨hfits, hexact, hroom⟩
      rw [hworth hfits] at hroom
      exact ⟨⟨hfits.exact, hexact⟩, hroom⟩
    · rintro ⟨⟨hfirst, hexact⟩, hroom⟩
      have hle : a.worth + deposit x ≤ a.worth + deposits (x :: rest) := by
        rw [deposits_cons]
        linarith [deposits_nonneg hrest]
      have hfits : a.Fits x :=
        (fits_iff hcarry hx).mpr ⟨hfirst, (Nat.floor_mono hle).trans_lt hroom⟩
      rw [hworth hfits]
      exact ⟨hfits, hexact, hroom⟩

/-! ## Runs -/

theorem fraction_foldl (hcarry : Fraction a.carry) (xs : List Float) :
    Fraction (xs.foldl add a).carry := by
  induction xs generalizing a with
  | nil => exact hcarry
  | cons x rest ih => exact ih (fraction_add hcarry x)

/-- **A run of amounts that fit is added in full.** -/
theorem worth_foldl_eq (hcarry : Fraction a.carry) (hxs : ∀ x ∈ xs, 0.0 ≤ x)
    (hfits : a.FitsAll xs) : (xs.foldl add a).worth = a.worth + deposits xs := by
  rw [worth_foldl hcarry hfits, changes_eq_deposits hxs]

/-- It credits the whole units of its sum with the fraction that was carried. -/
theorem balance_foldl (hcarry : Fraction a.carry) (hxs : ∀ x ∈ xs, 0.0 ≤ x)
    (hfits : a.FitsAll xs) :
    (xs.foldl add a).balance.toNat = a.balance.toNat + ⌊toRat a.carry + deposits xs⌋₊ := by
  rw [← floor_worth (fraction_foldl hcarry xs), worth_foldl_eq hcarry hxs hfits,
    floor_worth_add hcarry (deposits_nonneg hxs)]

/-- **A run leaves what any other run of the same sum leaves**, if that is added without rounding. -/
theorem foldl_eq_of_deposits_eq (hcarry : Fraction a.carry) (hxs : ∀ x ∈ xs, 0.0 ≤ x)
    (hys : ∀ y ∈ ys, 0.0 ≤ y) (hfits : a.FitsAll xs) (hexact : a.ExactAll ys)
    (hsum : deposits ys = deposits xs) :
    (ys.foldl add a).balance = (xs.foldl add a).balance ∧
      toRat (ys.foldl add a).carry = toRat (xs.foldl add a).carry := by
  have hroom := ((fitsAll_iff hcarry hxs).mp hfits).2
  rw [← hsum] at hroom
  have hfits' : a.FitsAll ys := (fitsAll_iff hcarry hys).mpr ⟨hexact, hroom⟩
  refine eq_of_worth_eq (fraction_foldl hcarry ys) (fraction_foldl hcarry xs) ?_
  rw [worth_foldl_eq hcarry hys hfits', worth_foldl_eq hcarry hxs hfits, hsum]

/-! ## Purses with one fraction -/

/-- What is carried on does not hang on the balance. -/
theorem carry_add_congr (h : a.carry = b.carry) (x : Float) : (a.add x).carry = (b.add x).carry := by
  rw [add, add]
  split
  next => exact h
  next =>
    split
    next => exact h
    next => rw [h]

/-- So neither does whether amounts are rounded. -/
theorem ExactAll.congr (hexact : a.ExactAll xs) (h : a.carry = b.carry) : b.ExactAll xs := by
  induction xs generalizing a b with
  | nil => trivial
  | cons x rest ih =>
    obtain ⟨hfirst, hrest⟩ := hexact
    refine ⟨?_, ih hrest (carry_add_congr h x)⟩
    rw [Exact, ← h]
    exact hfirst

/-! ## Where nothing is rounded -/

/-- Whether a number is a whole multiple of `2 ^ j` times the least positive one, and not so great
that the sum with a fraction could have too many digits.  For `j = 1064` these are the multiples of
`2 ^ -10` up to `2 ^ 43 - 1`. -/
structure OnGrid (j : ℕ) (x : Float) : Prop where
  /-- It is a multiple. -/
  dvd : 2 ^ j ∣ magnitude x
  /-- It leaves room for one more. -/
  le : magnitude x + one ≤ 2 * binade * 2 ^ j

section

variable {j : ℕ} (hone : 2 ^ j ∣ one)

include hone

theorem exact_of_grid (hcarry : Fraction a.carry) (hgrid : 2 ^ j ∣ magnitude a.carry)
    (hon : OnGrid j x) : a.Exact x := by
  intro hfinite hpos
  have hsum : (scaled a.carry + scaled x).natAbs = magnitude a.carry + magnitude x := by
    rw [Binary64.scaled_eq_magnitude hcarry.nonneg, Binary64.scaled_eq_magnitude hpos.le]
    omega
  -- the sum is a multiple too, and of so few that it keeps all its digits
  obtain ⟨m, hm⟩ := Nat.dvd_add hgrid hon.dvd
  rw [Nat.mul_comm] at hm
  have hlt : m < 2 * binade := by
    have hbelow := hcarry.lt_one
    rw [Binary64.scaled_eq_magnitude hcarry.nonneg] at hbelow
    have hle := hon.le
    exact Nat.lt_of_mul_lt_mul_right (a := 2 ^ j) (by omega)
  refine ((Binary64.nearest_add hcarry.finite hfinite).scaled_eq ?_ ?_).2
  · exact ⟨m, j, hlt, hsum.trans hm⟩
  · rw [hsum, hm]
    refine lt_of_le_of_lt (Nat.mul_le_mul_left m (Nat.le_of_dvd Binary64.one_pos hone)) ?_
    exact Binary64.mul_one_lt hlt.le

/-- The fraction stays on the grid. -/
theorem dvd_carry_add (hcarry : Fraction a.carry) (hgrid : 2 ^ j ∣ magnitude a.carry)
    (hx : 0.0 ≤ x) (hon : OnGrid j x) : 2 ^ j ∣ magnitude (a.add x).carry := by
  by_cases hgain : x.isFinite = true ∧ 0 < scaled x
  · obtain ⟨hfinite, hpos⟩ := hgain
    obtain ⟨htotal, hnonneg⟩ :=
      Binary64.isFinite_add hcarry.finite hfinite hcarry.nonneg hcarry.lt_one.le hpos.le
    have hrest : (magnitude (a.add x).carry : ℤ) =
        ((magnitude a.carry + magnitude x) % one : ℕ) := by
      rw [add_of_pos hfinite hpos,
        ← Binary64.scaled_eq_magnitude (Fraction.sub_floor htotal hnonneg).nonneg,
        (Binary64.scaled_sub_floor htotal hnonneg).2,
        exact_of_grid hone hcarry hgrid hon hfinite hpos,
        Binary64.scaled_eq_magnitude hcarry.nonneg, Binary64.scaled_eq_magnitude hpos.le]
      push_cast
      rfl
    rw [Int.natCast_inj.mp hrest, Nat.dvd_mod_iff hone]
    exact Nat.dvd_add hgrid hon.dvd
  · rw [(add_of_not_pos hx hgain).1]
    exact hgrid

/-- **On a grid nothing is rounded**, in whatever order amounts are added. -/
theorem exactAll_of_grid (hcarry : Fraction a.carry) (hgrid : 2 ^ j ∣ magnitude a.carry)
    (hxs : ∀ x ∈ xs, 0.0 ≤ x ∧ OnGrid j x) : a.ExactAll xs := by
  induction xs generalizing a with
  | nil => trivial
  | cons x rest ih =>
    obtain ⟨⟨hx, hon⟩, hrest⟩ := List.forall_mem_cons.mp hxs
    exact ⟨exact_of_grid hone hcarry hgrid hon,
      ih (fraction_add hcarry x) (dvd_carry_add hone hcarry hgrid hx hon) hrest⟩

end

end Purse

/-! ## Players -/

namespace Player

/-- What a player has earned of a resource, with the fraction that is carried. -/
def earnings (p : Player) (resource : String) : Purse :=
  ⟨(p.statsOf resource).earned, p.carry.getD resource 0.0⟩

/-- A player to whom amounts of a resource were added, one after the other. -/
def addEach (p : Player) (resource : String) (amounts : List Float) : Player :=
  amounts.foldl (fun p x => p.addResource resource x) p

variable (p : Player) (resource : String)

/-- What is added to a purse is booked as earned in the same way. -/
theorem earnings_addResource {x : Float} (hx : 0.0 ≤ x) :
    (p.addResource resource x).earnings resource = (p.earnings resource).add x := by
  rw [addResource, Purse.add]
  split
  next => rfl
  next hadded =>
    have hfinite : x.isFinite = true := by
      by_contra h
      exact hadded (by rw [(Bool.not_eq_true _).mp h]; rfl)
    have hnot : ¬x < 0.0 := by
      rw [Binary64.lt_iff_scaled hfinite fraction_zero.finite, not_lt, Purse.scaled_zero]
      exact Purse.scaled_nonneg hx hfinite
    rw [if_neg hnot, if_neg hnot, gain, earnings, earnings, statsOf]
    simp only [KeyMap.getD_insert_self]

theorem purse_addEach (xs : List Float) :
    (p.addEach resource xs).purse resource = xs.foldl Purse.add (p.purse resource) := by
  rw [addEach]
  induction xs generalizing p with
  | nil => rfl
  | cons x rest ih => rw [List.foldl_cons, ih, purse_addResource_self, List.foldl_cons]

theorem earnings_addEach {xs : List Float} (hxs : ∀ x ∈ xs, 0.0 ≤ x) :
    (p.addEach resource xs).earnings resource = xs.foldl Purse.add (p.earnings resource) := by
  rw [addEach]
  induction xs generalizing p with
  | nil => rfl
  | cons x rest ih =>
    obtain ⟨hx, hrest⟩ := List.forall_mem_cons.mp hxs
    rw [List.foldl_cons, ih _ hrest, earnings_addResource p resource hx, List.foldl_cons]

/-- **Gains are kept.**  Let amounts that are not negative be added to a player who carries a fraction
of their resource, so that nothing is rounded and neither the balance nor what was earned comes to
its end.  Then balance and fraction together have grown by the sum of the amounts, what is carried is
a fraction again, and balance and earnings have grown by the same whole units, those of the sum with
the fraction.  Whatever other amounts have the same sum and are added without rounding, in parts and
in any order, leave the same balance, earnings and fraction. -/
theorem gains_kept (xs : List Float) (hcarry : Fraction (p.carry.getD resource 0.0))
    (hxs : ∀ x ∈ xs, 0.0 ≤ x) (hbalance : (p.purse resource).FitsAll xs)
    (hearned : (p.earnings resource).FitsAll xs) :
    let q := p.addEach resource xs
    let units := ⌊toRat (p.carry.getD resource 0.0) + Purse.deposits xs⌋₊
    (q.purse resource).worth = (p.purse resource).worth + Purse.deposits xs ∧
      Fraction (q.carry.getD resource 0.0) ∧
      (q.resource resource).toNat = (p.resource resource).toNat + units ∧
      (q.statsOf resource).earned.toNat = (p.statsOf resource).earned.toNat + units ∧
      ∀ ys : List Float, (∀ y ∈ ys, 0.0 ≤ y) → (p.purse resource).ExactAll ys →
        Purse.deposits ys = Purse.deposits xs →
        let r := p.addEach resource ys
        r.resource resource = q.resource resource ∧
          (r.statsOf resource).earned = (q.statsOf resource).earned ∧
          toRat (r.carry.getD resource 0.0) = toRat (q.carry.getD resource 0.0) := by
  intro q units
  have hpurse : q.purse resource = xs.foldl Purse.add (p.purse resource) :=
    p.purse_addEach resource xs
  have hearnings : q.earnings resource = xs.foldl Purse.add (p.earnings resource) :=
    p.earnings_addEach resource hxs
  refine ⟨?worth, ?fraction, ?balance, ?earned, fun ys hys hexact hsum => ?split⟩
  case worth => rw [hpurse, Purse.worth_foldl_eq hcarry hxs hbalance]
  case fraction =>
    have hrest := Purse.fraction_foldl (a := p.purse resource) hcarry xs
    rwa [← hpurse] at hrest
  case balance =>
    have hunits := Purse.balance_foldl hcarry hxs hbalance
    rwa [← hpurse] at hunits
  case earned =>
    have hunits := Purse.balance_foldl hcarry hxs hearned
    rwa [← hearnings] at hunits
  case split =>
    obtain ⟨hsame, hrest⟩ :=
      Purse.foldl_eq_of_deposits_eq hcarry hxs hys hbalance hexact hsum
    -- balance and earnings share the fraction, so what is exact for one is for the other
    have hexact' : (p.earnings resource).ExactAll ys := hexact.congr rfl
    obtain ⟨hsame', -⟩ :=
      Purse.foldl_eq_of_deposits_eq hcarry hxs hys hearned hexact' hsum
    rw [← hpurse, ← p.purse_addEach resource ys] at hsame hrest
    rw [← hearnings, ← p.earnings_addEach resource hys] at hsame'
    exact ⟨hsame, hsame', hrest⟩

/-- A player who starts with half a piece of wood. -/
def lumberjack : Player := blank.startResource "wood" 0.5

/-- Amounts of wood, one of them zero and one with all the digits that a number has. -/
def felled : List Float := [0.75, 0.0, 0.75, 9007199254740992.0]

/-- As much wood in two other parts. -/
def hauled : List Float := [2251799813685248.5, 6755399441055745.0]

/-- The lumberjack has as much of it either way, down to the fraction. -/
theorem gains_kept_of_lumberjack :
    let q := lumberjack.addEach "wood" felled
    let r := lumberjack.addEach "wood" hauled
    Fraction (lumberjack.carry.getD "wood" 0.0) ∧ (∀ x ∈ felled, 0.0 ≤ x) ∧
      (lumberjack.purse "wood").FitsAll felled ∧ (lumberjack.earnings "wood").FitsAll felled ∧
      (q.purse "wood").worth = (lumberjack.purse "wood").worth + Purse.deposits felled ∧
      q.resource "wood" = 9007199254740994 ∧ r.resource "wood" = 9007199254740994 ∧
      (r.statsOf "wood").earned = (q.statsOf "wood").earned := by
  intro q r
  have hcarry : Fraction (lumberjack.carry.getD "wood" 0.0) :=
    ⟨by decide +kernel, by decide +kernel, by decide +kernel⟩
  have hfelled : ∀ x ∈ felled, 0.0 ≤ x := by decide +kernel
  have hbalance : (lumberjack.purse "wood").FitsAll felled := by decide +kernel
  have hearned : (lumberjack.earnings "wood").FitsAll felled := by decide +kernel
  have hunits : q.resource "wood" = 9007199254740994 := by decide +kernel
  obtain ⟨hworth, -, -, -, hsplit⟩ :=
    gains_kept lumberjack "wood" felled hcarry hfelled hbalance hearned
  have hsum : Purse.deposits hauled = Purse.deposits felled := by
    rw [Purse.deposits_eq_div, Purse.deposits_eq_div]
    exact congrArg (fun n : ℤ => (n : ℚ) / one) (by decide +kernel)
  obtain ⟨hsame, hsame', -⟩ := hsplit hauled (by decide +kernel) (by decide +kernel) hsum
  exact ⟨hcarry, hfelled, hbalance, hearned, hworth, hunits, hsame.trans hunits, hsame'⟩

/-- In this order the half is rounded away, and one piece of wood is missing. -/
example : (lumberjack.addEach "wood" [9007199254740992.0, 0.75, 0.75]).purse "wood" =
    ⟨9007199254740993, 0.5⟩ := by decide +kernel

end Player

end IncrementalGame
