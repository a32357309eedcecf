import IncrementalGame.Proofs.Binary64.Exact
import IncrementalGame.Proofs.Economy.AllOrNothing

/-!
# What a building costs

The next building costs its base cost for each one that will be owned then.  What is asked for and
taken is not that product but the binary64 number nearest to it, rounded up to whole units, and no
more than the greatest balance.

So the price is exact up to one part in `2 ^ 53`, and where the product is a binary64 number and not
beyond all balances, no balance falls short of it (`Charged`).  But a player gets a building with
less than its exact price where that is rounded down or beyond all balances, and for nothing where
it is too great for any binary64 number, a case that `Charged` leaves open.
-/

namespace IncrementalGame

open Binary64 (toRat scaled)

/-! ## Whole units -/

/-- **What is due of a finite amount** is the least whole number above it, but not more than the
greatest balance. -/
theorem toNat_costUnits {amount : Float} (h : amount.isFinite = true) :
    (costUnits amount).toNat = min ⌈toRat amount⌉₊ (2 ^ 64 - 1) := by
  have hless : 0.0 < amount ↔ 0 < scaled amount :=
    Binary64.lt_iff_scaled (show (0.0 : Float).isFinite = true by decide) h
  by_cases hpos : 0 < scaled amount
  · obtain ⟨hfinite, hceil⟩ := Binary64.scaled_ceil h hpos.le
    have hnonneg : 0 ≤ ⌈toRat amount⌉ := Int.ceil_nonneg (Binary64.toRat_nonneg hpos.le)
    have hscaled : 0 ≤ scaled (Binary64.ceil amount) := by
      rw [hceil]
      exact Int.mul_nonneg hnonneg Binary64.natCast_one_pos.le
    have hmagnitude : Binary64.magnitude (Binary64.ceil amount) = ⌈toRat amount⌉₊ * Binary64.one := by
      rw [← Binary64.scaled_natAbs, hceil, Int.natAbs_mul, Int.natAbs_natCast, ← Int.ceil_toNat]
      congr 1
      omega
    rw [costUnits, if_pos (by rw [h, decide_eq_true (hless.mpr hpos)]; rfl),
      Binary64.toNat_toUInt64 hfinite hscaled, hmagnitude, Nat.mul_div_cancel _ Binary64.one_pos]
  · have hzero : ⌈toRat amount⌉₊ = 0 :=
      Nat.ceil_eq_zero.mpr (Binary64.toRat_nonpos (not_lt.mp hpos))
    rw [costUnits, if_neg (by rw [h, decide_eq_false (mt hless.mp hpos)]; decide), hzero]
    rfl

/-! ## Prices -/

/-- The price of the next building where so many are owned, by a resource of its cost. -/
def nextPrice (base : Float) (owned : UInt32) : Float := base * (owned.toFloat + 1.0)

/-- The price that the next building would have exactly. -/
def exactPrice (base : Float) (owned : UInt32) : ℚ := toRat base * (owned.toNat + 1)

theorem Item.get?_nextCost (item : Item) (owned : UInt32) (resource : String) :
    (item.nextCost owned).get? resource =
      (item.cost.get? resource).map fun base => nextPrice base owned :=
  KeyMap.get?_map ..

/-- Whether a balance was charged for the next building where so many are owned: the price is as
near to the exact one as can be, and is taken in whole units. -/
structure Charged (base : Float) (owned : UInt32) (before after : UInt64) : Prop where
  /-- No number is nearer to the exact price. -/
  nearest : ∀ y : Float, y.isFinite = true →
    |toRat (nextPrice base owned) - exactPrice base owned| ≤ |toRat y - exactPrice base owned|
  /-- The price is exact up to one part in `2 ^ 53`. -/
  accurate : |toRat (nextPrice base owned) - exactPrice base owned| ≤
    |exactPrice base owned| / 2 ^ 53
  /-- The balance covers the price, rounded up and no more than the greatest balance, and is that
  much lower. -/
  taken : after.toNat + min ⌈toRat (nextPrice base owned)⌉₊ (2 ^ 64 - 1) = before.toNat
  /-- Where the exact price is a number, and not beyond all balances, the balance covers it, and is
  lower by no less. -/
  exact : (∃ y : Float, y.isFinite = true ∧ toRat y = exactPrice base owned) →
    exactPrice base owned ≤ 2 ^ 64 - 1 →
      exactPrice base owned ≤ before.toNat ∧ after.toNat + exactPrice base owned ≤ before.toNat

/-- What is taken for a price is charged. -/
theorem charged_of_taken {base : Float} {owned : UInt32} {before after : UInt64}
    (hfinite : (nextPrice base owned).isFinite = true)
    (htaken : after.toNat + (costUnits (nextPrice base owned)).toNat = before.toNat) :
    Charged base owned before after := by
  rw [toNat_costUnits hfinite] at htaken
  have hnearest : ∀ y : Float, |toRat (nextPrice base owned) - exactPrice base owned| ≤
      |toRat y - exactPrice base owned| := Binary64.abs_toRat_mul_sub_le hfinite
  refine ⟨fun y _ => hnearest y, Binary64.abs_toRat_mul_sub_le_div hfinite, htaken, ?_⟩
  rintro ⟨y, -, hy⟩ hle
  -- nothing is nearer to the exact price than the number that it is
  have hexact : toRat (nextPrice base owned) = exactPrice base owned := by
    have hdistance := hnearest y
    rw [hy, sub_self, abs_zero] at hdistance
    exact sub_eq_zero.mp (abs_eq_zero.mp (le_antisymm hdistance (abs_nonneg _)))
  have hdue : exactPrice base owned ≤ (min ⌈exactPrice base owned⌉₊ (2 ^ 64 - 1) : ℕ) := by
    rw [Nat.cast_min]
    exact le_min (Nat.le_ceil _) (by exact_mod_cast hle)
  rw [hexact] at htaken
  have hbalance : (after.toNat : ℚ) + (min ⌈exactPrice base owned⌉₊ (2 ^ 64 - 1) : ℕ) =
      before.toNat := by exact_mod_cast htaken
  have hrest : (0 : ℚ) ≤ after.toNat := Nat.cast_nonneg _
  constructor <;> linarith

namespace Economy

variable {e : Economy} {w v : World} {key : String} {building : Item} {purchase : Purchase}

/-- The cost of the next building is paid for it. -/
theorem paid_of_buyBuilding (h : e.buyBuilding building w = (.ok purchase, v)) :
    Paid (building.nextCost (w.player.building building.key)) w.player.resources
      v.player.resources := by
  rcases e.buyBuilding_cases building w with ⟨refusal, hrefused⟩ | ⟨q, -, hspend, hok⟩
  · exact absurd h (Fallible.ne_ok_of_error hrefused)
  · obtain ⟨-, rfl⟩ := Prod.mk.inj (hok.symm.trans h)
    exact (Player.paid_of_spend hspend).1

/-- **A building is paid for at its price.**  Where a key is that of a building only and it is
bought, each resource of its cost is charged for it, if the price is finite. -/
theorem charged_of_buy {document : Json} (hload : Catalog.load document = .ok e.catalog)
    (hupgrade : e.catalog.upgrades.get? key = none)
    (hlisted : e.catalog.buildings.get? key = some building)
    (hbuy : e.buy key w = (.ok purchase, v)) {resource : String} {base : Float}
    (hbase : building.cost.get? resource = some base)
    (hfinite : (nextPrice base (w.player.building key)).isFinite = true) :
    Charged base (w.player.building key) (w.player.resource resource)
      (v.player.resource resource) := by
  have hkey : building.key = key := (Catalog.keyed_of_load hload _ _ _ hlisted).2
  have hbought : e.buy key = e.buyBuilding building := by rw [buy, hupgrade, hlisted]
  rw [hbought] at hbuy
  have hpaid := paid_of_buyBuilding hbuy
  rw [hkey] at hpaid
  refine charged_of_taken hfinite (hpaid.taken resource _ ?_)
  rw [Item.get?_nextCost, hbase, Option.map_some]

/-- The second mill costs twenty of thirty gold. -/
theorem charged_of_buy_mill :
    Charged 10.0 1 30 ((Session.millEconomy.buy "mill" miller).2.player.resource "gold") := by
  have hbuy : (Session.millEconomy.buy "mill" miller).1.toOption =
      some ⟨"mill", "buildings", .ofList [("gold", 20.0)], 2⟩ := by decide +kernel
  have hbase : (Session.millEconomy.catalog.buildings.get? "mill").map (·.cost.get? "gold") =
      some (some 10.0) := by decide +kernel
  obtain ⟨building, hlisted, hbase⟩ := Option.map_eq_some_iff.mp hbase
  have howned : miller.player.building "mill" = 1 := by decide +kernel
  have hbalance : miller.player.resource "gold" = 30 := by decide +kernel
  rw [← howned, ← hbalance]
  refine charged_of_buy Session.load_millDocument (by decide +kernel) hlisted
    (Fallible.eq_ok_of_toOption hbuy) hbase ?_
  rw [howned]
  decide +kernel

/-! ### Balances below the exact price -/

/-- A document of three buildings: the price of the third mine is rounded down, a mint costs more
than any balance, and the price of the second tower is too great for any number. -/
def quarryDocument : Json := .obj [
  ("buildings", .obj [
    ("mine", .obj [("cost", .obj [("gold", .num (.int 9007199254740991))])]),
    ("mint", .obj [("cost", .obj [("silver", .num (.real 1e20))])]),
    ("tower", .obj [("cost", .obj [("iron", .num (.real 1e308))])])]),
  ("resources", .obj [("gold", .obj []), ("iron", .obj []), ("silver", .obj [])])]

/-- The economy of the three buildings. -/
def quarryEconomy : Economy := .ofDocument quarryDocument

/-- A player who has two mines and a tower, just too little gold for a third mine, as much silver as
there can be, and no iron. -/
def prospector : World :=
  let p := Player.start "ann" quarryEconomy.catalog 0
  ⟨{ p with
      buildings := .ofList [("mine", 2), ("tower", 1)]
      resources := .ofList
        [("gold", 27021597764222972), ("iron", 0), ("silver", 18446744073709551615)] },
    [], quarryEconomy.evaluator 0, false⟩

/-- Whether a building is bought although a balance is below the exact price. -/
def BoughtBelowPrice (e : Economy) (key : String) (w : World) : Prop :=
  ∃ building resource base purchase v, e.catalog.upgrades.get? key = none ∧
    e.catalog.buildings.get? key = some building ∧ building.cost.get? resource = some base ∧
    e.buy key w = (.ok purchase, v) ∧
    ((w.player.resource resource).toNat : ℚ) < exactPrice base (w.player.building key)

theorem boughtBelowPrice_of_eval (resource : String) (base : Float)
    (hupgrade : e.catalog.upgrades.get? key = none)
    (hbase : (e.catalog.buildings.get? key).map (·.cost.get? resource) = some (some base))
    (hbuy : (e.buy key w).1.toOption = some purchase)
    (hshort : ((w.player.resource resource).toNat * Binary64.one : Int) <
      scaled base * ((w.player.building key).toNat + 1)) : e.BoughtBelowPrice key w := by
  obtain ⟨building, hlisted, hbase⟩ := Option.map_eq_some_iff.mp hbase
  refine ⟨building, resource, base, purchase, _, hupgrade, hlisted, hbase,
    Fallible.eq_ok_of_toOption hbuy, ?_⟩
  rw [exactPrice, toRat, div_mul_eq_mul_div, lt_div_iff₀ Binary64.ratCast_one_pos]
  exact_mod_cast hshort

/-- A building may be bought although the balance is below the exact price: by one where that was
rounded down, by far where it is beyond all balances, and for nothing where it is too great for any
number. -/
theorem exists_bought_below_price :
    Catalog.load quarryDocument = .ok quarryEconomy.catalog ∧
      ∀ key ∈ ["mine", "mint", "tower"], quarryEconomy.BoughtBelowPrice key prospector := by
  refine ⟨load_eq_ofDocument (by decide +kernel), ?_⟩
  simp only [List.forall_mem_cons]
  refine ⟨?mine, ?mint, ?tower, by simp⟩
  case mine =>
    have hbuy : (quarryEconomy.buy "mine" prospector).1.toOption = some
        ⟨"mine", "buildings", .ofList [("gold", 27021597764222972.0)], 3⟩ := by decide +kernel
    exact boughtBelowPrice_of_eval "gold" 9007199254740991.0 (by decide +kernel) (by decide +kernel) hbuy
      (by decide +kernel)
  case mint =>
    have hbuy : (quarryEconomy.buy "mint" prospector).1.toOption = some
        ⟨"mint", "buildings", .ofList [("silver", 1e20)], 1⟩ := by decide +kernel
    exact boughtBelowPrice_of_eval "silver" 1e20 (by decide +kernel) (by decide +kernel) hbuy
      (by decide +kernel)
  case tower =>
    have hbuy : (quarryEconomy.buy "tower" prospector).1.toOption = some
        ⟨"tower", "buildings", .ofList [("iron", 1.0 / 0.0)], 2⟩ := by decide +kernel
    exact boughtBelowPrice_of_eval "iron" 1e308 (by decide +kernel) (by decide +kernel) hbuy
      (by decide +kernel)

end Economy

end IncrementalGame
