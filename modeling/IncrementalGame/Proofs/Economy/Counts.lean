import IncrementalGame.Proofs.Economy.AllOrNothing
import IncrementalGame.Proofs.Economy.Course

/-!
# Counts follow commands

Each command that is not refused moves one count by one: a building that is bought is one more, a
building that is sold is one less, and a prestige is one level more.  A sale finds a building to
sell, so it always goes down by one.  The other two go up, and a count that stops at the greatest
number stays there (`Raised`), although what is due is taken all the same.

The count is read under the key that was asked for and written under the key of the item; in a
loaded catalog the two are one key (`Catalog.keyed_of_load`).  The main statement is
`counts_of_commands`.
-/

namespace IncrementalGame

/-- Whether a count has gone up by one, unless it was the greatest number and has stayed. -/
def Raised (before after : UInt32) : Prop :=
  after.toNat = if before.toNat = UInt32.size - 1 then before.toNat else before.toNat + 1

theorem raised_add32 (n : UInt32) : Raised n (Saturating.add32 n 1) := by
  have hlt := n.toNat_lt
  have hone : (1 : UInt32).toNat = 1 := rfl
  rw [Raised, Saturating.toNat_add32, hone, UInt32.size]
  split <;> omega

/-! ## Counts of buildings -/

/-- Whether a purchase is one building more, and reported, and no other count has changed. -/
structure Delivered (key : String) (purchase : Purchase) (p q : Player) : Prop where
  /-- What is taken of each resource are the units of its price, of which there are none where the
  price is beyond all numbers. -/
  paid : Paid purchase.cost p.resources q.resources
  raised : Raised (p.building key) (q.building key)
  /-- The count that is told is the one that is there. -/
  told : purchase.owned = q.building key
  /-- Other buildings are as many as before. -/
  others : ∀ other, other ≠ key → q.building other = p.building other

/-- Whether one building is gone, and no other count has changed. -/
structure TakenBack (key : String) (p q : Player) : Prop where
  lowered : (q.building key).toNat + 1 = (p.building key).toNat
  /-- Other buildings are as many as before. -/
  others : ∀ other, other ≠ key → q.building other = p.building other

namespace Player

theorem building_of_insert {p q : Player} {key : String} {count : UInt32}
    (h : q.buildings = p.buildings.insert key count) :
    q.building key = count ∧ ∀ other, other ≠ key → q.building other = p.building other := by
  refine ⟨?_, fun other hother => ?_⟩
  · rw [building, h, KeyMap.getD, KeyMap.get?_insert_self, Option.getD_some]
  · rw [building, building, h, KeyMap.getD, KeyMap.get?_insert_of_ne _ hother, KeyMap.getD]

end Player

namespace Economy

variable {e : Economy} {w v : World} {key : String}

/-- **A building that is bought is one building more.** -/
theorem delivered_of_buy (hkeyed : e.catalog.Keyed) (hbuilding : e.catalog.upgrades.get? key = none)
    {purchase : Purchase} (h : e.buy key w = (.ok purchase, v)) :
    Delivered key purchase w.player v.player := by
  have hbought := bought_of_buy hkeyed h
  rcases e.buy_cases key with ⟨upgrade, hlisted, -⟩ | ⟨building, -, hlisted, hbuy⟩ | hbuy
  · exact absurd (hbuilding.symm.trans hlisted) (by simp)
  · rw [hbuy] at h
    have hkey : building.key = key := (hkeyed _ _ _ hlisted).2
    rcases e.buyBuilding_cases building w with ⟨refusal, hrefused⟩ | ⟨q, -, hspend, hok⟩
    · exact absurd h (Fallible.ne_ok_of_error hrefused)
    · obtain ⟨hpurchase, hv⟩ := Prod.mk.inj (hok.symm.trans h)
      obtain rfl := Except.ok.inj hpurchase
      -- a payment leaves the buildings alone
      have hcounts (name : String) : q.building name = w.player.building name :=
        e.building_eq_of_quiet (quiet_spend e.catalog hspend) name
      have hbuildings : v.player.buildings = q.buildings.insert key (nextCount q key) := by
        rw [← hv, hkey]
        rfl
      rw [hkey] at hbought ⊢
      obtain ⟨hcount, hothers⟩ := Player.building_of_insert hbuildings
      refine ⟨hbought.paid, ?_, hcount.symm, fun other hother => ?_⟩
      · rw [hcount, nextCount, hcounts]
        exact raised_add32 _
      · rw [hothers other hother, hcounts]
  · rw [hbuy, Fallible.throw_apply] at h
    exact absurd (congrArg Prod.fst h) (by simp)

/-- **A building that is sold is one building less.** -/
theorem takenBack_of_sell {refund : KeyMap Float} (h : e.sell key w = (.ok refund, v)) :
    TakenBack key w.player v.player := by
  have hsold := sold_of_sell h
  have hbuildings : v.player.buildings =
      w.player.buildings.insert key (w.player.building key - 1) := by
    rw [hsold.credited.accounts]
  obtain ⟨hcount, hothers⟩ := Player.building_of_insert hbuildings
  refine ⟨?_, hothers⟩
  have hpos : (w.player.building key).toNat ≠ 0 := fun hzero =>
    hsold.owned (UInt32.toNat_inj.mp hzero)
  have hone : (1 : UInt32).toNat = 1 := rfl
  have hle : (1 : UInt32) ≤ w.player.building key := UInt32.le_iff_toNat_le.mpr (by omega)
  rw [hcount, UInt32.toNat_sub_of_le _ _ hle]
  omega

/-! ## The level of prestige -/

/-- **A prestige is one level more**, and this is the level that is told. -/
theorem raised_of_performPrestige {now : UInt64} {level : UInt32}
    (h : e.performPrestige now w = (.ok level, v)) :
    level = v.player.prestige ∧ Raised w.player.prestige level := by
  rcases e.performPrestige_cases w now with ⟨refusal, hrefused⟩ | ⟨item, q, u, -, hspend, hu, hok⟩
  · exact absurd h (Fallible.ne_ok_of_error hrefused)
  · obtain ⟨hlevel, rfl⟩ := Prod.mk.inj (hok.symm.trans h)
    obtain rfl := Except.ok.inj hlevel
    have hbefore := (quiet_spend e.catalog hspend).trans (quiet_resetResources e.catalog q)
    have heffects := e.keeps_execute now .empty item.block
      { w with player := q.resetProgress e.catalog }
    rw [← hu] at heffects
    -- neither the payment nor the effects touch the level, only the reset between them does
    have hreset : u.player.prestige = Saturating.add32 (q.resetResources e.catalog).prestige 1 :=
      congrArg Player.Holdings.prestige heffects.1.same.2.1
    have hsame : (q.resetResources e.catalog).prestige = w.player.prestige :=
      congrArg Player.Holdings.prestige hbefore.same.2.1
    refine ⟨rfl, ?_⟩
    rw [hreset, hsame]
    exact raised_add32 _

/-- **What is charged is delivered.**  Under a catalog that was loaded, whatever a player has: a
building that is bought is one building more, a building that is sold is one building less, and a
prestige is one level more; a count or level that is the greatest number stays. -/
theorem counts_of_commands {document : Json} (e : Economy)
    (hload : Catalog.load document = .ok e.catalog) (w : World) (key : String) (now : UInt64) :
    (∀ purchase v, e.catalog.upgrades.get? key = none → e.buy key w = (.ok purchase, v) →
        Delivered key purchase w.player v.player) ∧
      (∀ refund v, e.sell key w = (.ok refund, v) → TakenBack key w.player v.player) ∧
      ∀ level v, e.performPrestige now w = (.ok level, v) →
        level = v.player.prestige ∧ Raised w.player.prestige level :=
  ⟨fun _ _ hbuilding h => delivered_of_buy (Catalog.keyed_of_load hload) hbuilding h,
    fun _ _ => takenBack_of_sell, fun _ _ => raised_of_performPrestige⟩

/-! ### Burrows that are full -/

/-- A document of a prestige and two buildings, the first of which are as many as can be. -/
def warrenDocument : Json := .obj [
  ("buildings", .obj [
    ("burrow", .obj [("cost", .obj [("gold", .num (.int 1))]),
      ("initial", .num (.int 4294967295))]),
    ("mill", .obj [("cost", .obj [("gold", .num (.int 10))])])]),
  ("prestige", .obj [("prestige", .obj [("cost", .obj [("gold", .num (.int 5))])])]),
  ("resources", .obj [("gold", .obj [("initial", .num (.int 5000000000))])])]

/-- The economy of the full burrows. -/
def warrenEconomy : Economy := .ofDocument warrenDocument

/-- A new player of it. -/
def digger : World := ⟨.start "ann" warrenEconomy.catalog 0, [], warrenEconomy.evaluator 0, false⟩

theorem load_warrenDocument : Catalog.load warrenDocument = .ok warrenEconomy.catalog :=
  load_eq_ofDocument (by decide +kernel)

/-- A mill is one more and one less again, a prestige is one level, and a burrow is paid for and
leaves the burrows as many as they were. -/
theorem counts_of_commands_of_digger :
    Delivered "mill" ⟨"mill", "buildings", .ofList [("gold", 10.0)], 1⟩ digger.player
        (warrenEconomy.buy "mill" digger).2.player ∧
      TakenBack "burrow" digger.player (warrenEconomy.sell "burrow" digger).2.player ∧
      Raised digger.player.prestige 1 ∧
      Delivered "burrow"
        ⟨"burrow", "buildings", .ofList [("gold", 4294967296.0)], 4294967295⟩ digger.player
        (warrenEconomy.buy "burrow" digger).2.player := by
  obtain ⟨hmill, -, -⟩ := counts_of_commands warrenEconomy load_warrenDocument digger "mill" 1
  obtain ⟨hburrow, hsell, hprestige⟩ :=
    counts_of_commands warrenEconomy load_warrenDocument digger "burrow" 1
  have hbought : (warrenEconomy.buy "mill" digger).1.toOption =
      some ⟨"mill", "buildings", .ofList [("gold", 10.0)], 1⟩ := by decide +kernel
  have hsold : (warrenEconomy.sell "burrow" digger).1.toOption =
      some (.ofList [("gold", 0.5)]) := by decide +kernel
  have hlevel : (warrenEconomy.performPrestige 1 digger).1.toOption = some 1 := by decide +kernel
  have hfull : (warrenEconomy.buy "burrow" digger).1.toOption =
      some ⟨"burrow", "buildings", .ofList [("gold", 4294967296.0)], 4294967295⟩ := by
    decide +kernel
  exact ⟨hmill _ _ (by decide +kernel) (Fallible.eq_ok_of_toOption hbought),
    hsell _ _ (Fallible.eq_ok_of_toOption hsold),
    (hprestige _ _ (Fallible.eq_ok_of_toOption hlevel)).2,
    hburrow _ _ (by decide +kernel) (Fallible.eq_ok_of_toOption hfull)⟩

/-- A player just started may pay for a building and have no more of them than before. -/
theorem exists_paid_and_not_delivered :
    Catalog.load warrenDocument = .ok warrenEconomy.catalog ∧
      (∃ purchase v, warrenEconomy.buy "burrow" digger = (.ok purchase, v) ∧
        purchase.category = "buildings" ∧
        digger.player.resource "gold" = 5000000000 ∧ v.player.resource "gold" = 705032704 ∧
        (v.player.building "burrow").toNat = (digger.player.building "burrow").toNat ∧
        (v.player.building "burrow").toNat ≠ (digger.player.building "burrow").toNat + 1) := by
  refine ⟨load_warrenDocument,
    ⟨"burrow", "buildings", .ofList [("gold", 4294967296.0)], 4294967295⟩, _,
    Fallible.eq_ok_of_toOption (by decide +kernel), rfl, ?_⟩
  decide +kernel

end Economy

end IncrementalGame
