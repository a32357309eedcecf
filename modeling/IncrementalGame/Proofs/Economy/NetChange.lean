import IncrementalGame.Proofs.Economy.Credits
import IncrementalGame.Proofs.Economy.Rates
import IncrementalGame.Proofs.Player.Purses

/-!
# The rate and the net change of a tick

The rate that a tick books for a resource is what it has credited, zero where it has credited
nothing (`perTick_tick`).  What the tick changes about the purse of the resource is something else:
the credit first, and then the rewards of the levels that the tick unlocks, each added as far as it
goes (`purse_tick`).

So the rate is the net change just if the credit is finite and what it falls short of is made good by
the rewards (`netChange_tick`).  Where no reward is paid this asks for a credit that is not negative,
or that is a whole number of units and covered by the balance.  A rate misses the rewards of its own
tick, the rounding up of what is taken, and that nothing is taken below zero or of an infinite
amount (`exists_rate_not_net`).
-/

namespace IncrementalGame

open Binary64 (toRat)

/-- Whether a number is finite and just some rational. -/
def Binary64.Denotes (x : Float) (q : ℚ) : Prop := x.isFinite = true ∧ toRat x = q

theorem Binary64.denotes_intCast_iff {x : Float} {z : ℤ} :
    Denotes x z ↔ x.isFinite = true ∧ scaled x = z * one := by
  rw [Denotes, toRat, div_eq_iff ratCast_one_pos.ne']
  exact_mod_cast Iff.rfl

namespace Award

/-- What awards pay of a resource, in order. -/
def rewardsOf (resource : String) (awards : List Award) : List Float :=
  awards.flatMap fun a => (a.level.rewards.get? resource).toList

variable (e : Economy) (p : Player) (a : Award) (resource : String)

theorem purse_grant : (a.grant e p).purse resource =
    (a.level.rewards.get? resource).toList.foldl Purse.add (p.purse resource) :=
  Player.purse_addAll { p with achievements := p.achievements.insert a.key a.level.level }
    a.level.rewards resource

theorem sameRates_grant : SameRates p (a.grant e p) := by
  have hrewards := SameRates.addAll a.level.rewards
    { p with achievements := p.achievements.insert a.key a.level.level }
  exact ⟨hrewards.multipliers, hrewards.perTick⟩

end Award

namespace Granted

variable {e : Economy} {p q : Player} {awards : List Award}

/-- A pass adds its rewards to the purse of their resource. -/
theorem purse_eq (h : Granted e p awards q) (resource : String) :
    q.purse resource =
      (Award.rewardsOf resource awards).foldl Purse.add (p.purse resource) := by
  induction h with
  | nil p => rfl
  | @cons p q a awards declared above rest ih =>
    rw [ih, a.purse_grant, Award.rewardsOf, Award.rewardsOf, List.flatMap_cons, List.foldl_append]

/-- A pass books no rates. -/
theorem sameRates (h : Granted e p awards q) : SameRates p q := by
  induction h with
  | nil p => exact .refl p
  | @cons p q a awards declared above rest ih => exact (a.sameRates_grant e p).trans ih

theorem declared (h : Granted e p awards q) : ∀ a ∈ awards, a.Declared e.catalog := by
  induction h with
  | nil p => exact fun a ha => absurd ha List.not_mem_nil
  | @cons p q a awards declared above rest ih => exact List.forall_mem_cons.mpr ⟨declared, ih⟩

end Granted

namespace Economy

/-! ## What is booked -/

/-- Rates that are booked in a table of statistics are those of the keys that are listed. -/
theorem perTick_booked (credited : KeyMap Float) (keys : List String)
    (stats : KeyMap ResourceStats) (resource : String) :
    ((keys.foldl (fun stats key => stats.update key .none fun s =>
        { s with perTick := credited.getD key 0.0 }) stats).getD resource .none).perTick =
      if resource ∈ keys then credited.getD resource 0.0
      else (stats.getD resource .none).perTick := by
  induction keys generalizing stats with
  | nil => rfl
  | cons key rest ih =>
    rw [List.foldl_cons, ih, KeyMap.update]
    by_cases heq : resource = key
    · rw [heq, KeyMap.getD_insert_self, ite_self, if_pos List.mem_cons_self]
    · rw [KeyMap.getD_insert_of_ne _ heq]
      simp only [List.mem_cons, heq, false_or]

theorem perTick_bookRates (credited : KeyMap Float) (p : Player) (resource : String) :
    ((bookRates credited p).statsOf resource).perTick =
      if (p.resources.get? resource).isSome = true then credited.getD resource 0.0
      else (p.statsOf resource).perTick := by
  rw [Player.statsOf, bookRates, perTick_booked, Player.statsOf]
  simp only [KeyMap.isSome_get?_iff]

/-! ## Ticks -/

section

variable (e : Economy) (now : UInt64) (w : World) (resource : String)

/-- A harvest adds its credits, books them as rates, and lets shinies expire. -/
theorem exists_player_harvest : ∃ shinies, (e.harvest now w).2.player =
    { bookRates (e.tick now w).1.credited
        ((e.tick now w).1.credited.foldl Player.addResource w.player) with
      shinies := shinies } := by
  have hplayer : (e.totalMultiplier (e.totalYield w).2).2.player = w.player :=
    (e.keeps_totalMultiplier _).1.trans (e.keeps_totalYield w).1
  rw [← hplayer]
  exact ⟨_, rfl⟩

theorem purse_harvest : (e.harvest now w).2.player.purse resource =
    ((e.tick now w).1.credited.get? resource).toList.foldl Purse.add (w.player.purse resource) := by
  obtain ⟨shinies, hplayer⟩ := e.exists_player_harvest now w
  rw [hplayer, ← Player.purse_addAll]
  rfl

theorem perTick_harvest : ((e.harvest now w).2.player.statsOf resource).perTick =
    if ((e.harvest now w).2.player.resources.get? resource).isSome = true then
      (e.tick now w).1.credited.getD resource 0.0
    else (w.player.statsOf resource).perTick := by
  obtain ⟨shinies, hplayer⟩ := e.exists_player_harvest now w
  rw [hplayer, ← (SameRates.addAll (e.tick now w).1.credited w.player).perTick resource]
  exact perTick_bookRates ..

/-- **A rate is what was credited**, and stays so to the end of the tick: where a balance is listed
when rates are booked it is the credit, or zero if there is none, and else the rate is the one from
before. -/
theorem perTick_tick : ((e.tick now w).2.player.statsOf resource).perTick =
    if ((e.harvest now w).2.player.resources.get? resource).isSome = true then
      (e.tick now w).1.credited.getD resource 0.0
    else (w.player.statsOf resource).perTick := by
  obtain ⟨awards, hpass, -, -⟩ := e.pass_unlockAchievements (e.harvest now w).2
  rw [← perTick_harvest]
  exact hpass.granted.sameRates.perTick resource

/-- **A tick adds to a purse** the credit of its resource and then the rewards of the levels that it
unlocks. -/
theorem purse_tick :
    ∃ awards, (e.tick now w).1.unlocked = awards.map Award.mark ∧
      (∀ a ∈ awards, a.Declared e.catalog) ∧
      (e.tick now w).2.player.purse resource =
        ((e.tick now w).1.credited.getD resource 0.0 :: Award.rewardsOf resource awards).foldl
          Purse.add (w.player.purse resource) := by
  obtain ⟨awards, hpass, hreport, -⟩ := e.pass_unlockAchievements (e.harvest now w).2
  refine ⟨awards, hreport, hpass.granted.declared, ?_⟩
  -- where nothing is credited, adding zero does nothing
  have hcredit (a : Purse) : ((e.tick now w).1.credited.get? resource).toList.foldl Purse.add a =
      a.add ((e.tick now w).1.credited.getD resource 0.0) := by
    rw [KeyMap.getD]
    cases (e.tick now w).1.credited.get? resource with
    | none => exact (Purse.add_of_zero fraction_zero.finite Purse.scaled_zero).symm
    | some x => rfl
  rw [List.foldl_cons, ← hcredit, ← purse_harvest]
  exact hpass.granted.purse_eq resource

end

/-- **Rates and net changes.**  Let a tick credit a resource with `x`, and unlock levels that pay
rewards of it.  If these amounts fit, the purse changes by what each of them changes about it, and
the rate that is booked is that change just if `x` is finite and the rewards make good what it falls
short of.  Where there are no rewards this is so just if `x` is finite and either not negative or a
whole number of units that the balance covers. -/
theorem netChange_tick (e : Economy) (now : UInt64) (w : World) (resource : String)
    (hcarries : w.player.Carries) :
    let before := w.player.purse resource
    let after := (e.tick now w).2.player.purse resource
    let x := (e.tick now w).1.credited.getD resource 0.0
    let rate := ((e.tick now w).2.player.statsOf resource).perTick
    ∃ awards : List Award, (e.tick now w).1.unlocked = awards.map Award.mark ∧
      (∀ a ∈ awards, a.Declared e.catalog) ∧
      let rewards := Award.rewardsOf resource awards
      after = (x :: rewards).foldl Purse.add before ∧
      (before.FitsAll (x :: rewards) →
        after.worth - before.worth = before.change x + (before.add x).changes rewards) ∧
      (((e.harvest now w).2.player.resources.get? resource).isSome = true →
        rate = x ∧
        (before.FitsAll (x :: rewards) →
          (Binary64.Denotes rate (after.worth - before.worth) ↔ x.isFinite = true ∧
            (before.add x).changes rewards = toRat x - before.change x)) ∧
        (before.FitsAll (x :: rewards) → rewards = [] →
          (Binary64.Denotes rate (after.worth - before.worth) ↔ x.isFinite = true ∧
            (0 ≤ toRat x ∨ ∃ n : ℕ, n ≤ before.balance.toNat ∧ toRat x = -n)))) := by
  intro before after x rate
  obtain ⟨awards, hreport, hdeclared, hafter⟩ := e.purse_tick now w resource
  have hnet (hfits : before.FitsAll (x :: Award.rewardsOf resource awards)) :
      after.worth - before.worth =
        before.change x + (before.add x).changes (Award.rewardsOf resource awards) := by
    rw [show after = _ from hafter, Purse.worth_foldl (hcarries.getD resource) hfits,
      add_sub_cancel_left]
    rfl
  refine ⟨awards, hreport, hdeclared, hafter, hnet, fun htracked => ?_⟩
  have hrate : rate = x := by
    rw [show rate = _ from e.perTick_tick now w resource, if_pos htracked]
  have hiff (hfits : before.FitsAll (x :: Award.rewardsOf resource awards)) :
      Binary64.Denotes rate (after.worth - before.worth) ↔ x.isFinite = true ∧
        (before.add x).changes (Award.rewardsOf resource awards) = toRat x - before.change x := by
    rw [hrate, Binary64.Denotes, hnet hfits, eq_sub_iff_add_eq', eq_comm (a := toRat x)]
  refine ⟨hrate, hiff, fun hfits hnone => (hiff hfits).trans (and_congr_right fun hfinite => ?_)⟩
  rw [← Purse.change_eq_toRat_iff hfinite, hnone, Purse.changes, eq_comm, sub_eq_zero,
    eq_comm (a := toRat x)]

/-! ### A marsh -/

/-- A building that is owned from the start, with yields of fixed amounts. -/
def yieldingDocument (yields : List (String × Number)) : Json := .obj [
  ("effects", .arr (yields.map fun yield => .obj
    [("type", .str "yield"), ("target", .str yield.1), ("value", .num yield.2)])),
  ("initial", .num (.int 1))]

/-- A document of an achievement that pays five gold, of a mine that yields two gold and one and a
half stones, of a bog that takes half a measure of mud, and of a bellows that blows more air than
any number says. -/
def marshDocument : Json := .obj [
  ("achievements", .obj [("settled", .obj [
    ("condition", .str "1"), ("rewards", .obj [("gold", .num (.int 5))])])]),
  ("buildings", .obj [
    ("bellows", yieldingDocument [("air", .real 1e308), ("air", .real 1e308)]),
    ("bog", yieldingDocument [("mud", .real (-0.5))]),
    ("mine", yieldingDocument [("gold", .int 2), ("stone", .real 1.5)])]),
  ("resources", .obj [("air", .obj []), ("gold", .obj []),
    ("mud", .obj [("initial", .num (.int 10))]), ("stone", .obj [])])]

/-- The economy of the marsh. -/
def marshEconomy : Economy := .ofDocument marshDocument

/-- A new player of it. -/
def settler : World := ⟨.start "ann" marshEconomy.catalog 0, [], marshEconomy.evaluator 0, false⟩

theorem load_marshDocument : Catalog.load marshDocument = .ok marshEconomy.catalog :=
  load_eq_ofDocument (by decide +kernel)

/-- What the settler's first tick reports. -/
theorem report_settler : (marshEconomy.tick 1 settler).1 =
    ⟨.ofList [("air", 1.0 / 0.0), ("gold", 2.0), ("mud", -0.5), ("stone", 1.5)],
      [("settled", 1)], 0⟩ := by decide +kernel

/-- The one level that the marsh declares pays no stone. -/
theorem rewardsOf_stone {awards : List Award}
    (h : ∀ a ∈ awards, a.Declared marshEconomy.catalog) : Award.rewardsOf "stone" awards = [] := by
  have hall : ∀ entry ∈ marshEconomy.catalog.achievements.entries, ∀ level ∈ entry.2.levels,
      level.rewards.get? "stone" = none := by decide +kernel
  refine List.flatMap_eq_nil_iff.mpr fun a ha => ?_
  rw [hall (a.key, a.item) (KeyMap.mem_entries_iff.mpr (h a ha).found) a.level (h a ha).mem]
  rfl

/-- The rate of stone is its net change, one and a half. -/
theorem netChange_tick_of_settler :
    settler.player.Carries ∧
      Binary64.Denotes ((marshEconomy.tick 1 settler).2.player.statsOf "stone").perTick
        (((marshEconomy.tick 1 settler).2.player.purse "stone").worth -
          (settler.player.purse "stone").worth) := by
  have hcarries : settler.player.Carries := Player.carries_start _ _ _
  refine ⟨hcarries, ?_⟩
  obtain ⟨awards, -, hdeclared, -, -, hrate⟩ :=
    netChange_tick marshEconomy 1 settler "stone" hcarries
  obtain ⟨-, -, hiff⟩ := hrate (by decide +kernel)
  have hcredit : (marshEconomy.tick 1 settler).1.credited.getD "stone" 0.0 = 1.5 := by
    rw [report_settler]
    decide +kernel
  have hnone := rewardsOf_stone hdeclared
  rw [hnone, hcredit] at hiff
  refine (hiff (by decide +kernel) rfl).mpr ⟨by decide +kernel, .inl ?_⟩
  exact Binary64.toRat_nonneg (by decide +kernel)

/-- Whether a tick books a rate that is not the net change of a resource. -/
def Misbooks (e : Economy) (now : UInt64) (w : World) (resource : String) : Prop :=
  ¬Binary64.Denotes ((e.tick now w).2.player.statsOf resource).perTick
    (((e.tick now w).2.player.purse resource).worth - (w.player.purse resource).worth)

theorem misbooks_of_eval {e : Economy} {now : UInt64} {w : World} {resource : String}
    {before after : UInt64} (hbefore : w.player.purse resource = ⟨before, 0.0⟩)
    (hafter : (e.tick now w).2.player.purse resource = ⟨after, 0.0⟩) {rate : Float}
    (hrate : ((e.tick now w).2.player.statsOf resource).perTick = rate)
    (h : ¬(rate.isFinite = true ∧
      Binary64.scaled rate = ((after.toNat : ℤ) - before.toNat) * Binary64.one)) :
    e.Misbooks now w resource := by
  rw [Misbooks, hbefore, hafter, hrate, Purse.worth_units, Purse.worth_units]
  rw [← Binary64.denotes_intCast_iff] at h
  exact_mod_cast h

/-- **A rate need not be the net change.**  The settler's first tick books two gold while seven are
gained, five of them as a reward; it books that half a measure of mud is taken while one is; and it
books an infinite rate of air, of which nothing comes. -/
theorem exists_rate_not_net :
    Catalog.load marshDocument = .ok marshEconomy.catalog ∧
      ((marshEconomy.tick 1 settler).2.player.statsOf "gold").perTick = 2.0 ∧
      settler.player.purse "gold" = ⟨0, 0.0⟩ ∧
      (marshEconomy.tick 1 settler).2.player.purse "gold" = ⟨7, 0.0⟩ ∧
      ∀ resource ∈ ["air", "gold", "mud"], marshEconomy.Misbooks 1 settler resource := by
  have hgold : settler.player.purse "gold" = ⟨0, 0.0⟩ ∧
      (marshEconomy.tick 1 settler).2.player.purse "gold" = ⟨7, 0.0⟩ ∧
      ((marshEconomy.tick 1 settler).2.player.statsOf "gold").perTick = 2.0 := by decide +kernel
  have hmud : settler.player.purse "mud" = ⟨10, 0.0⟩ ∧
      (marshEconomy.tick 1 settler).2.player.purse "mud" = ⟨9, 0.0⟩ ∧
      ((marshEconomy.tick 1 settler).2.player.statsOf "mud").perTick = -0.5 := by decide +kernel
  have hair : settler.player.purse "air" = ⟨0, 0.0⟩ ∧
      (marshEconomy.tick 1 settler).2.player.purse "air" = ⟨0, 0.0⟩ ∧
      ((marshEconomy.tick 1 settler).2.player.statsOf "air").perTick = 1.0 / 0.0 := by
    decide +kernel
  refine ⟨load_marshDocument, hgold.2.2, hgold.1, hgold.2.1, ?_⟩
  simp only [List.forall_mem_cons]
  refine ⟨?air, ?gold, ?mud, by simp⟩
  case air => exact misbooks_of_eval hair.1 hair.2.1 hair.2.2 (by decide +kernel)
  case gold => exact misbooks_of_eval hgold.1 hgold.2.1 hgold.2.2 (by decide +kernel)
  case mud => exact misbooks_of_eval hmud.1 hmud.2.1 hmud.2.2 (by decide +kernel)

end Economy

end IncrementalGame
