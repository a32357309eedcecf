import IncrementalGame.Proofs.Economy.AllOrNothing
import IncrementalGame.Proofs.Economy.Breaks

/-!
# Prestige is a fresh start

Prestige pays, takes progress back, and only then lets its effects happen.  So nothing of the old
balances, of what was carried and of the counts of buildings is left when the first formula of an
effect is computed, and two players who differ in these alone come out of it equal
(`performPrestige_eq_of_sameButProgress`).

The reset goes over the resources of the player and of the catalog and writes the balance and the
rest of each.  Two players who agree outside of these are equal behind it (`AgreeBut`): each write
takes one resource off the list of those in which they differ.  What is carried for a resource that
is in neither list would outlive the reset; but there is no such rest, since nothing is carried
without a balance (`Player.Tracks`).
-/

namespace IncrementalGame

namespace Player

/-! ## Nothing is carried without a balance -/

/-- Whether there is a balance of each resource of which something is carried. -/
def Tracks (p : Player) : Prop :=
  ∀ key, (p.carry.get? key).isSome = true → (p.resources.get? key).isSome = true

variable {p q : Player}

theorem Tracks.of_eq (h : p.Tracks) (hresources : q.resources = p.resources)
    (hcarry : q.carry = p.carry) : q.Tracks := by
  intro key
  rw [hresources, hcarry]
  exact h key

/-- A balance and a rest that are written together. -/
theorem Tracks.insert (h : p.Tracks) {key : String} {balance : UInt64} {rest : Float}
    (hresources : q.resources = p.resources.insert key balance)
    (hcarry : q.carry = p.carry.insert key rest) : q.Tracks := by
  intro other hother
  rw [hcarry] at hother
  rw [hresources]
  by_cases heq : other = key
  · rw [heq, KeyMap.get?_insert_self]
    rfl
  · rw [KeyMap.get?_insert_of_ne _ heq] at hother ⊢
    exact h other hother

theorem Tracks.removeResource (h : p.Tracks) (key : String) (amount : Float) :
    (p.removeResource key amount).Tracks := by
  obtain ⟨resources, hremove⟩ := p.exists_removeResource_eq key amount
  have hcarry : (p.removeResource key amount).carry = p.carry := by rw [hremove]
  intro other hother
  rw [hcarry] at hother
  rw [get?_removeResource, Option.isSome_map]
  exact h other hother

theorem Tracks.addResource (h : p.Tracks) (key : String) (amount : Float) :
    (p.addResource key amount).Tracks := by
  rcases p.addResource_cases key amount with hadd | hadd | ⟨-, -, hadd⟩
  · rw [hadd]
    exact h
  · rw [hadd]
    exact h.removeResource key (-amount)
  · rw [hadd]
    exact h.insert rfl rfl

theorem Tracks.quiet {catalog : Catalog} (hq : Quiet catalog p q) (h : p.Tracks) : q.Tracks := by
  refine hq.preserves Player.Tracks ?_ h
  intro p q hstep h
  cases hstep with
  | add resource x => exact h.addResource resource x
  | remove resource x => exact h.removeResource resource x
  | setBack resource => exact h.insert rfl rfl
  | scale | shinies | rates | clock => exact h.of_eq rfl rfl

/-- Whatever the game does, nothing is carried without a balance. -/
theorem Tracks.course {e : Economy} {v w : World} (hc : Course e v w) (h : v.player.Tracks) :
    w.player.Tracks := by
  refine hc.preserves (fun w => w.player.Tracks) ?_ h
  intro v w hstep h
  cases hstep with
  | hush hquiet => exact h.quiet hquiet.1
  | @tell p q event message before due after player raised _ =>
    have hsettled : (p.settle event).Tracks := (h.quiet before).of_eq rfl rfl
    rw [player]
    exact (hsettled.quiet after).of_eq rfl rfl

theorem tracks_start (id : String) (catalog : Catalog) (now : UInt64) :
    (Player.start id catalog now).Tracks := by
  have hfold : ∀ (entries : List (String × Item)) (p : Player), p.Tracks →
      (entries.foldl (fun p entry => p.startResource entry.1 entry.2.initial) p).Tracks := by
    intro entries
    induction entries with
    | nil =>
      intro p h
      exact h
    | cons entry rest ih =>
      intro p h
      exact ih _ (h.insert rfl rfl)
  refine hfold catalog.resources.entries _ ?_
  intro key hkey
  exact absurd hkey (by simp [blank])

/-- Whether moves lead from the start of a game to a player. -/
inductive Reachable (e : Economy) : Player → Prop where
  | run (id : String) (now : UInt64) (evaluator : Formula.Evaluator) (moves : List Move) :
    Reachable e (Move.run e moves ⟨.start id e.catalog now, [], evaluator, false⟩).player

theorem Reachable.tracks {e : Economy} (h : p.Reachable e) : p.Tracks := by
  obtain ⟨id, now, evaluator, moves⟩ := h
  exact Tracks.course (Move.course_run e moves _) (tracks_start id e.catalog now)

/-! ## What a reset writes over -/

/-- Whether two players differ at most in what they have and carry of some resources, and in how
many they own of the same buildings. -/
structure AgreeBut (keys : List String) (p q : Player) : Prop where
  resources : ∀ key, key ∉ keys → q.resources.get? key = p.resources.get? key
  carry : ∀ key, key ∉ keys → q.carry.get? key = p.carry.get? key
  buildings : q.buildings.keys = p.buildings.keys
  rest : q = { p with resources := q.resources, carry := q.carry, buildings := q.buildings }

/-- A resource that is set is one less to differ in. -/
theorem AgreeBut.setResource {key : String} {keys : List String} (h : AgreeBut (key :: keys) p q)
    (amount : Float) : AgreeBut keys (p.setResource key amount) (q.setResource key amount) := by
  constructor
  · intro other hother
    by_cases heq : other = key
    · rw [heq, Player.setResource, Player.setResource, KeyMap.get?_insert_self,
        KeyMap.get?_insert_self]
    · rw [Player.setResource, Player.setResource, KeyMap.get?_insert_of_ne _ heq,
        KeyMap.get?_insert_of_ne _ heq]
      exact h.resources other (by simp [heq, hother])
  · intro other hother
    by_cases heq : other = key
    · rw [heq, Player.setResource, Player.setResource, KeyMap.get?_insert_self,
        KeyMap.get?_insert_self]
    · rw [Player.setResource, Player.setResource, KeyMap.get?_insert_of_ne _ heq,
        KeyMap.get?_insert_of_ne _ heq]
      exact h.carry other (by simp [heq, hother])
  · exact h.buildings
  · rw [h.rest]
    rfl

theorem AgreeBut.foldl_setResource (amount : String → Float) {keys : List String}
    (h : AgreeBut keys p q) :
    AgreeBut [] (keys.foldl (fun p key => p.setResource key (amount key)) p)
      (keys.foldl (fun p key => p.setResource key (amount key)) q) := by
  induction keys generalizing p q with
  | nil => exact h
  | cons key keys ih => exact ih (h.setResource (amount key))

/-- Players who agree in all resources become equal when their buildings are gone. -/
theorem AgreeBut.eq_of_nil (h : AgreeBut [] p q) (level : UInt32) :
    { q with buildings := q.buildings.map fun _ _ => 0, prestige := level } =
      { p with buildings := p.buildings.map fun _ _ => 0, prestige := level } := by
  have hresources : q.resources = p.resources :=
    KeyMap.ext_get? fun key => h.resources key List.not_mem_nil
  have hcarry : q.carry = p.carry := KeyMap.ext_get? fun key => h.carry key List.not_mem_nil
  rw [KeyMap.map_const_eq_of_keys h.buildings, h.rest, hresources, hcarry]

/-- Players who differ in nothing that a reset leaves are equal behind it. -/
theorem resetProgress_eq {catalog : Catalog} (hkeys : q.resources.keys = p.resources.keys)
    (h : AgreeBut (p.resources.keys ++ catalog.resources.keys) p q) :
    q.resetProgress catalog = p.resetProgress catalog := by
  have hset : AgreeBut [] (p.resetResources catalog) (q.resetResources catalog) := by
    rw [resetResources, resetResources, hkeys]
    exact h.foldl_setResource catalog.initialAmount
  have hlevel : (q.resetResources catalog).prestige = (p.resetResources catalog).prestige := by
    rw [hset.rest]
  rw [resetProgress, resetProgress, hlevel]
  exact hset.eq_of_nil _

/-! ## Players who differ in their progress -/

/-- Whether two players differ at most in the balances of the same resources, in what they carry,
and in how many they own of the same buildings. -/
structure SameButProgress (p q : Player) : Prop where
  resources : q.resources.keys = p.resources.keys
  buildings : q.buildings.keys = p.buildings.keys
  rest : q = { p with resources := q.resources, carry := q.carry, buildings := q.buildings }

variable {cost : KeyMap Float}

theorem spend_of_canAfford (h : p.canAfford cost = true) :
    p.spend cost = .ok (p.debit cost) := by
  rw [canAfford, Option.isNone_iff_eq_none] at h
  rw [spend, h]

/-- What a payment leaves of two players who differ in their progress is alike but for what a reset
writes over. -/
theorem SameButProgress.agreeBut_of_spend (h : SameButProgress p q) (hp : p.Tracks) (hq : q.Tracks)
    {p' q' : Player} (hspend : p.spend cost = .ok p') (hspend' : q.spend cost = .ok q')
    (more : List String) :
    q'.resources.keys = p'.resources.keys ∧ AgreeBut (p'.resources.keys ++ more) p' q' := by
  obtain ⟨hpaid, hp'⟩ := paid_of_spend hspend
  obtain ⟨hpaid', hq'⟩ := paid_of_spend hspend'
  have hkeys : p'.resources.keys = p.resources.keys := KeyMap.keys_eq_of_isSome hpaid.listed
  have hkeys' : q'.resources.keys = q.resources.keys := KeyMap.keys_eq_of_isSome hpaid'.listed
  have hnone : ∀ {r : Player}, r.Tracks → ∀ key, key ∉ r.resources.keys →
      r.carry.get? key = none := by
    intro r hr key hkey
    rw [← KeyMap.isSome_get?_iff] at hkey
    exact Option.not_isSome_iff_eq_none.mp (mt (hr key) hkey)
  refine ⟨by rw [hkeys, hkeys', h.resources], ?_, ?_, ?_, ?_⟩
  · intro key hkey
    have hkey := mt (List.mem_append_left more) hkey
    rw [KeyMap.get?_eq_none_of_not_mem hkey]
    rw [hkeys, ← h.resources, ← hkeys'] at hkey
    rw [KeyMap.get?_eq_none_of_not_mem hkey]
  · intro key hkey
    have hkey := mt (List.mem_append_left more) hkey
    rw [hkeys] at hkey
    rw [hq', hp', hnone hp key hkey]
    exact hnone hq key (h.resources ▸ hkey)
  · rw [hp', hq']
    exact h.buildings
  · rw [hp', hq', h.rest]

end Player

namespace Economy

open Player

/-- **Prestige is a fresh start**: two players of the same game who differ at most in their balances
of the same resources, in what they carry and in how many they own of the same buildings, and who
both can pay, come to the same, whatever the prestige does; even the events and the memory and the
chance of the evaluator are the same.  Both reach the same level, unless the effects of the prestige
are broken off, and with them the prestige of both.  Effects are not where no formula that they may
come to draws a real number. -/
theorem performPrestige_eq_of_sameButProgress (e : Economy) {p q : Player} (hp : p.Reachable e)
    (hq : q.Reachable e) (h : SameButProgress p q) {item : Item}
    (hfound : e.catalog.prestige? = some item) (hpays : p.canAfford item.cost = true)
    (hpays' : q.canAfford item.cost = true) (now : UInt64) (raised : List Event)
    (evaluator : Formula.Evaluator) :
    let v : World := ⟨p, raised, evaluator, false⟩
    let w : World := ⟨q, raised, evaluator, false⟩
    let prestige : Rule (Except EconomyError UInt32) := (e.performPrestige now).run
    let effects := e.execute now .empty item.block
    let fresh : World := { v with player := (p.debit item.cost).resetProgress e.catalog }
    prestige v = prestige w ∧
      ((∃ level u, prestige.result? v = some (.ok level, u)) ∧ (effects.result? fresh).isSome = true ∨
        prestige.result? v = none ∧ effects.result? fresh = none) ∧
      ((∀ formula ∈ e.askedBy item.block, Formula.Safe formula) →
        ∃ level u, prestige.result? v = some (.ok level, u)) := by
  intro v w prestige effects fresh
  have hspend := spend_of_canAfford hpays
  have hspend' := spend_of_canAfford hpays'
  obtain ⟨hkeys, hagree⟩ :=
    h.agreeBut_of_spend hp.tracks hq.tracks hspend hspend' e.catalog.resources.keys
  have hreset : (q.debit item.cost).resetProgress e.catalog =
      (p.debit item.cost).resetProgress e.catalog := resetProgress_eq hkeys hagree
  have hprestige : prestige v = _ := e.performPrestige_ok item v now hfound hspend
  have hsame : prestige v = prestige w := by
    refine hprestige.trans ((e.performPrestige_ok item w now hfound hspend').trans ?_).symm
    simp only [v, w, hreset]
  have hbroken : (prestige v).2.broken = (effects fresh).2.broken :=
    broken_performPrestige hfound hspend now
  have hgiven : (effects fresh).2.broken = false →
      ∃ level u, prestige.result? v = some (.ok level, u) := by
    intro heffects
    rw [Rule.result?_of_unbroken (hbroken.trans heffects), hprestige]
    exact ⟨_, _, rfl⟩
  refine ⟨hsame, ?_, fun hsafe => hgiven (unbroken_execute now hsafe fresh rfl)⟩
  cases heffects : (effects fresh).2.broken with
  | false =>
    refine .inl ⟨hgiven heffects, ?_⟩
    rw [Rule.result?_of_unbroken heffects]
    rfl
  | true =>
    exact .inr ⟨Rule.result?_eq_none_iff.mpr (hbroken.trans heffects),
      Rule.result?_eq_none_iff.mpr heffects⟩

/-! ### A guild -/

/-- A document of a mill and a mine, and of a prestige that has a price and a condition and yields
gold by the buildings and the gold that are left. -/
def guildDocument : Json := .obj [
  ("buildings", .obj [
    ("mill", .obj [("cost", .obj [("gold", .num (.int 10))])]),
    ("mine", .obj [("cost", .obj [("gold", .num (.int 5))])])]),
  ("prestige", .obj [("prestige", .obj [
    ("condition", .str "gold > 39"), ("cost", .obj [("gold", .num (.int 3))]),
    ("effects", .arr [.str "yield:gold:7 + mill", .str "yield:gold:gold / 2"])])]),
  ("resources", .obj [("gold", .obj [("initial", .num (.int 40))])])]

/-- The economy of the guild, in which a log keeps one message. -/
def guildEconomy : Economy where
  catalog := (ofDocument guildDocument).catalog
  settings := ⟨300000, 1, 0.5, none⟩
  sound := by decide +kernel

/-- A member of the guild after some moves. -/
def guildMember (moves : List Move) : Player :=
  (Move.run guildEconomy moves
    ⟨.start "ann" guildEconomy.catalog 0, [], guildEconomy.evaluator 0, false⟩).player

/-- One who has bought a mill and a mine and carries half a gold, and one who has bought the mine
only, come out of prestige with the same seventy gold. -/
theorem performPrestige_eq_of_sameButProgress_of_guild :
    let p := guildMember [.buy "mill", .add "gold" 0.5, .buy "mine"]
    let q := guildMember [.buy "mine"]
    let prestige : Rule (Except EconomyError UInt32) := (guildEconomy.performPrestige 9).run
    p ≠ q ∧ ∃ level u,
      prestige.result? ⟨p, [], guildEconomy.evaluator 1, false⟩ = some (.ok level, u) ∧
        prestige.result? ⟨q, [], guildEconomy.evaluator 1, false⟩ = some (.ok level, u) ∧
        u.player.resource "gold" = 70 := by
  intro p q prestige
  have hp : p.Reachable guildEconomy := .run "ann" 0 _ _
  have hq : q.Reachable guildEconomy := .run "ann" 0 _ _
  have hsame : SameButProgress p q := ⟨by decide +kernel, by decide +kernel, by decide +kernel⟩
  have hlisted : (guildEconomy.catalog.prestige?.map fun item =>
      (item.cost, guildEconomy.askedBy item.block)) =
      some (.ofList [("gold", 3.0)], ["gold > 39", "7 + mill", "gold / 2"]) := by decide +kernel
  obtain ⟨item, hfound, hitem⟩ := Option.map_eq_some_iff.mp hlisted
  obtain ⟨hcost, hasked⟩ := Prod.mk.inj hitem
  have hpays : p.canAfford item.cost = true := by
    rw [hcost]
    decide +kernel
  have hpays' : q.canAfford item.cost = true := by
    rw [hcost]
    decide +kernel
  have hsafe : ∀ formula ∈ guildEconomy.askedBy item.block, Formula.Safe formula := by
    rw [hasked]
    decide +kernel
  obtain ⟨hboth, -, hgiven⟩ := performPrestige_eq_of_sameButProgress guildEconomy hp hq hsame
    hfound hpays hpays' 9 [] (guildEconomy.evaluator 1)
  obtain ⟨level, u, hlevel⟩ := hgiven hsafe
  have hgold : ((prestige.result? ⟨p, [], guildEconomy.evaluator 1, false⟩).map
      fun r => r.2.player.resource "gold") = some 70 := by decide +kernel
  have hsecond : prestige.result? ⟨q, [], guildEconomy.evaluator 1, false⟩ =
      prestige.result? ⟨p, [], guildEconomy.evaluator 1, false⟩ :=
    Rule.result?_congr hboth.symm
  refine ⟨by decide +kernel, level, u, hlevel, hsecond.trans hlevel, ?_⟩
  rw [hlevel] at hgold
  exact Option.some_inj.mp hgold

/-! ### A lottery -/

/-- A formula for almost 10³⁰⁸, where there are 10¹⁹ of `g`. -/
def jackpot : String := "g*g*g*g*g*g*g*g*g*g*g*g*g*g*g*g*9999"

/-- A document of a prestige that yields whatever is drawn from a range twice as wide as that. -/
def lotteryDocument : Json := .obj [
  ("prestige", .obj [("prestige", .obj [
    ("effects", .arr [.str ("yield:g:frandom(0 - " ++ jackpot ++ ", " ++ jackpot ++ ")")])])]),
  ("resources", .obj [("g", .obj [("initial", .num (.int 10000000000000000000))])])]

/-- The economy of the lottery. -/
def lotteryEconomy : Economy := .ofDocument lotteryDocument

/-- One who plays, with some more of `g`. -/
def lotteryPlayer (more : Float) : Player :=
  (Move.run lotteryEconomy [.add "g" more]
    ⟨.start "ann" lotteryEconomy.catalog 0, [], lotteryEconomy.evaluator 0, false⟩).player

/-- **A prestige that draws from too wide a range is broken off**, and there is no level that two
players come to, though they differ in half a `g` only and the prestige costs nothing. -/
theorem exists_prestige_broken_off :
    ∃ item, lotteryEconomy.catalog.prestige? = some item ∧
      (lotteryPlayer 0).Reachable lotteryEconomy ∧ (lotteryPlayer 0.5).Reachable lotteryEconomy ∧
      SameButProgress (lotteryPlayer 0) (lotteryPlayer 0.5) ∧
      ∀ p ∈ [lotteryPlayer 0, lotteryPlayer 0.5], p.canAfford item.cost = true ∧
        (Rule.result? (lotteryEconomy.performPrestige 9).run
          ⟨p, [], lotteryEconomy.evaluator 1, false⟩).isNone = true := by
  have hfree : (lotteryEconomy.catalog.prestige?.map fun item => item.cost) = some .empty := by
    decide +kernel
  obtain ⟨item, hfound, hcost⟩ := Option.map_eq_some_iff.mp hfree
  have hreached (more : Float) : (lotteryPlayer more).Reachable lotteryEconomy :=
    .run "ann" 0 _ _
  have hsame : SameButProgress (lotteryPlayer 0) (lotteryPlayer 0.5) :=
    ⟨by decide +kernel, by decide +kernel, by decide +kernel⟩
  refine ⟨item, hfound, hreached 0, hreached 0.5, hsame, ?_⟩
  rw [hcost]
  decide +kernel

end Economy

end IncrementalGame
