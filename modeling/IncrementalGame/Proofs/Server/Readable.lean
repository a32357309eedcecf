import IncrementalGame.Proofs.Catalog.Keyed
import IncrementalGame.Proofs.Economy.Carry
import IncrementalGame.Proofs.Economy.Rates
import IncrementalGame.Proofs.Player.Snapshot
import IncrementalGame.Proofs.Server.HonestStore
import IncrementalGame.Proofs.Server.Saves

/-!
# What a server stores can be read

A server that starts from nothing loads only what it has stored itself.  So each player that it
stores has come from a new player by the rules alone, and what is carried is finite in all of them
(`Kept`).  The text of such a player gives back the player if its multipliers and its rates are
finite, and nothing if they are not.

They need not be.  Factors are multiplied without a look at the product, so a single prestige may
leave a multiplier that is not finite (`inflationDocument`).  To create a player, to buy and to sell
does no harm (`Kept.hasFiniteRates_saves`).
-/

namespace IncrementalGame

/-- A player that carries fractions has only finite numbers just if its rates are finite. -/
theorem Player.Carries.reals_isFinite_iff {p : Player} (h : p.Carries) :
    (∀ x ∈ p.reals, x.isFinite = true) ↔ p.hasFiniteRates = true := by
  rw [hasFiniteRates, Bool.and_eq_true, List.all_eq_true, List.all_eq_true]
  refine ⟨fun hfinite => ⟨fun e he => hfinite _ (Snapshot.mem_reals_of_multipliers he),
    fun e he => hfinite _ (Snapshot.mem_reals_of_stats he)⟩, ?_⟩
  rintro ⟨hmultipliers, hstats⟩ x hx
  rw [reals, List.mem_append, List.mem_append] at hx
  rcases hx with (hx | hx) | hx
  · obtain ⟨e, he, rfl⟩ := List.mem_map.mp hx
    exact (h e.1 e.2 (KeyMap.mem_entries_iff.mp he)).finite
  · obtain ⟨e, he, rfl⟩ := List.mem_map.mp hx
    exact hmultipliers e he
  · obtain ⟨e, he, rfl⟩ := List.mem_map.mp hx
    exact hstats e he

namespace Server

variable {σ : Type} [PlayerStore σ]

/-- Whether a server loads nothing but some players, who all carry fractions. -/
structure Kept (players : List Player) (s : Server σ) : Prop where
  carries : ∀ p ∈ players, p.Carries
  loads : ∀ id text, PlayerStore.load s.store id = .ok text →
    ∃ p ∈ players, text = Snapshot.encode p

namespace Kept

variable {players : List Player} {s s' : Server σ}

theorem of_store_eq (h : Kept players s) (hstore : s'.store = s.store) :
    Kept players s' := by
  refine ⟨h.carries, ?_⟩
  rw [hstore]
  exact h.loads

/-- What is read from the store is one of the players, and all its numbers are finite. -/
theorem mem_of_stored (h : Kept players s) (hkeeps : ∀ p ∈ players, Snapshot.KeepsFinite p)
    {id : String} {p : Player} (hp : s.stored id = some p) :
    p ∈ players ∧ ∀ x ∈ p.reals, x.isFinite = true := by
  rw [stored] at hp
  cases hload : PlayerStore.load s.store id with
  | error error =>
    rw [hload] at hp
    exact absurd hp (by simp)
  | ok text =>
    rw [hload] at hp
    obtain ⟨saved, hsaved, rfl⟩ := h.loads id text hload
    obtain rfl := Snapshot.eq_of_decode_encode (hkeeps saved hsaved) hp
    refine ⟨hsaved, ?_⟩
    by_contra hnot
    have hnone := Snapshot.decode_encode_eq_none hnot
    exact absurd (hp.symm.trans hnone) (by simp)

/-- What a rule makes of a stored player carries fractions. -/
theorem carries_changed (h : Kept players s) (hkeeps : ∀ p ∈ players, Snapshot.KeepsFinite p)
    {α : Type} {rule : Rule α} {e : Economy} (hrule : rule.Keeps (Course e)) {id : String}
    {p : Player} (hp : s.changed id rule = some p) : p.Carries := by
  obtain ⟨q, hq, rfl⟩ := exists_of_changed hp
  exact Player.Carries.course (hrule ⟨q, [], s.evaluator, false⟩)
    (h.carries q (h.mem_of_stored hkeeps hq).1)

/-- What a rule that leaves multipliers and rates alone makes of a stored player has finite ones. -/
theorem hasFiniteRates_changed (h : Kept players s)
    (hkeeps : ∀ p ∈ players, Snapshot.KeepsFinite p) {α : Type} {rule : Rule α}
    (hrule : ∀ w, SameRates w.player (rule w).2.player) {id : String} {p : Player}
    (hp : s.changed id rule = some p) : p.hasFiniteRates = true := by
  obtain ⟨q, hq, rfl⟩ := exists_of_changed hp
  obtain ⟨hmem, hfinite⟩ := h.mem_of_stored hkeeps hq
  exact (hrule ⟨q, [], s.evaluator, false⟩).hasFiniteRates
    ((h.carries q hmem).reals_isFinite_iff.mp hfinite)

/-- A step that stores a player that carries fractions keeps what is loaded among the players. -/
theorem stores [HonestStore σ] (h : Kept players s) {player : Option Player} {succeeded : Bool}
    (hstep : Stores s s' player succeeded) (hplayer : ∀ p, player = some p → p.Carries) :
    Kept (players ++ savedIf succeeded player) s' := by
  constructor
  · intro p hp
    rcases List.mem_append.mp hp with hp | hp
    · exact h.carries p hp
    · exact hplayer p (eq_some_of_mem_savedIf hp)
  · intro id text hload
    have hold : PlayerStore.load s.store id = .ok text →
        ∃ p ∈ players ++ savedIf succeeded player, text = Snapshot.encode p := by
      intro hload
      obtain ⟨p, hp, htext⟩ := h.loads id text hload
      exact ⟨p, List.mem_append_left _ hp, htext⟩
    cases hstep with
    | keep hstore =>
      rw [hstore] at hload
      exact hold hload
    | write key p hchanged hstore hsuccess =>
      rw [hstore] at hload
      rcases HonestStore.load_save s.store key (Snapshot.encode p) id text hload with
        ⟨htext, hok⟩ | hload
      · refine ⟨p, List.mem_append_right _ ?_, htext⟩
        rw [hsuccess hok, hchanged]
        exact List.mem_cons_self
      · exact hold hload

/-! ### Orders -/

/-- The player that a command stores carries fractions. -/
theorem carries_attempted (h : Kept players s) (hkeeps : ∀ p ∈ players, Snapshot.KeepsFinite p)
    (id : String) (now : UInt64) (command : Command) (p : Player)
    (hp : s.attempted id now command = some p) : p.Carries := by
  cases command with
  | create =>
    rw [← Option.some_inj.mp hp]
    exact Player.carries_start id s.economy.catalog now
  | buy key => exact h.carries_changed hkeeps (fun w => s.economy.course_buy w key) hp
  | sell key => exact h.carries_changed hkeeps (fun w => s.economy.course_sell w key) hp
  | prestige => exact h.carries_changed hkeeps (fun w => s.economy.course_performPrestige w now) hp
  | status | resources | buildings | help => exact absurd hp (by simp [attempted])

/-- The player that a command stores has finite rates, unless the command is prestige. -/
theorem hasFiniteRates_saves (h : Kept players s)
    (hkeeps : ∀ p ∈ players, Snapshot.KeepsFinite p) {id : String} {now : UInt64}
    {command : Command} (hcommand : command ≠ .prestige) {p : Player}
    (hp : p ∈ s.saves (.command id now command)) : p.hasFiniteRates = true := by
  have hattempted := eq_some_of_mem_savedIf hp
  cases command with
  | create =>
    rw [← Option.some_inj.mp hattempted]
    exact Player.hasFiniteRates_start id s.economy.catalog now
  | buy key =>
    exact h.hasFiniteRates_changed hkeeps (fun w => s.economy.sameRates_buy w key) hattempted
  | sell key =>
    exact h.hasFiniteRates_changed hkeeps (fun w => s.economy.sameRates_sell w key) hattempted
  | prestige => exact absurd rfl hcommand
  | status | resources | buildings | help => exact absurd hattempted (by simp [attempted])

/-- The player that a tick stores for an entry carries fractions. -/
theorem carries_ticked (h : Kept players s) (hkeeps : ∀ p ∈ players, Snapshot.KeepsFinite p)
    (now : UInt64) (entry : Except StoreError String) (p : Player)
    (hp : s.ticked now entry = some p) : p.Carries := by
  cases entry with
  | error error => exact absurd hp (by simp [ticked])
  | ok text =>
    rw [ticked, Option.bind_eq_some_iff] at hp
    obtain ⟨q, _, hq⟩ := hp
    exact h.carries_changed hkeeps (s.economy.course_tick now) hq

theorem advanceAll [HonestStore σ] (now : UInt64) (index : Nat)
    (entries : List (Except StoreError String)) (h : Kept players s)
    (hkeeps : ∀ p ∈ players ++ entrySaves now index entries s, Snapshot.KeepsFinite p) :
    Kept (players ++ entrySaves now index entries s) (advanceAll now index entries s).2 := by
  induction entries generalizing players index s with
  | nil =>
    rw [entrySaves, List.append_nil]
    exact h
  | cons entry rest ih =>
    rw [entrySaves, ← List.append_assoc] at hkeeps ⊢
    have hplayers : ∀ p ∈ players, Snapshot.KeepsFinite p := fun p hp =>
      hkeeps p (List.mem_append_left _ (List.mem_append_left _ hp))
    exact ih (index + 1) (h.stores (stores_advanceEntry now index entry s)
      (h.carries_ticked hplayers now entry)) hkeeps

/-- **An order keeps what is loaded among the players** that have been stored before and by it. -/
theorem obey [HonestStore σ] (h : Kept players s) (order : Order)
    (hkeeps : ∀ p ∈ players ++ s.saves order, Snapshot.KeepsFinite p) :
    Kept (players ++ s.saves order) (s.obey order) := by
  have hplayers : ∀ p ∈ players, Snapshot.KeepsFinite p := fun p hp =>
    hkeeps p (List.mem_append_left _ hp)
  cases order with
  | command id now command =>
    exact h.stores (stores_execute id now command s) (h.carries_attempted hplayers id now command)
  | tick now =>
    rw [saves] at hkeeps ⊢
    cases hlist : PlayerStore.loadAll s.store with
    | ok entries =>
      simp only [hlist] at hkeeps ⊢
      exact (h.advanceAll now 0 entries hkeeps).of_store_eq (store_tick_of_ok hlist now)
    | error error =>
      rw [List.append_nil]
      exact h.of_store_eq (store_tick_of_error hlist now)

theorem obeyAll [HonestStore σ] (h : Kept players s) (orders : List Order)
    (hkeeps : ∀ p ∈ players ++ s.allSaves orders, Snapshot.KeepsFinite p) :
    Kept (players ++ s.allSaves orders) (s.obeyAll orders) := by
  induction orders generalizing players s with
  | nil =>
    rw [allSaves, List.append_nil]
    exact h
  | cons order rest ih =>
    rw [allSaves, ← List.append_assoc] at hkeeps ⊢
    exact ih (h.obey order fun p hp => hkeeps p (List.mem_append_left _ hp)) hkeeps

end Kept

/-- A server that starts from nothing loads only what it has stored, and all players that it stores
carry fractions. -/
theorem kept_allSaves [HonestStore σ] {s : Server σ}
    (hempty : ∀ id text, PlayerStore.load s.store id ≠ .ok text) (orders : List Order)
    (hkeeps : ∀ p ∈ s.allSaves orders, Snapshot.KeepsFinite p) :
    Kept (s.allSaves orders) (s.obeyAll orders) := by
  have hkept : Kept [] s := ⟨fun p hp => absurd hp List.not_mem_nil,
    fun id text hload => absurd hload (hempty id text)⟩
  exact hkept.obeyAll orders hkeeps

/-- **What a server has stored is read back just if the multipliers and the rates are finite**, and
otherwise it is not read at all.  Of all commands only prestige may store what is not read back, and
nothing but what has been stored is ever loaded. -/
theorem decode_encode_of_saved [HonestStore σ] (s : Server σ)
    (hempty : ∀ id text, PlayerStore.load s.store id ≠ .ok text) (orders : List Order)
    (hkeeps : ∀ p ∈ s.allSaves orders, Snapshot.KeepsFinite p) :
    (∀ p ∈ s.allSaves orders,
      Snapshot.decode (Snapshot.encode p) = if p.hasFiniteRates then some p else none) ∧
    (∀ before id now command after, orders = before ++ .command id now command :: after →
      command ≠ .prestige → ∀ p ∈ (s.obeyAll before).saves (.command id now command),
        Snapshot.decode (Snapshot.encode p) = some p) ∧
    ∀ id text, PlayerStore.load (s.obeyAll orders).store id = .ok text →
      ∃ p ∈ s.allSaves orders, text = Snapshot.encode p := by
  have hkept := kept_allSaves hempty orders hkeeps
  have hread : ∀ p ∈ s.allSaves orders,
      Snapshot.decode (Snapshot.encode p) = if p.hasFiniteRates then some p else none := by
    intro p hp
    have hreals := (hkept.carries p hp).reals_isFinite_iff
    by_cases hfinite : p.hasFiniteRates = true
    · rw [if_pos hfinite]
      exact Snapshot.decode_encode (hkeeps p hp) (hreals.mpr hfinite)
    · rw [if_neg hfinite]
      rw [← hreals] at hfinite
      exact Snapshot.decode_encode_eq_none hfinite
  refine ⟨hread, ?_, hkept.loads⟩
  rintro before id now command after rfl hcommand p hp
  have hall := s.allSaves_append before (.command id now command :: after)
  have hkeeps' : ∀ p ∈ s.allSaves before, Snapshot.KeepsFinite p := by
    intro p hp
    rw [hall] at hkeeps
    exact hkeeps p (List.mem_append_left _ hp)
  have hfinite := (kept_allSaves hempty before hkeeps').hasFiniteRates_saves hkeeps' hcommand hp
  have hmem : p ∈ s.allSaves (before ++ .command id now command :: after) := by
    rw [hall, allSaves]
    exact List.mem_append_right _ (List.mem_append_left _ hp)
  rw [hread p hmem, if_pos hfinite]

/-! ### Inflation -/

/-- A document of gold, and of a prestige that costs nothing and multiplies gold by 10 ^ 300, and
once more by 10 ^ 300. -/
def inflationDocument : Json :=
  let factor : Json := .str "multiply:gold:1e300"
  .obj [
    ("prestige", .obj [("prestige", .obj [("effects", .arr [factor, factor])])]),
    ("resources", .obj [("gold", .obj [])])]

/-- The economy of the gold. -/
def inflationEconomy : Economy := .ofDocument inflationDocument

theorem load_inflationDocument : Catalog.load inflationDocument = .ok inflationEconomy.catalog :=
  Economy.load_eq_ofDocument (by decide +kernel)

/-- A server of the gold that has no players yet. -/
def inflation : Server MemoryStore := ofEconomy inflationEconomy .empty 0

/-- A player is created and performs prestige. -/
def inflate : List Order := [.command "ann" 1 .create, .command "ann" 2 .prestige]

/-- The player at first. -/
def poor : Player := Player.start "ann" inflationEconomy.catalog 1

/-- The player after prestige. -/
def rich : Player := (inflationEconomy.performPrestige 2 ⟨poor, [], inflation.evaluator, false⟩).2.player

theorem allSaves_inflate : inflation.allSaves inflate = [poor, rich] := by decide +kernel

theorem keepsFinite_of_inflate : ∀ p ∈ inflation.allSaves inflate, Snapshot.KeepsFinite p := by
  rw [allSaves_inflate]
  decide +kernel

/-- A new player is read back, and after prestige the player is not. -/
theorem decode_encode_of_inflation :
    (inflation.allSaves inflate).map Player.hasFiniteRates = [true, false] ∧
    (∀ p ∈ inflation.allSaves inflate,
      Snapshot.decode (Snapshot.encode p) = if p.hasFiniteRates then some p else none) ∧
    (∀ before id now command after, inflate = before ++ .command id now command :: after →
      command ≠ .prestige → ∀ p ∈ (inflation.obeyAll before).saves (.command id now command),
        Snapshot.decode (Snapshot.encode p) = some p) ∧
    ∀ id text, PlayerStore.load (inflation.obeyAll inflate).store id = .ok text →
      ∃ p ∈ inflation.allSaves inflate, text = Snapshot.encode p := by
  constructor
  · rw [allSaves_inflate]
    decide +kernel
  · exact decode_encode_of_saved inflation (fun id text h => by cases h) inflate
      keepsFinite_of_inflate

/-- **One prestige may be enough to lose a player**: the document is accepted and both commands
succeed, but what the second one has stored is no player. -/
theorem exists_saved_unreadable :
    Catalog.load inflationDocument = .ok inflationEconomy.catalog ∧
    (inflation.allSaves inflate).length = inflate.length ∧
    ∃ p ∈ inflation.allSaves inflate, Snapshot.decode (Snapshot.encode p) = none := by
  have hrich : rich ∈ inflation.allSaves inflate := by
    rw [allSaves_inflate]
    exact List.mem_cons_of_mem _ List.mem_cons_self
  refine ⟨load_inflationDocument, ?_, rich, hrich, ?_⟩
  · rw [allSaves_inflate, inflate]
    simp only [List.length_cons, List.length_nil]
  · exact Snapshot.decode_encode_eq_none (by decide +kernel)

end Server

end IncrementalGame
