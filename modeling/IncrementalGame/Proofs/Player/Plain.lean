import IncrementalGame.Proofs.Catalog.Tame
import IncrementalGame.Proofs.Economy.Quiet

/-!
# Players with plain names

The names that formulas may use are those of what a player has.  Where these are plain, so are the
names of the variables (`Player.Plain.separable`).  A new player has only names of the catalog, and
of what the rules do to a player only a gain, a purchase and an unlocked achievement add a name.
-/

namespace IncrementalGame.Player

/-- Whether the names of all that a player has are plain. -/
structure Plain (p : Player) : Prop where
  resources : p.resources.Plain
  buildings : p.buildings.Plain
  upgrades : p.upgrades.Plain
  achievements : p.achievements.Plain

variable {p : Player}

/-! ## Variables -/

theorem plain_bindGreatest {vars : Formula.Variables} (h : vars.Plain) {name : String}
    (hname : PlainName name) (x : Float) : (bindGreatest vars name x).Plain := by
  rw [bindGreatest]
  split
  · exact h.insert hname _
  · exact h.insert hname _

theorem Plain.of_mem_bindings (h : p.Plain) {binding : String × Float}
    (hbinding : binding ∈ p.bindings) : PlainName binding.1 := by
  simp only [bindings, List.mem_append, List.mem_flatMap, List.mem_map, List.mem_singleton]
    at hbinding
  rcases hbinding with
    (((⟨entry, hentry, hnames⟩ | ⟨entry, hentry, rfl⟩) | ⟨entry, hentry, rfl⟩) |
      ⟨entry, hentry, rfl⟩) | rfl
  · -- the statistics of a resource have its name and an ending
    have hname := h.resources entry hentry
    simp only [resourceBindings, List.mem_cons, List.not_mem_nil, or_false] at hnames
    rcases hnames with rfl | rfl | rfl | rfl
    · exact hname
    · exact hname.append (by decide)
    · exact hname.append (by decide)
    · exact hname.append (by decide)
  · exact h.buildings entry hentry
  · exact h.upgrades entry hentry
  · exact h.achievements entry hentry
  · show PlainName "prestige"
    decide

/-- **The variables of a player with plain names have separable names.** -/
theorem Plain.separable (h : p.Plain) : Formula.Separable p.formulaVariables :=
  List.foldlRecOn (motive := KeyMap.Plain) p.bindings _ KeyMap.plain_empty
    fun _ hvars _ hbinding => plain_bindGreatest hvars (h.of_mem_bindings hbinding) _

/-! ## What adds no name, and what adds a plain one -/

theorem Plain.pushLog (h : p.Plain) (message : String) (capacity : Nat) :
    (p.pushLog message capacity).Plain :=
  ⟨h.resources, h.buildings, h.upgrades, h.achievements⟩

theorem Plain.removeResource (h : p.Plain) (key : String) (amount : Float) :
    (p.removeResource key amount).Plain := by
  rw [Player.removeResource]
  split
  · exact h
  next balance hbalance =>
    exact ⟨h.resources.insert (h.resources.of_get? hbalance) _, h.buildings, h.upgrades,
      h.achievements⟩

theorem Plain.setResource (h : p.Plain) {key : String} (hkey : PlainName key) (amount : Float) :
    (p.setResource key amount).Plain :=
  ⟨h.resources.insert hkey _, h.buildings, h.upgrades, h.achievements⟩

theorem Plain.addResource (h : p.Plain) {key : String} (hkey : PlainName key) (amount : Float) :
    (p.addResource key amount).Plain := by
  rcases p.addResource_cases key amount with hadd | hadd | ⟨-, -, hadd⟩
  · rw [hadd]
    exact h
  · rw [hadd]
    exact h.removeResource key (-amount)
  · rw [hadd]
    exact ⟨h.resources.insert hkey _, h.buildings, h.upgrades, h.achievements⟩

theorem Plain.addAll (h : p.Plain) {amounts : KeyMap Float} (hnames : amounts.Plain) :
    (amounts.foldl Player.addResource p).Plain :=
  List.foldlRecOn amounts.entries _ h fun _ hp entry hentry =>
    hp.addResource (hnames entry hentry) entry.2

theorem Plain.debit (h : p.Plain) (cost : KeyMap Float) : (p.debit cost).Plain :=
  List.foldlRecOn cost.entries _ h fun _ hp entry _ => hp.removeResource entry.1 entry.2

theorem Plain.spend (h : p.Plain) {cost : KeyMap Float} {q : Player}
    (hspend : p.spend cost = .ok q) : q.Plain := by
  rw [Player.spend] at hspend
  split at hspend
  · exact absurd hspend (by simp)
  · rw [← Except.ok.inj hspend]
    exact h.debit cost

/-! ## What a catalog does to a player -/

variable {catalog : Catalog}

theorem Plain.resetResources (h : p.Plain) (hcatalog : catalog.resources.Plain) :
    (p.resetResources catalog).Plain := by
  have hkeys : ∀ key ∈ p.resources.keys ++ catalog.resources.keys, PlainName key := by
    intro key hkey
    rcases List.mem_append.mp hkey with hkey | hkey
    · exact h.resources.of_mem_keys hkey
    · exact hcatalog.of_mem_keys hkey
  exact List.foldlRecOn _ _ h fun _ hp key hkey => hp.setResource (hkeys key hkey) _

theorem Plain.resetProgress (h : p.Plain) (hcatalog : catalog.Plain) :
    (p.resetProgress catalog).Plain := by
  have hreset := h.resetResources (hcatalog.category _)
  exact ⟨hreset.resources, hreset.buildings.map _, hreset.upgrades, hreset.achievements⟩

theorem Plain.startResource (h : p.Plain) {key : String} (hkey : PlainName key) (initial : Float) :
    (p.startResource key initial).Plain := by
  have hp : Plain { p with
      multipliers := p.multipliers.insert key 1.0
      stats := p.stats.insert key .none } :=
    ⟨h.resources, h.buildings, h.upgrades, h.achievements⟩
  exact hp.setResource hkey initial

/-- A new player has only names of the catalog. -/
theorem plain_start (id : String) (hcatalog : catalog.Plain) (now : UInt64) :
    (Player.start id catalog now).Plain := by
  have hblank : Plain { blank with
      id := id
      lastUpdate := now
      buildings := catalog.buildings.map (fun _ item => wholeCount item.initial)
      upgrades := catalog.upgrades.map (fun _ _ => false) } :=
    ⟨KeyMap.plain_empty, (hcatalog.category _).map _, (hcatalog.category _).map _,
      KeyMap.plain_empty⟩
  exact List.foldlRecOn catalog.resources.entries _ hblank fun _ hp entry hentry =>
    hp.startResource (hcatalog.category _ entry hentry) _

end IncrementalGame.Player
