import IncrementalGame.Proofs.Economy.Course
import IncrementalGame.Proofs.Server.OncePerTick
import IncrementalGame.Proofs.Server.Publishing

/-!
# Which entry a command writes

A command for an id changes the player that is stored under the id, and stores it under the id that
the player has.  That is one entry (`Writes`), and no rule changes the id of a player, so the entry
is the one that was read if the player was stored under its own id (`writes_execute`).

A text that came to be stored under another id, or that names none, is read and left as it is, and
what was made of it is written to the entry of the id that it names (`exists_written_elsewhere`).
-/

namespace IncrementalGame.Server

variable {σ : Type} [PlayerStore σ]

/-- Whether the text of a player is put under its own id, and nothing else of the store differs. -/
structure Writes (store store' : σ) (p : Player) : Prop where
  self : PlayerStore.load store' p.id = .ok (Snapshot.encode p)
  others : ∀ {other : String}, other ≠ p.id →
    PlayerStore.load store' other = PlayerStore.load store other

/-- To store a player with success is to write it. -/
theorem Writes.of_save [FaithfulStore σ] {store : σ} {p : Player}
    (h : (PlayerStore.save store p.id (Snapshot.encode p)).1 = .ok ()) :
    Writes store (PlayerStore.save store p.id (Snapshot.encode p)).2 p where
  self := FaithfulStore.load_save_self store p.id (Snapshot.encode p) h
  others := FaithfulStore.load_save_of_ne store p.id (Snapshot.encode p)

/-- **What was written is read again** just if each of its numbers is. -/
theorem Writes.stored_iff {s s' : Server σ} {p : Player} (h : Writes s.store s'.store p) :
    s'.stored p.id = some p ↔ ∀ x ∈ p.reals, Snapshot.Exact x := by
  rw [stored_of_load h.self, Snapshot.decode_encode_iff]

/-! ## Requests -/

variable [FaithfulStore σ] {id : String} {s : Server σ}

/-- A request that succeeds writes what the action made of the player that was found. -/
theorem writes_commit {α : Type} {action : Economy → Action α}
    (h : (commit id action s).1.isOk = true) :
    ∃ w, s.operated id (action s.economy).run = some w ∧
      Writes s.store (commit id action s).2.store w.player := by
  cases hstored : s.stored id with
  | none =>
    obtain ⟨error, hfind⟩ := find_of_not_stored hstored
    rw [commit, Fallible.bind_error _ hfind] at h
    exact absurd h Bool.false_ne_true
  | some p =>
    rw [operated_of_stored hstored]
    rw [commit, Fallible.bind_ok _ (find_of_stored hstored), Fallible.bind_get,
      Fallible.bind_lift, act_apply] at h ⊢
    let acted : Server σ :=
      { s with evaluator := ((action s.economy).run ⟨p, [], s.evaluator, false⟩).2.evaluator }
    generalize Rule.result? (action s.economy).run ⟨p, [], s.evaluator, false⟩ = reached at h ⊢
    rcases reached with _ | ⟨_ | a, world⟩
    · exact absurd h Bool.false_ne_true
    · exact absurd h Bool.false_ne_true
    · refine ⟨world, rfl, ?_⟩
      simp only [Option.map_some] at h ⊢
      cases hsave : (PlayerStore.save s.store world.player.id
          (Snapshot.encode world.player)).1 with
      | error error =>
        rw [Fallible.bind_error _ (save_of_error (s := acted) hsave)] at h
        exact absurd h Bool.false_ne_true
      | ok _ =>
        rw [Fallible.bind_ok _ (save_of_ok (s := acted) hsave)]
        exact .of_save hsave

/-- The same with a reply, for an action that keeps the id of the player. -/
theorem writes_reply {α : Type} {action : Economy → Action α}
    (hcourse : ∀ (e : Economy) (w : World), Course e w (action e w).2) (reply : α → String)
    (h : ((commit id action >>= fun a => pure (reply a)) s).1.isOk = true) :
    ∃ p w, s.stored id = some p ∧ s.operated id (action s.economy).run = some w ∧
      w.player.id = p.id ∧
      Writes s.store ((commit id action >>= fun a => pure (reply a)) s).2.store w.player := by
  obtain ⟨hserver, hok⟩ := reply_apply (commit id action) reply s
  rw [hok] at h
  rw [hserver]
  obtain ⟨w, hoperated, hwrites⟩ := writes_commit h
  obtain ⟨p, hstored, -, hw⟩ := exists_of_operated hoperated
  refine ⟨p, w, hstored, hoperated, ?_, hwrites⟩
  rw [hw]
  exact (hcourse s.economy ⟨p, [], s.evaluator, false⟩).id_eq

/-! ## Commands -/

/-- A command that succeeds writes what the operation made of the player that was found. -/
theorem writes_operation {now : UInt64} {command : Command} (h : operates command = true)
    (hok : (execute id now command s).1.isOk = true) :
    ∃ p w, s.stored id = some p ∧ s.operation id now command = some w ∧ w.player.id = p.id ∧
      Writes s.store (execute id now command s).2.store w.player := by
  cases command with
  | buy key => exact writes_reply (fun e w => e.course_buy w key) Reply.bought hok
  | sell key => exact writes_reply (fun e w => e.course_sell w key) (Reply.sold key) hok
  | prestige => exact writes_reply (fun e w => e.course_performPrestige w now) Reply.prestige hok
  | create | status | resources | buildings | help => exact absurd h (by simp [operates])

/-- **A command writes one entry**, that of the id which the player it found has.  What is written
is what the operation made of the player, and it is read again just if its numbers are; no other
entry differs.  So the entry is the command's own just if the player was stored under its own id,
and else the command's own entry is left as it was. -/
theorem writes_execute (s : Server σ) (id : String) (now : UInt64) (command : Command)
    (h : operates command = true) (hok : (execute id now command s).1.isOk = true) :
    let s' := (execute id now command s).2
    ∃ p w, s.stored id = some p ∧ s.operation id now command = some w ∧ w.player.id = p.id ∧
      PlayerStore.load s'.store p.id = .ok (Snapshot.encode w.player) ∧
      (s'.stored p.id = some w.player ↔ ∀ x ∈ w.player.reals, Snapshot.Exact x) ∧
      ∀ other, other ≠ p.id → PlayerStore.load s'.store other = PlayerStore.load s.store other := by
  obtain ⟨p, w, hstored, hw, hid, hwrites⟩ := writes_operation h hok
  refine ⟨p, w, hstored, hw, hid, ?_, ?_, fun other hother => ?_⟩
  · rw [← hid]
    exact hwrites.self
  · rw [← hid]
    exact hwrites.stored_iff
  · rw [← hid] at hother
    exact hwrites.others hother

/-! ### A buyer -/

/-- A document of a mine that costs ten gold. -/
def stallDocument : Json := .obj [
  ("buildings", .obj [("mine", .obj [("cost", .obj [("gold", .num (.int 10))])])]),
  ("resources", .obj [("gold", .obj [])])]

/-- The economy of the mine that is for sale. -/
def stallEconomy : Economy := .ofDocument stallDocument

/-- A server that keeps one text for `ann`. -/
def stall (text : String) : Server MemoryStore :=
  ofEconomy stallEconomy (MemoryStore.empty.save "ann" text) 0

/-- The text of a player with twenty gold. -/
def buyerText : String := "\x7b\"id\":\"ann\",\"resources\":\x7b\"gold\":20\x7d\x7d"

/-- The same without an id. -/
def strangerText : String := "\x7b\"resources\":\x7b\"gold\":20\x7d\x7d"

/-- A player with twenty gold. -/
def buyer (id : String) : Player :=
  { Player.blank with id := id, resources := KeyMap.empty.insert "gold" 20 }

/-- What becomes of such a player who buys the mine. -/
def owner (id : String) : Player :=
  { buyer id with
    resources := KeyMap.empty.insert "gold" 10
    buildings := KeyMap.empty.insert "mine" 1
    log := ["Bought building: mine (now have 1)"] }

theorem stored_stall_buyer : (stall buyerText).stored "ann" = some (buyer "ann") :=
  (stored_of_load (load_save_memory _ _ _)).trans (by decide +kernel)

theorem stored_stall_stranger : (stall strangerText).stored "ann" = some (buyer "") :=
  (stored_of_load (load_save_memory _ _ _)).trans (by decide +kernel)

theorem owner_of_buyer {id : String} (h : id ∈ ["ann", ""]) :
    ((stallEconomy.buy "mine").run ⟨buyer id, [], stallEconomy.evaluator 0, false⟩).2.player =
      owner id := by
  simp only [List.mem_cons, List.not_mem_nil, or_false] at h
  rcases h with rfl | rfl <;> decide +kernel

theorem operation_stall {text id : String} (hstored : (stall text).stored "ann" = some (buyer id))
    (h : id ∈ ["ann", ""]) :
    ∃ w, (stall text).operation "ann" 0 (.buy "mine") = some w ∧ w.player = owner id := by
  have hbuy : (Rule.result? (stallEconomy.buy "mine").run
      ⟨buyer id, [], stallEconomy.evaluator 0, false⟩).isSome = true := by
    simp only [List.mem_cons, List.not_mem_nil, or_false] at h
    rcases h with rfl | rfl <;> decide +kernel
  obtain ⟨⟨purchase, w⟩, hresult⟩ := Option.isSome_iff_exists.mp hbuy
  have hplayer := owner_of_buyer h
  obtain ⟨-, hrule⟩ := Rule.result?_eq_some_iff.mp hresult
  rw [hrule] at hplayer
  refine ⟨w, ?_, hplayer⟩
  exact (operated_of_stored hstored _).trans (congrArg (Option.map (·.2)) hresult)

/-- Ann's purchase is written to her entry, and nobody else has one. -/
theorem writes_execute_of_buyer :
    let s' := (execute "ann" 0 (.buy "mine") (stall buyerText)).2
    operates (.buy "mine") = true ∧
      (execute "ann" 0 (.buy "mine") (stall buyerText)).1.isOk = true ∧
      PlayerStore.load s'.store "ann" = .ok (Snapshot.encode (owner "ann")) ∧
      s'.stored "ann" = some (owner "ann") ∧
      PlayerStore.load s'.store "" = .error (.notFound "") := by
  have hok : (execute "ann" 0 (.buy "mine") (stall buyerText)).1.isOk = true := by decide +kernel
  obtain ⟨p, w, hstored, hw, -, hself, hread, hothers⟩ :=
    writes_execute (stall buyerText) "ann" 0 (.buy "mine") rfl hok
  obtain rfl := Option.some_inj.mp (stored_stall_buyer.symm.trans hstored)
  obtain ⟨v, hv, howner⟩ := operation_stall stored_stall_buyer (by decide)
  obtain rfl := Option.some_inj.mp (hv.symm.trans hw)
  rw [howner] at hself hread
  refine ⟨rfl, hok, hself, hread.mpr (by decide), ?_⟩
  exact (hothers "" (by decide)).trans (load_save_memory_of_ne _ (by decide) _)

/-- **A purchase may be written to another entry.**  The text stored for Ann names no id; her
purchase succeeds, her entry is as it was, and the mine belongs to the entry of the empty id, which
was not there before. -/
theorem exists_written_elsewhere :
    let s := stall strangerText
    let s' := (execute "ann" 0 (.buy "mine") s).2
    s.stored "ann" = some (buyer "") ∧ PlayerStore.load s.store "" = .error (.notFound "") ∧
      (execute "ann" 0 (.buy "mine") s).1.isOk = true ∧
      PlayerStore.load s'.store "ann" = PlayerStore.load s.store "ann" ∧
      s'.stored "ann" = some (buyer "") ∧ s'.stored "" = some (owner "") := by
  intro s s'
  have hok : (execute "ann" 0 (.buy "mine") s).1.isOk = true := by decide +kernel
  have hnone : PlayerStore.load s.store "" = .error (.notFound "") :=
    load_save_memory_of_ne _ (by decide) _
  obtain ⟨p, w, -, hw, -, hwrites⟩ := writes_operation rfl hok
  obtain ⟨v, hv, howner⟩ := operation_stall stored_stall_stranger (by decide)
  obtain rfl := Option.some_inj.mp (hv.symm.trans hw)
  rw [howner] at hwrites
  have hkept : PlayerStore.load s'.store "ann" = PlayerStore.load s.store "ann" :=
    hwrites.others (by decide)
  refine ⟨stored_stall_stranger, hnone, hok, hkept, ?_, hwrites.stored_iff.mpr (by decide)⟩
  rw [stored, hkept]
  exact stored_stall_stranger

end IncrementalGame.Server
