import IncrementalGame.Proofs.Server.OncePerTick

/-!
# Runs in which nobody says who comes first

A tick updates the players of all entries, and it does not matter to a tick in which order.  A run
of a server over a table (`Runs`) obeys its orders one after the other, but in each tick the updates
are made in some order, and before each order some time may have passed, so that results are
forgotten or not.  A run gives the reply to each command, together with the id that it is for.

What `Server.obeyAll` does is one such run: there the updates are made in the order of the listing
(`runs_obeyAll`).
-/

namespace IncrementalGame.Server

variable {σ : Type} [PlayerStore σ]

/-! ## Updates in a given order -/

/-- An entry to be updated, and its place in the listing. -/
abbrev Update := Except StoreError String × Nat

/-- Advances the players of entries in the order given. -/
def advanceEach (now : UInt64) :
    List Update → StateM (Server σ) (List (Except TickFailure String))
  | [] => return []
  | (entry, index) :: rest => do
    let result ← (advanceEntry now index entry).run
    let others ← advanceEach now rest
    return result :: others

/-- A tick in which the updates are made in the order given. -/
def tickIn (now : UInt64) (updates : List Update) : StateM (Server σ) Round := do
  let results ← advanceEach now updates
  report results

variable {now : UInt64}

theorem advanceEach_nil (s : Server σ) : (advanceEach now [] s).2 = s := rfl

/-- What is done for an update comes before what is done for the others. -/
theorem advanceEach_cons (entry : Except StoreError String) (index : Nat) (rest : List Update)
    (s : Server σ) :
    (advanceEach now ((entry, index) :: rest) s).2 =
      (advanceEach now rest (advanceEntry now index entry s).2).2 := rfl

theorem advanceEach_append (updates others : List Update) (s : Server σ) :
    (advanceEach now (updates ++ others) s).2 =
      (advanceEach now others (advanceEach now updates s).2).2 := by
  induction updates generalizing s with
  | nil => rfl
  | cons update rest ih =>
    obtain ⟨entry, index⟩ := update
    rw [List.cons_append, advanceEach_cons, advanceEach_cons, ih]

/-- The order of the listing is one of the orders. -/
theorem advanceEach_zipIdx (index : Nat) (entries : List (Except StoreError String)) :
    (advanceEach now (entries.zipIdx index) : StateM (Server σ) _) =
      advanceAll now index entries := by
  induction entries generalizing index with
  | nil => rfl
  | cons entry rest ih => rw [List.zipIdx_cons, advanceEach, ih, advanceAll]

theorem tickIn_zipIdx (s : Server MemoryStore) :
    tickIn now (entriesOf s.store).zipIdx s = tick now s := by
  rw [tickIn, advanceEach_zipIdx, tick_apply, loadAll_memory]

/-! ## Runs -/

/-- The server at an instant of the clock that results are remembered by. -/
def atInstant (s : Server σ) (instant : Nat) : Server σ :=
  { s with evaluator := { s.evaluator with instant := instant } }

/-- A reply to a command, and for whom it is. -/
abbrev Answered := String × Except ServiceError String

/-- Whether orders may lead from one server to another, with some answers. -/
inductive Runs : Server MemoryStore → List Order → List Answered → Server MemoryStore → Prop where
  /-- There is nothing to do. -/
  | done (s : Server MemoryStore) : Runs s [] [] s
  /-- A command is executed at some instant. -/
  | command (instant : Nat) {s t : Server MemoryStore} {id : String} {now : UInt64}
    {command : Command} {orders : List Order} {answers : List Answered}
    (rest : Runs (execute id now command (s.atInstant instant)).2 orders answers t) :
    Runs s (.command id now command :: orders)
      ((id, (execute id now command (s.atInstant instant)).1) :: answers) t
  /-- The players of all entries are updated at some instant, in some order. -/
  | tick (instant : Nat) {s t : Server MemoryStore} {now : UInt64} {updates : List Update}
    {orders : List Order} {answers : List Answered}
    (order : updates.Perm (entriesOf s.store).zipIdx)
    (rest : Runs (tickIn now updates (s.atInstant instant)).2 orders answers t) :
    Runs s (.tick now :: orders) answers t

/-- **To obey orders is one way to run them.** -/
theorem runs_obeyAll (s : Server MemoryStore) (orders : List Order) :
    ∃ answers, Runs s orders answers (s.obeyAll orders) := by
  induction orders generalizing s with
  | nil => exact ⟨[], .done s⟩
  | cons order rest ih =>
    obtain ⟨answers, hrest⟩ := ih (s.obey order)
    cases order with
    | command id now command => exact ⟨_, .command s.evaluator.instant hrest⟩
    | tick now =>
      refine ⟨answers, .tick s.evaluator.instant (List.Perm.refl _) ?_⟩
      show Runs (tickIn now (entriesOf s.store).zipIdx s).2 rest answers _
      rw [tickIn_zipIdx]
      exact hrest

end IncrementalGame.Server
