import Mathlib.Tactic
import IncrementalGame.Proofs.CacheEntries
import IncrementalGame.Proofs.Formula.Chance
import IncrementalGame.Proofs.Formula.MemoKey

/-!
# A memory changes no answer

Several evaluators, each with a generator of its own, share one memory.  Whatever is asked of them
in whatever order, and whatever is forgotten in between, each answer and each generator is that of
an evaluator without a memory, which parses and computes every formula afresh.

The invariant is `Faithful`: an entry is what computing afresh gives, for all generators alike, for
every formula and every snapshot with the key of the entry.  Entries that are dropped do not disturb
it (`Faithful.of_within`).  What is written is the amount of a tree that does not hang on chance, so
it is the same for all generators, and its key belongs to no other formula and no other snapshot
(`Faithful.set`).
-/

namespace IncrementalGame.Formula

open IncrementalGame.Random (Generator)

/-! ## Computing afresh -/

theorem evaluateFresh_of_error {formula : String} {e : EvalError} (h : parse formula = .error e)
    (vars : Variables) (g : Generator) : evaluateFresh formula vars g = (.error e, g) := by
  rw [evaluateFresh]
  exact Fallible.bind_error _ (by rw [Drawing.ofExcept, h])

theorem evaluateFresh_of_ok {formula : String} {tree : Expr} (h : parse formula = .ok tree)
    (vars : Variables) (g : Generator) :
    evaluateFresh formula vars g = tree.amount vars g := by
  rw [evaluateFresh]
  exact Fallible.bind_ok _ (by rw [Drawing.ofExcept, h])

/-! ## The invariant of the memory -/

/-- Whether each result remembered is what computing afresh gives whatever the generator is. -/
def Faithful (memo : Cache Float) : Prop :=
  ∀ (key : String) (entry : CacheEntry Float), memo.entries[key]? = some entry →
    ∀ (formula : String) (vars : Variables), Separable vars → memoKey formula vars = key →
      ∀ g : Generator, evaluateFresh formula vars g = (.ok entry.value, g)

theorem faithful_empty : Faithful Cache.empty := by
  intro key entry h
  exact absurd h (by simp [Cache.empty, Std.TreeMap.empty_eq_emptyc])

theorem Faithful.of_within {memo memo' : Cache Float} (h : Faithful memo)
    (hwithin : Cache.Within memo' memo) : Faithful memo' :=
  fun key entry hentry => h key entry (hwithin key entry hentry)

/-- A result that does not hang on chance may be remembered. -/
theorem Faithful.set {memo : Cache Float} (h : Faithful memo) {formula : String} {tree : Expr}
    {vars : Variables} {g g' : Generator} {x : Float} (hvars : Separable vars)
    (hparse : parse formula = .ok tree) (hrandom : tree.isRandom = false)
    (hamount : tree.amount vars g = (.ok x, g')) (now lifetime : Nat) :
    Faithful (memo.set now (memoKey formula vars) x lifetime) := by
  intro key entry hentry other vars' hvars' hkey generator
  rcases Cache.mem_set hentry with ⟨hself, hvalue⟩ | hold
  · -- the key is that of the formula and the snapshot that were computed
    obtain ⟨rfl, rfl⟩ := eq_of_memoKey_eq hvars' hvars (hkey.trans hself.symm)
    obtain ⟨r, hr⟩ := Expr.idle_amount hrandom vars'
    have hok : r = .ok x := congrArg Prod.fst ((hr g).symm.trans hamount)
    rw [evaluateFresh_of_ok hparse, hr generator, hok, hvalue]
  · exact h key entry hold other vars' hvars' hkey generator

/-! ## One evaluator -/

/-- **An evaluator with a faithful memory answers as one without a memory does**, leaves its
generator in the same state, and keeps the memory faithful. -/
theorem Evaluator.evaluate_eq_fresh (ev : Evaluator) (h : Faithful ev.memo) (formula : String)
    {vars : Variables} (hvars : Separable vars) :
    (evaluate formula vars ev).1 = (evaluateFresh formula vars ev.generator).1 ∧
      (evaluate formula vars ev).2.generator = (evaluateFresh formula vars ev.generator).2 ∧
      Faithful (evaluate formula vars ev).2.memo := by
  have hwithin : Cache.Within (ev.memo.get ev.instant (memoKey formula vars)).2 ev.memo :=
    Cache.within_get ev.memo ev.instant (memoKey formula vars)
  rw [evaluate]
  cases hget : ev.memo.get ev.instant (memoKey formula vars) with
  | mk found memo =>
    rw [hget] at hwithin
    have hmemo : Faithful memo := h.of_within hwithin
    cases found with
    | some x =>
      -- a hit: the entry is what computing afresh would give
      obtain ⟨entry, hentry, hvalue⟩ := Cache.exists_entry_of_get (congrArg Prod.fst hget)
      have hfresh := h _ entry hentry formula vars hvars rfl ev.generator
      rw [hfresh, hvalue]
      exact ⟨rfl, rfl, hmemo⟩
    | none =>
      -- a miss: the formula is computed, and its result perhaps remembered
      simp only [compute]
      cases hparse : parse formula with
      | error e =>
        rw [evaluateFresh_of_error hparse]
        exact ⟨rfl, rfl, hmemo⟩
      | ok tree =>
        rw [evaluateFresh_of_ok hparse]
        simp only
        cases hamount : tree.amount vars ev.generator with
        | mk r g =>
          cases r with
          | error e => exact ⟨rfl, rfl, hmemo⟩
          | ok x =>
            simp only
            cases hrandom : tree.isRandom with
            | true => exact ⟨rfl, rfl, hmemo⟩
            | false => exact ⟨rfl, rfl, hmemo.set hvars hparse hrandom hamount _ _⟩

/-! ## Many evaluators over one memory -/

/-- What may happen to evaluators that share a memory. -/
inductive Request where
  /-- One of them, which remembers results for so long, is asked for a formula. -/
  | ask (evaluator lifetime : Nat) (formula : String) (vars : Variables)
  /-- All results are forgotten. -/
  | forget
  /-- The stale results are forgotten. -/
  | purge
  /-- The result under one key is forgotten. -/
  | drop (key : String)
  /-- Time passes. -/
  | wait (duration : Nat)

/-- The answer of an evaluator: none if there was nothing to answer. -/
abbrev Answer := Option (Except EvalError Float)

namespace Request

/-- Whether the names of the variables contain no separator. -/
def IsSeparable : Request → Prop
  | ask _ _ _ vars => Separable vars
  | _ => True

instance : DecidablePred IsSeparable
  | ask _ _ _ vars => inferInstanceAs (Decidable (Separable vars))
  | forget | purge | drop _ | wait _ => .isTrue trivial

/-- What a request does to evaluators with a memory. -/
def perform : Request → Evaluators → Answer × Evaluators
  | ask i lifetime formula vars, evs =>
    Evaluators.onOne i (Evaluator.evaluate formula vars) { evs with lifetime := lifetime }
  | forget, evs => (none, (Evaluators.forget evs).2)
  | purge, evs => (none, (Evaluators.purge evs).2)
  | drop key, evs => (none, { evs with memo := (evs.memo.remove evs.instant key).2 })
  | wait duration, evs => (none, (Evaluators.wait duration evs).2)

/-- What a request does to evaluators without a memory, of which there is nothing but generators. -/
def performFresh : Request → List Generator → Answer × List Generator
  | ask i _ formula vars, generators =>
    match generators[i]? with
    | none => (none, generators)
    | some g =>
      let (answer, g) := evaluateFresh formula vars g
      (some answer, generators.set i g)
  | _, generators => (none, generators)

/-- A request changes no answer and no generator by the memory, and keeps it faithful. -/
theorem perform_eq_fresh (r : Request) (hr : r.IsSeparable) {evs : Evaluators}
    (h : Faithful evs.memo) :
    (r.perform evs).1 = (r.performFresh evs.generators).1 ∧
      (r.perform evs).2.generators = (r.performFresh evs.generators).2 ∧
      Faithful (r.perform evs).2.memo := by
  cases r with
  | ask i lifetime formula vars =>
    simp only [perform, performFresh, Evaluators.onOne]
    cases hi : evs.generators[i]? with
    | none => exact ⟨rfl, rfl, h⟩
    | some g =>
      obtain ⟨hanswer, hgenerator, hmemo⟩ :=
        Evaluator.evaluate_eq_fresh ⟨evs.memo, g, lifetime, evs.instant⟩ h formula hr
      exact ⟨congrArg some hanswer, congrArg (evs.generators.set i) hgenerator, hmemo⟩
  | forget => exact ⟨rfl, rfl, h.of_within (Cache.within_clear _)⟩
  | purge => exact ⟨rfl, rfl, h.of_within (Cache.within_purge _ _)⟩
  | drop key => exact ⟨rfl, rfl, h.of_within (Cache.within_remove _ evs.instant key)⟩
  | wait duration => exact ⟨rfl, rfl, h⟩

/-- Performs requests one after the other, with their answers in order. -/
def performAll : List Request → Evaluators → List Answer × Evaluators
  | [], evs => ([], evs)
  | r :: rest, evs =>
    let (answer, evs) := r.perform evs
    let (answers, evs) := performAll rest evs
    (answer :: answers, evs)

/-- Performs requests without a memory. -/
def performAllFresh : List Request → List Generator → List Answer × List Generator
  | [], generators => ([], generators)
  | r :: rest, generators =>
    let (answer, generators) := r.performFresh generators
    let (answers, generators) := performAllFresh rest generators
    (answer :: answers, generators)

/-- A run from a faithful memory. -/
theorem performAll_of_faithful (requests : List Request) (hsep : ∀ r ∈ requests, r.IsSeparable)
    (evs : Evaluators) (h : Faithful evs.memo) :
    (performAll requests evs).1 = (performAllFresh requests evs.generators).1 ∧
      (performAll requests evs).2.generators = (performAllFresh requests evs.generators).2 := by
  induction requests generalizing evs with
  | nil => exact ⟨rfl, rfl⟩
  | cons r rest ih =>
    obtain ⟨hanswer, hgenerators, hmemo⟩ := perform_eq_fresh r (hsep r List.mem_cons_self) h
    have hrest := ih (fun r hr => hsep r (List.mem_cons_of_mem _ hr)) (r.perform evs).2 hmemo
    rw [hgenerators] at hrest
    exact ⟨congrArg₂ List.cons hanswer hrest.1, hrest.2⟩

/-- **A memory changes no answer**: whatever is asked of evaluators that share a memory, which is
empty at first, and whatever is forgotten in between, every answer and every generator is that of
evaluators that compute each formula afresh. -/
theorem performAll_eq_fresh (requests : List Request) (hsep : ∀ r ∈ requests, r.IsSeparable)
    (generators : List Generator) (lifetime instant : Nat) :
    (performAll requests ⟨Cache.empty, generators, lifetime, instant⟩).1 =
        (performAllFresh requests generators).1 ∧
      (performAll requests ⟨Cache.empty, generators, lifetime, instant⟩).2.generators =
        (performAllFresh requests generators).2 :=
  performAll_of_faithful requests hsep ⟨Cache.empty, generators, lifetime, instant⟩ faithful_empty

/-- Two evaluators, of which the second finds the result of the first, draws a number, and fails;
the first asks again when the result is stale. -/
theorem performAll_eq_fresh_of_two :
    let vars : Variables := ⟨[("gold", 2.5)], List.pairwise_singleton _ _⟩
    let requests := [ask 0 1000 "gold * 2" vars, ask 1 1000 "gold * 2" vars,
      ask 1 1000 "random(1, 6)" vars, ask 1 1000 "silver" vars, wait 2000, purge,
      ask 0 1000 "gold * 2" vars]
    let generators := [Generator.ofSeed 1, Generator.ofSeed 2]
    (∀ r ∈ requests, r.IsSeparable) ∧
      (performAll requests ⟨Cache.empty, generators, 0, 0⟩).1 =
        (performAllFresh requests generators).1 ∧
      (performAll requests ⟨Cache.empty, generators, 0, 0⟩).2.generators =
        (performAllFresh requests generators).2 := by
  intro vars requests generators
  have hsep : ∀ r ∈ requests, r.IsSeparable := by decide
  exact ⟨hsep, performAll_eq_fresh requests hsep generators 0 0⟩

end Request

end IncrementalGame.Formula
