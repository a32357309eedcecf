import IncrementalGame.Proofs.Formula.Memory

/-!
# What a formula amounts to is finite

Inside a formula a number may be infinite or no number at all: a variable may be, a product may
overflow, and a difference of infinities is no number.  Such numbers pass through every operator,
function and branch, and a whole formula is judged only at its end (`Value.result_eq_ok_iff`).

A result that is remembered is not judged again.  It is finite nevertheless, since nothing else is
ever written to the memory: that all values in it are finite (`Cache.Finite`) is kept by every
request, whichever of the evaluators over the memory it goes to.
-/

namespace IncrementalGame

/-- Whether every value stored is finite, stale ones included. -/
def Cache.Finite (memo : Cache Float) : Prop :=
  ∀ (key : String) (entry : CacheEntry Float), memo.entries[key]? = some entry →
    entry.value.isFinite = true

namespace Cache.Finite

variable {memo memo' : Cache Float}

theorem empty : Finite Cache.empty := by
  intro key entry h
  exact absurd h (by simp [Cache.empty, Std.TreeMap.empty_eq_emptyc])

theorem of_within (h : memo.Finite) (hwithin : Cache.Within memo' memo) : memo'.Finite :=
  fun key entry hentry => h key entry (hwithin key entry hentry)

/-- A finite value may be written. -/
theorem set (h : memo.Finite) {x : Float} (hx : x.isFinite = true) (now : Nat) (key : String)
    (lifetime : Nat) : (memo.set now key x lifetime).Finite := by
  intro other entry hentry
  rcases Cache.mem_set hentry with ⟨-, hvalue⟩ | hold
  · rw [hvalue]
    exact hx
  · exact h other entry hold

end Cache.Finite

namespace Formula

open IncrementalGame.Random (Generator)

/-! ## The judgement at the end -/

/-- A whole formula amounts to the number that its value counts as, just if this number is finite. -/
theorem Value.result_eq_ok_iff {v : Value} {x : Float} :
    v.result = .ok x ↔ v.toNumber? = some x ∧ x.isFinite = true := by
  cases v with
  | number y =>
    rw [result, toNumber?, Option.some_inj]
    constructor
    · intro h
      split at h
      next hfinite =>
        obtain rfl := Except.ok.inj h
        exact ⟨rfl, hfinite⟩
      next => exact absurd h (by simp)
    · rintro ⟨rfl, hfinite⟩
      rw [if_pos hfinite]
  | bool b =>
    rw [result, toNumber?, Option.some_inj, Except.ok.injEq]
    refine ⟨fun h => ⟨h, ?_⟩, And.left⟩
    rw [← h]
    cases b <;> decide
  | text s => simp [result, toNumber?]

/-- A tree amounts to the number that its value counts as, whatever numbers came up on the way, just
if this number is finite. -/
theorem Expr.amount_eq_ok_iff {tree : Expr} {vars : Variables} {g g' : Generator} {x : Float} :
    tree.amount vars g = (.ok x, g') ↔
      ∃ v, tree.eval vars g = (.ok v, g') ∧ v.toNumber? = some x ∧ x.isFinite = true := by
  rw [amount]
  rcases heval : tree.eval vars g with ⟨result, drawn⟩
  cases result with
  | error e =>
    rw [Fallible.bind_error _ heval]
    constructor
    · intro h
      exact absurd (congrArg Prod.fst h) (by simp)
    · rintro ⟨v, hv, -⟩
      exact absurd (congrArg Prod.fst hv) (by simp)
  | ok v =>
    rw [Fallible.bind_ok _ heval, Drawing.ofExcept, Prod.mk.injEq, Value.result_eq_ok_iff]
    constructor
    · rintro ⟨⟨hnumber, hfinite⟩, rfl⟩
      exact ⟨v, rfl, hnumber, hfinite⟩
    · rintro ⟨w, hw, hnumber, hfinite⟩
      obtain ⟨hvalue, rfl⟩ := Prod.mk.inj hw
      obtain rfl := Except.ok.inj hvalue
      exact ⟨⟨hnumber, hfinite⟩, rfl⟩

/-- An infinite number on the way to a finite result is allowed. -/
example :
    let infinite : Variables := ⟨[("x", 1.0 / 0.0)], List.pairwise_singleton _ _⟩
    let tree := Expr.binary .div (.number 1.0) (.var "x")
    (tree.amount infinite (Generator.ofSeed 0)).1.toOption = some 0.0 := by decide +kernel

/-! ## One evaluator -/

/-- **An evaluator over a memory of finite values** gives a finite one or fails, and leaves such a
memory. -/
theorem Evaluator.evaluate_finite (ev : Evaluator) (h : ev.memo.Finite) (formula : String)
    (vars : Variables) :
    (∀ x, (evaluate formula vars ev).1 = .ok x → x.isFinite = true) ∧
      (evaluate formula vars ev).2.memo.Finite := by
  have hwithin : Cache.Within (ev.memo.get ev.instant (memoKey formula vars)).2 ev.memo :=
    Cache.within_get ev.memo ev.instant (memoKey formula vars)
  rw [evaluate]
  rcases hget : ev.memo.get ev.instant (memoKey formula vars) with ⟨found, memo⟩
  rw [hget] at hwithin
  have hmemo : memo.Finite := h.of_within hwithin
  cases found with
  | some x =>
    -- a hit is given as it is stored
    obtain ⟨entry, hentry, hvalue⟩ := Cache.exists_entry_of_get (congrArg Prod.fst hget)
    refine ⟨fun y hy => ?_, hmemo⟩
    rw [← Except.ok.inj hy, ← hvalue]
    exact h _ entry hentry
  | none =>
    simp only [compute]
    cases parse formula with
    | error e => exact ⟨fun y hy => absurd hy (by simp), hmemo⟩
    | ok tree =>
      simp only
      rcases hamount : tree.amount vars ev.generator with ⟨result, drawn⟩
      cases result with
      | error e => exact ⟨fun y hy => absurd hy (by simp), hmemo⟩
      | ok x =>
        obtain ⟨-, -, -, hx⟩ := Expr.amount_eq_ok_iff.mp hamount
        have hanswer : ∀ y, (Except.ok x : Except EvalError Float) = .ok y → y.isFinite = true := by
          intro y hy
          rw [← Except.ok.inj hy]
          exact hx
        simp only
        cases tree.isRandom with
        | true => exact ⟨hanswer, hmemo⟩
        | false => exact ⟨hanswer, hmemo.set hx _ _ _⟩

/-! ## Many evaluators over one memory -/

namespace Request

theorem perform_finite (r : Request) {evs : Evaluators} (h : evs.memo.Finite) :
    (∀ x, (r.perform evs).1 = some (.ok x) → x.isFinite = true) ∧
      (r.perform evs).2.memo.Finite := by
  cases r with
  | ask i lifetime formula vars =>
    simp only [perform, Evaluators.onOne]
    cases evs.generators[i]? with
    | none => exact ⟨fun x hx => absurd hx (by simp), h⟩
    | some g =>
      obtain ⟨hanswer, hmemo⟩ :=
        Evaluator.evaluate_finite ⟨evs.memo, g, lifetime, evs.instant⟩ h formula vars
      exact ⟨fun x hx => hanswer x (Option.some_inj.mp hx), hmemo⟩
  | forget => exact ⟨fun x hx => absurd hx (by simp [perform]), h.of_within (Cache.within_clear _)⟩
  | purge =>
    exact ⟨fun x hx => absurd hx (by simp [perform]), h.of_within (Cache.within_purge _ _)⟩
  | drop key =>
    exact ⟨fun x hx => absurd hx (by simp [perform]),
      h.of_within (Cache.within_remove _ evs.instant key)⟩
  | wait duration => exact ⟨fun x hx => absurd hx (by simp [perform]), h⟩

/-- A run over a memory of finite values. -/
theorem performAll_of_finite (requests : List Request) (evs : Evaluators) (h : evs.memo.Finite) :
    (∀ x, some (.ok x) ∈ (performAll requests evs).1 → x.isFinite = true) ∧
      (performAll requests evs).2.memo.Finite := by
  induction requests generalizing evs with
  | nil => exact ⟨fun x hx => absurd hx List.not_mem_nil, h⟩
  | cons r rest ih =>
    obtain ⟨hanswer, hmemo⟩ := r.perform_finite h
    obtain ⟨hanswers, hlast⟩ := ih (r.perform evs).2 hmemo
    refine ⟨fun x hx => ?_, hlast⟩
    rcases List.mem_cons.mp hx with hfirst | hlater
    · exact hanswer x hfirst.symm
    · exact hanswers x hlater

/-- **Results are finite.**  Whatever is asked of evaluators that share a memory, which is empty at
first, with whatever variables: no answer is infinite or no number, and nor is any value in the
memory at any time. -/
theorem performAll_finite (requests : List Request) (generators : List Generator)
    (lifetime instant : Nat) :
    let run := performAll requests ⟨Cache.empty, generators, lifetime, instant⟩
    (∀ x, some (.ok x) ∈ run.1 → x.isFinite = true) ∧
      ∀ (key : String) (entry : CacheEntry Float), run.2.memo.entries[key]? = some entry →
        entry.value.isFinite = true :=
  performAll_of_finite requests ⟨Cache.empty, generators, lifetime, instant⟩ Cache.Finite.empty

end Request

end Formula

end IncrementalGame
