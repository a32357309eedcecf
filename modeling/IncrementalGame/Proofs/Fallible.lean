/-!
# Computations that may fail and keep their state

Formulas draw and may fail, and actions change the world and may be refused; what has happened
before the failure stays.  Both are sequences of the same kind, and a sequence is followed step by
step: what comes behind a result starts where the result ended (`bind_ok`, `bind_lift`), and nothing
comes behind an error (`bind_error`).
-/

namespace IncrementalGame.Fallible

variable {ε σ α β : Type} {c : ExceptT ε (StateM σ) α} {s s' : σ}

/-- What follows a result sees the state as the result left it. -/
theorem bind_ok {a : α} (f : α → ExceptT ε (StateM σ) β) (h : c s = (.ok a, s')) :
    (c >>= f) s = f a s' := by
  show StateT.bind c (ExceptT.bindCont f) s = _
  rw [StateT.bind, h]
  rfl

/-- Nothing follows an error. -/
theorem bind_error {e : ε} (f : α → ExceptT ε (StateM σ) β) (h : c s = (.error e, s')) :
    (c >>= f) s = (.error e, s') := by
  show StateT.bind c (ExceptT.bindCont f) s = _
  rw [StateT.bind, h]
  rfl

/-- A step that cannot fail is followed from where it ended. -/
theorem bind_lift (r : StateM σ α) (f : α → ExceptT ε (StateM σ) β) (s : σ) :
    ((liftM r : ExceptT ε (StateM σ) α) >>= f) s = f (r s).1 (r s).2 := rfl

/-- What looks at the state sees it as it is. -/
theorem bind_get (f : σ → ExceptT ε (StateM σ) β) (s : σ) :
    ((get : ExceptT ε (StateM σ) σ) >>= f) s = f s s := rfl

theorem pure_apply (a : α) (s : σ) : (pure a : ExceptT ε (StateM σ) α) s = (.ok a, s) := rfl

theorem throw_apply (e : ε) (s : σ) : (throw e : ExceptT ε (StateM σ) α) s = (.error e, s) := rfl

/-- What has failed has no result. -/
theorem ne_ok_of_error {e : ε} {a : α} {s'' : σ} (h : c s = (.error e, s')) :
    c s ≠ (.ok a, s'') :=
  fun hok => absurd (congrArg Prod.fst (h.symm.trans hok)) (by simp)

/-- A computation ends in one state. -/
theorem state_unique {result result' : Except ε α} {s'' : σ} (h : c s = (result, s'))
    (h' : c s = (result', s'')) : s' = s'' := congrArg Prod.snd (h.symm.trans h')

/-- A sequence has a result only if each of its steps has one. -/
theorem exists_of_bind_eq {f : α → ExceptT ε (StateM σ) β} {b : β} {s'' : σ}
    (h : (c >>= f) s = (.ok b, s'')) : ∃ a s', c s = (.ok a, s') ∧ f a s' = (.ok b, s'') := by
  rcases hc : c s with ⟨result, s'⟩
  cases result with
  | error e => exact absurd h (ne_ok_of_error (bind_error f hc))
  | ok a => exact ⟨a, s', rfl, (bind_ok f hc).symm.trans h⟩

/-- A sequence without a state has a result only if each of its steps has one. -/
theorem exists_of_bind_eq_ok {x : Except ε α} {f : α → Except ε β} {b : β}
    (h : x >>= f = .ok b) : ∃ a, x = .ok a ∧ f a = .ok b := by
  cases x with
  | error e => exact absurd h (by simp [bind, Except.bind])
  | ok a => exact ⟨a, rfl, h⟩

/-- What has a result has just this result. -/
theorem eq_ok_of_toOption {a : α} (h : (c s).1.toOption = some a) : c s = (.ok a, (c s).2) := by
  generalize c s = outcome at h ⊢
  obtain ⟨result, last⟩ := outcome
  cases result with
  | error e => exact absurd h (by simp [Except.toOption])
  | ok b => rw [show b = a from Option.some_inj.mp h]

/-- What has no result has failed. -/
theorem exists_error_of_toOption (h : (c s).1.toOption = none) :
    ∃ e, c s = (.error e, (c s).2) := by
  generalize c s = outcome at h ⊢
  obtain ⟨result, last⟩ := outcome
  cases result with
  | error e => exact ⟨e, rfl⟩
  | ok b => exact absurd h (by simp [Except.toOption])

end IncrementalGame.Fallible
