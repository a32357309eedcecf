import Mathlib.Tactic
import IncrementalGame.Formula.Eval
import IncrementalGame.Proofs.Fallible

/-!
# Formulas that do not hang on chance

A tree without a call of a function that draws leaves the generator alone and amounts to the same
whatever the generator is, in every branch and also where it fails.

* `Drawing.Idle` --- a computation with one result that draws nothing; sequences of such
  computations are such again (`Drawing.Idle.bind`).
* `Builtin.idle_apply` --- the functions that do not draw.
* `Expr.idle_eval` --- the trees that do not, by recursion on the tree.
-/

namespace IncrementalGame.Formula

open IncrementalGame.Random (Generator)

/-! ## Computations that draw nothing -/

/-- Whether a computation has one result for all generators and leaves each of them alone. -/
def Drawing.Idle {α : Type} (c : Drawing α) : Prop :=
  ∃ r : Except EvalError α, ∀ g : Generator, c g = (r, g)

variable {α β : Type}

namespace Drawing.Idle

theorem ofExcept (e : Except EvalError α) : (Drawing.ofExcept e).Idle := ⟨e, fun _ => rfl⟩

theorem pure (a : α) : (Pure.pure a : Drawing α).Idle := ⟨.ok a, fun _ => rfl⟩

theorem throw (e : EvalError) : (MonadExcept.throw e : Drawing α).Idle := ⟨.error e, fun _ => rfl⟩

/-- What comes behind a computation that draws nothing sees the generator as it was. -/
theorem bind {c : Drawing α} {f : α → Drawing β} (hc : c.Idle) (hf : ∀ a, (f a).Idle) :
    (c >>= f).Idle := by
  obtain ⟨r, hr⟩ := hc
  cases r with
  | error e => exact ⟨.error e, fun g => Fallible.bind_error f (hr g)⟩
  | ok a =>
    obtain ⟨s, hs⟩ := hf a
    exact ⟨s, fun g => by rw [Fallible.bind_ok f (hr g), hs g]⟩

theorem ite {p : Prop} [Decidable p] {c d : Drawing α} (hc : c.Idle) (hd : d.Idle) :
    (if p then c else d).Idle := by
  split
  · exact hc
  · exact hd

end Drawing.Idle

/-! ## Functions that do not draw -/

namespace Builtin

open Drawing (Idle)

theorem idle_unaryNumber (f : Builtin) (args : List Value) {g : Float → Drawing Value}
    (hg : ∀ x, (g x).Idle) : (unaryNumber f args g).Idle := by
  refine Idle.bind (Idle.ofExcept _) fun xs => ?_
  cases xs with
  | nil => exact Idle.throw _
  | cons x _ => exact hg x

theorem idle_binaryNumber (f : Builtin) (args : List Value) (g : Float → Float → Float) :
    (binaryNumber f args g).Idle := by
  refine Idle.bind (Idle.ofExcept _) fun xs => ?_
  rcases xs with _ | ⟨x, _ | ⟨y, _⟩⟩
  · exact Idle.throw _
  · exact Idle.throw _
  · exact Idle.pure _

theorem idle_run {f : Builtin} (h : f.isRandom = false) (vars : Variables) (args : List Value) :
    (f.run vars args).Idle := by
  cases f with
  | randomInteger | randomReal | chance | randomRound => exact absurd h (by decide)
  | isPresent | isAbsent | and | or => exact Idle.bind (Idle.ofExcept _) fun _ => Idle.pure _
  | min | max | pow => exact idle_binaryNumber _ args _
  | floor | ceil | round => exact idle_unaryNumber _ args fun _ => Idle.pure _

/-- A function that does not draw leaves the generator alone. -/
theorem idle_apply {f : Builtin} (h : f.isRandom = false) (vars : Variables) (args : List Value) :
    (f.apply vars args).Idle := Idle.ite (idle_run h vars args) (Idle.throw _)

/-- A name that is not that of a drawing function names a function that does not draw. -/
theorem isRandom_of_ofName? {name : String} {f : Builtin} (h : isRandomName name = false)
    (hf : ofName? name = some f) : f.isRandom = false := by
  rw [isRandomName, hf, Option.any_some] at h
  exact h

end Builtin

/-! ## Trees that do not draw -/

namespace Expr

open Drawing (Idle)

mutual

/-- **A tree without a call that draws leaves the generator alone**, in every branch. -/
theorem idle_eval (vars : Variables) (e : Expr) (h : e.anyCall Builtin.isRandomName = false) :
    (e.eval vars).Idle := by
  match e with
  | number x => rw [eval]; exact Idle.pure _
  | text s => rw [eval]; exact Idle.pure _
  | var name => rw [eval]; exact Idle.ofExcept _
  | unary op e =>
    rw [anyCall] at h
    rw [eval]
    exact Idle.bind (idle_eval vars e h) fun _ => Idle.ofExcept _
  | binary op l r =>
    rw [anyCall, Bool.or_eq_false_iff] at h
    have hl := idle_eval vars l h.1
    have hr := idle_eval vars r h.2
    cases op with
    | and =>
      rw [eval]
      refine Idle.bind hl fun _ => Idle.bind (Idle.ofExcept _) fun _ => Idle.ite ?_ (Idle.pure _)
      exact Idle.bind hr fun _ => Idle.bind (Idle.ofExcept _) fun _ => Idle.pure _
    | or =>
      rw [eval]
      refine Idle.bind hl fun _ => Idle.bind (Idle.ofExcept _) fun _ => Idle.ite (Idle.pure _) ?_
      exact Idle.bind hr fun _ => Idle.bind (Idle.ofExcept _) fun _ => Idle.pure _
    | add | sub | mul | div | rem | eq | notEq | lt | ltEq | gt | gtEq =>
      rw [eval]
      · exact Idle.bind hl fun _ => Idle.bind hr fun _ => Idle.ofExcept _
      · intro hand
        exact BinaryOp.noConfusion hand
      · intro hor
        exact BinaryOp.noConfusion hor
  | ternary c a b =>
    rw [anyCall, Bool.or_eq_false_iff, Bool.or_eq_false_iff] at h
    rw [eval]
    refine Idle.bind (idle_eval vars c h.1.1) fun _ => Idle.bind (Idle.ofExcept _) fun _ => ?_
    exact Idle.ite (idle_eval vars a h.1.2) (idle_eval vars b h.2)
  | call f args =>
    rw [anyCall, Bool.or_eq_false_iff] at h
    rw [eval]
    cases hf : Builtin.ofName? f with
    | none => exact Idle.throw _
    | some builtin =>
      refine Idle.bind (idle_evalAll vars args h.2) fun values => ?_
      exact Builtin.idle_apply (Builtin.isRandom_of_ofName? h.1 hf) vars values

/-- The arguments of a call, one after the other. -/
theorem idle_evalAll (vars : Variables) (args : List Expr)
    (h : anyCallIn Builtin.isRandomName args = false) : (evalAll vars args).Idle := by
  match args with
  | [] => rw [evalAll]; exact Idle.pure _
  | e :: rest =>
    rw [anyCallIn, Bool.or_eq_false_iff] at h
    rw [evalAll]
    refine Idle.bind (idle_eval vars e h.1) fun _ => ?_
    exact Idle.bind (idle_evalAll vars rest h.2) fun _ => Idle.pure _

end

/-- What such a tree amounts to does not hang on the generator either. -/
theorem idle_amount {e : Expr} (h : e.isRandom = false) (vars : Variables) : (e.amount vars).Idle :=
  Idle.bind (idle_eval vars e h) fun _ => Idle.ofExcept _

end Expr

end IncrementalGame.Formula
