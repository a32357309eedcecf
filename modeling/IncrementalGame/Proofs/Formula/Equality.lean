import IncrementalGame.Proofs.Binary64.Comparison
import IncrementalGame.Proofs.Formula.Chance

/-!
# Equal and unequal

`a == b` asks whether the difference of two numbers is less than a tolerance in amount, and `a != b`
whether it is at least the tolerance.  One is the negation of the other where the difference is a
number.  It is none where one side is none, and where both sides are the same infinity
(`Commensurable`); then both comparisons fail, so that such a value is neither equal to itself nor
unequal to it (`exists_neither_equal_nor_unequal`).  Texts are compared as they are, and a text with
something else not at all.
-/

namespace IncrementalGame.Formula

open Binary64 (Commensurable)
open IncrementalGame.Random (Generator)

/-! ## Numbers -/

theorem apart_of_isNaN {x y : Float} (h : (x - y).isNaN = true) :
    nearlyEqual x y = false ∧ apart x y = false := by
  rw [← Binary64.isNaN_abs] at h
  exact ⟨Binary64.not_lt_of_isNaN (.inl h), Binary64.not_le_of_isNaN (.inr h)⟩

/-- One comparison negates the other where the numbers have a difference. -/
theorem apart_eq {x y : Float} (h : Commensurable x y) : apart x y = !nearlyEqual x y := by
  rw [← Binary64.isNaN_sub, ← Binary64.isNaN_abs] at h
  exact Binary64.le_eq_not_lt (by decide) h

/-- A finite number equals itself. -/
theorem nearlyEqual_self {x : Float} (h : x.isFinite = true) : nearlyEqual x x = true := by
  have zero := Binary64.nearest_sub h h
  rw [Int.sub_self] at zero
  have pattern : Binary64.pattern (x - x).abs = 0 := by
    rw [(Binary64.abs_spec zero.isNaN).1, zero.pattern_eq]
    exact Binary64.rounded_zero
  have bounded : (x - x).abs.isFinite = true := by
    rw [Binary64.isFinite_iff, pattern]
    decide
  have small : Binary64.epsilon.isFinite = true := by decide
  rw [nearlyEqual, decide_eq_true_iff, Binary64.lt_iff_scaled bounded small,
    Binary64.scaled_of_zero pattern]
  decide +kernel

/-! ## Values -/

/-- `Compared u v eq notEq`: what the two comparisons of two values amount to. -/
inductive Compared : Value → Value → Except EvalError Value → Except EvalError Value → Prop
  /-- Two texts. -/
  | texts (s t : String) :
      Compared (.text s) (.text t) (.ok (.bool (decide (s = t)))) (.ok (.bool (!decide (s = t))))
  /-- Two numbers that have a difference. -/
  | numbers {u v : Value} {x y : Float} {equal : Bool} (left : u.toNumber? = some x)
      (right : v.toNumber? = some y) (difference : Commensurable x y)
      (identical : x = y → equal = true) : Compared u v (.ok (.bool equal)) (.ok (.bool (!equal)))
  /-- Two numbers that have none. -/
  | neither {u v : Value} {x y : Float} (left : u.toNumber? = some x)
      (right : v.toNumber? = some y) (difference : ¬Commensurable x y) :
      Compared u v (.ok (.bool false)) (.ok (.bool false))
  /-- A text and something else. -/
  | mixed {u v : Value} (other : ¬(u.toNumber? = none ↔ v.toNumber? = none)) :
      Compared u v (.error (.argument "==" .numeric)) (.error (.argument "!=" .numeric))

theorem compared_numbers {u v : Value} {x y : Float} (hu : u.toNumber? = some x)
    (hv : v.toNumber? = some y) :
    Compared u v (BinaryOp.eq.onNumbers x y) (BinaryOp.notEq.onNumbers x y) := by
  simp only [BinaryOp.onNumbers]
  by_cases difference : Commensurable x y
  · rw [apart_eq difference]
    refine .numbers hu hv difference ?_
    rintro rfl
    rcases Binary64.isFinite_or x with h | h | h
    · exact nearlyEqual_self h
    · exact absurd rfl (difference.2.2 h)
    · exact absurd h (Bool.eq_false_iff.mp difference.1)
  · have none : (x - y).isNaN = true := by
      rw [← Bool.not_eq_false, Binary64.isNaN_sub]
      exact difference
    rw [(apart_of_isNaN none).1, (apart_of_isNaN none).2]
    exact .neither hu hv difference

theorem compared_onValues (u v : Value) :
    Compared u v (BinaryOp.eq.onValues u v) (BinaryOp.notEq.onValues u v) := by
  cases u with
  | text s =>
    cases v with
    | text t => exact .texts s t
    | number | bool => exact .mixed (by simp [Value.toNumber?])
  | number | bool =>
    cases v with
    | text t => exact .mixed (by simp [Value.toNumber?])
    | number | bool => exact compared_numbers rfl rfl

/-! ## Trees -/

/-- An operator on the values of two trees that do not draw. -/
theorem Expr.eval_binary {vars : Variables} {a b : Expr} {u v : Value} {g : Generator}
    {op : BinaryOp} (strict : op ≠ .and ∧ op ≠ .or) (ha : a.isRandom = false)
    (hb : b.isRandom = false) (hu : (a.eval vars g).1 = .ok u) (hv : (b.eval vars g).1 = .ok v)
    (g' : Generator) : (Expr.binary op a b).eval vars g' = (op.onValues u v, g') := by
  obtain ⟨r, hr⟩ := idle_eval vars a ha
  obtain ⟨s, hs⟩ := idle_eval vars b hb
  rw [hr g] at hu
  rw [hs g] at hv
  obtain rfl : r = .ok u := hu
  obtain rfl : s = .ok v := hv
  rw [eval, Fallible.bind_ok _ (hr g'), Fallible.bind_ok _ (hs g')]
  · rfl
  · exact strict.1
  · exact strict.2

/-- **Inequality negates equality** wherever the two sides are texts or numbers with a difference;
and there what is identical is equal.  Two numbers without a difference are neither equal nor
unequal. -/
theorem Expr.eval_compared {vars : Variables} {a b : Expr} {u v : Value} {g : Generator}
    (ha : a.isRandom = false) (hb : b.isRandom = false) (hu : (a.eval vars g).1 = .ok u)
    (hv : (b.eval vars g).1 = .ok v) :
    ∃ equal unequal, Compared u v equal unequal ∧
      ∀ g', (Expr.binary .eq a b).eval vars g' = (equal, g') ∧
        (Expr.binary .notEq a b).eval vars g' = (unequal, g') :=
  ⟨_, _, compared_onValues u v, fun g' =>
    ⟨eval_binary (by decide) ha hb hu hv g', eval_binary (by decide) ha hb hu hv g'⟩⟩

/-- A bonus of a half, and a half. -/
theorem Expr.eval_compared_of_bonus :
    (Expr.binary .notEq (.var "bonus") (.number 0.5)).eval (KeyMap.empty.insert "bonus" 0.5)
      (Generator.ofSeed 0) = (.ok (.bool false), Generator.ofSeed 0) := by
  have bonus : ((Expr.var "bonus").eval (KeyMap.empty.insert "bonus" 0.5)
      (Generator.ofSeed 0)).1 = .ok (.number 0.5) := by
    decide +kernel
  have half : ((Expr.number 0.5).eval (KeyMap.empty.insert "bonus" 0.5)
      (Generator.ofSeed 0)).1 = .ok (.number 0.5) := by
    decide +kernel
  obtain ⟨_, _, compared, both⟩ := Expr.eval_compared (by decide) (by decide) bonus half
  rw [(both _).2]
  cases compared with
  | numbers left right _ identical =>
    cases left
    cases right
    rw [identical rfl]
    rfl
  | neither => rfl
  | mixed other => exact absurd (by simp [Value.toNumber?]) other

/-- A number whose square is infinite: the square is neither equal to itself nor unequal. -/
theorem exists_neither_equal_nor_unequal :
    let vars := KeyMap.empty.insert "b" 1e200
    (evaluateFresh "b * b == b * b" vars (Generator.ofSeed 0)).1.toOption = some 0.0 ∧
      (evaluateFresh "b * b != b * b" vars (Generator.ofSeed 0)).1.toOption = some 0.0 := by
  decide +kernel

end IncrementalGame.Formula
