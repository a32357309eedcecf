import Mathlib.Tactic
import IncrementalGame.Formula.Eval

/-!
# How deep a tree is descended into

What is computed by recursion on a tree asks itself for the operands of each node, and each such
question nests one call deeper.  One call alone is a function of what the nested calls answer: for
values this is `Expr.evalStep`, for the search for a call `Expr.anyCallStep`, and `Expr.eval` and
`Expr.anyCall` are what answers themselves in this way (`eval_eq_step`, `anyCall_eq_step`).

`cutAt step beyond n` nests no more than `n` calls; in place of every further call it answers
whatever `beyond` says.  If the answer is the same for every `beyond`, there was no such call.  A
call only asks for operands, and an operand has fewer nodes, so `n` nested calls are enough for a
tree of `n` nodes (`cutAt_eq`).
-/

namespace IncrementalGame.Formula

namespace Expr

/-! ## Nodes -/

mutual

/-- The number of nodes of a tree. -/
def size : Expr → Nat
  | number _ | text _ | var _ => 1
  | unary _ e => e.size + 1
  | binary _ l r => l.size + r.size + 1
  | ternary c a b => c.size + a.size + b.size + 1
  | call _ args => sizeAll args + 1

/-- The number of nodes of some trees together. -/
def sizeAll : List Expr → Nat
  | [] => 0
  | e :: rest => e.size + sizeAll rest

end

theorem sizeAll_eq_sum (es : List Expr) : sizeAll es = (es.map size).sum := by
  induction es with
  | nil => rfl
  | cons e es ih => rw [sizeAll, ih, List.map_cons, List.sum_cons]

/-- The trees right below a node. -/
def operands : Expr → List Expr
  | number _ | text _ | var _ => []
  | unary _ e => [e]
  | binary _ l r => [l, r]
  | ternary c a b => [c, a, b]
  | call _ args => args

theorem size_lt_of_mem_operands {e operand : Expr} (h : operand ∈ e.operands) :
    operand.size < e.size := by
  cases e with
  | number | text | var => exact absurd h List.not_mem_nil
  | unary op e =>
    obtain rfl := List.mem_singleton.mp h
    exact Nat.lt_succ_self _
  | binary op l r =>
    simp only [operands, List.mem_cons, List.not_mem_nil, or_false] at h
    simp only [size]
    obtain rfl | rfl := h <;> omega
  | ternary c a b =>
    simp only [operands, List.mem_cons, List.not_mem_nil, or_false] at h
    simp only [size]
    obtain rfl | rfl | rfl := h <;> omega
  | call f args =>
    have hle := List.le_sum_of_mem (List.mem_map_of_mem (f := size) h)
    rw [size, sizeAll_eq_sum]
    exact Nat.lt_succ_of_le hle

/-! ## Calls that ask for operands only -/

variable {α : Type}

/-- Whether one call asks for nothing but the operands of its tree. -/
def AsksOperands (step : (Expr → α) → Expr → α) : Prop :=
  ∀ f g e, (∀ operand ∈ e.operands, f operand = g operand) → step f e = step g e

/-- The answer with no more than so many calls nested; what would be asked beyond them is answered
by `beyond`. -/
def cutAt (step : (Expr → α) → Expr → α) (beyond : Expr → α) : Nat → Expr → α
  | 0 => beyond
  | depth + 1 => step (cutAt step beyond depth)

/-- **A tree is never descended into deeper than it has nodes.** -/
theorem cutAt_eq {step : (Expr → α) → Expr → α} (hstep : AsksOperands step) {f : Expr → α}
    (hf : ∀ e, f e = step f e) (beyond : Expr → α) {depth : Nat} {e : Expr} (h : e.size ≤ depth) :
    cutAt step beyond depth e = f e := by
  induction depth generalizing e with
  | zero => cases e <;> exact absurd h (by simp [size])
  | succ depth ih =>
    rw [cutAt, hf e]
    refine hstep _ _ e fun operand hoperand => ih ?_
    have hlt := size_lt_of_mem_operands hoperand
    omega

/-! ## Values -/

/-- One call of the evaluation, with the values of the operands as they are answered. -/
def evalStep (vars : Variables) (value : Expr → Drawing Value) : Expr → Drawing Value
  | number x => pure (.number x)
  | text s => pure (.text s)
  | var name => Drawing.ofExcept (valueOfName vars name)
  | unary op e => do
    let v ← value e
    Drawing.ofExcept (op.onValue v)
  | binary .and l r => do
    let x ← value l
    let x ← Drawing.ofExcept (x.asBool BinaryOp.and.symbol)
    if x then
      let y ← value r
      let y ← Drawing.ofExcept (y.asBool BinaryOp.and.symbol)
      return .bool y
    else return .bool false
  | binary .or l r => do
    let x ← value l
    let x ← Drawing.ofExcept (x.asBool BinaryOp.or.symbol)
    if x then return .bool true
    else
      let y ← value r
      let y ← Drawing.ofExcept (y.asBool BinaryOp.or.symbol)
      return .bool y
  | binary op l r => do
    let x ← value l
    let y ← value r
    Drawing.ofExcept (op.onValues x y)
  | ternary c a b => do
    let x ← value c
    let x ← Drawing.ofExcept (x.asBool "?:")
    if x then value a else value b
  | call f args =>
    match Builtin.ofName? f with
    | none => throw (.unknownFunction f)
    | some builtin => do
      let values ← args.mapM value
      builtin.apply vars values

variable {vars : Variables}

theorem evalAll_eq_mapM (es : List Expr) : evalAll vars es = es.mapM (eval vars) := by
  induction es with
  | nil => rfl
  | cons e es ih => rw [evalAll, ih, List.mapM_cons]

theorem eval_eq_step (e : Expr) : e.eval vars = evalStep vars (eval vars) e := by
  cases e with
  | number | text | var | unary | ternary => rfl
  | binary op l r => cases op <;> rfl
  | call f args =>
    rw [eval, evalStep]
    cases Builtin.ofName? f with
    | none => rfl
    | some builtin => rw [evalAll_eq_mapM]

theorem mapM_congr {f g : Expr → Drawing Value} {es : List Expr} (h : ∀ e ∈ es, f e = g e) :
    es.mapM f = es.mapM g := by
  induction es with
  | nil => rfl
  | cons e es ih =>
    obtain ⟨hhead, htail⟩ := List.forall_mem_cons.mp h
    rw [List.mapM_cons, List.mapM_cons, hhead, ih htail]

theorem asksOperands_evalStep : AsksOperands (evalStep vars) := by
  intro f g e h
  cases e with
  | number | text | var => rfl
  | unary op e => simp only [evalStep, h e List.mem_cons_self]
  | binary op l r =>
    have hl : f l = g l := h l (by simp [operands])
    have hr : f r = g r := h r (by simp [operands])
    cases op <;> simp only [evalStep, hl, hr]
  | ternary c a b =>
    have hc : f c = g c := h c (by simp [operands])
    have ha : f a = g a := h a (by simp [operands])
    have hb : f b = g b := h b (by simp [operands])
    simp only [evalStep, hc, ha, hb]
  | call name args => simp only [evalStep, mapM_congr (show ∀ e ∈ args, f e = g e from h)]

/-! ## The search for a call -/

/-- One call of the search for a function, with the answers for the operands as they are given. -/
def anyCallStep (p : String → Bool) (found : Expr → Bool) : Expr → Bool
  | number _ => false
  | text _ => false
  | var _ => false
  | unary _ e => found e
  | binary _ l r => found l || found r
  | ternary c a b => found c || found a || found b
  | call f args => p f || args.any found

variable {p : String → Bool}

theorem anyCallIn_eq_any (es : List Expr) : anyCallIn p es = es.any (anyCall p) := by
  induction es with
  | nil => rfl
  | cons e es ih => rw [anyCallIn, ih, List.any_cons]

theorem anyCall_eq_step (e : Expr) : e.anyCall p = anyCallStep p (anyCall p) e := by
  cases e with
  | call f args => rw [anyCall, anyCallStep, anyCallIn_eq_any]
  | _ => rfl

theorem asksOperands_anyCallStep : AsksOperands (anyCallStep p) := by
  intro f g e h
  cases e with
  | number | text | var => rfl
  | unary op e => exact h e List.mem_cons_self
  | binary op l r => simp only [anyCallStep, h l (by simp [operands]), h r (by simp [operands])]
  | ternary c a b =>
    simp only [anyCallStep, h c (by simp [operands]), h a (by simp [operands]),
      h b (by simp [operands])]
  | call name args =>
    have hany : args.any f = args.any g := by
      rw [Bool.eq_iff_iff, List.any_eq_true, List.any_eq_true]
      exact exists_congr fun e => and_congr_right fun he => by rw [h e he]
    rw [anyCallStep, anyCallStep, hany]

end Expr

end IncrementalGame.Formula
