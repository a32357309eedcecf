import IncrementalGame.Formula.Evaluator
import IncrementalGame.Proofs.Formula.Chance

/-!
# Formulas that are not broken off

A computation is broken off by nothing but a real draw.  So a formula in which `frandom` is not
called never is, whatever the variables and the generator are and whatever is remembered
(`Evaluator.brokenOff_evaluate`); it has a value or an error.

* `Drawing.Safe` --- a computation that is never broken off; sequences of such computations are such
  again (`Drawing.Safe.bind`).
* `Builtin.safe_apply` --- the functions but `frandom`.
* `Expr.safe_eval` --- the trees that do not call it, by recursion on the tree.
-/

namespace IncrementalGame.Formula

open IncrementalGame.Random (Generator)

/-! ## Answers -/

section

variable {α β : Type}

/-- An error breaks off whatever was to come of it. -/
theorem brokenOff_error (e : EvalError) :
    brokenOff (.error e : Except EvalError β) = brokenOff (.error e : Except EvalError α) := by
  cases e <;> rfl

theorem brokenOff_bind {x : Except EvalError α} {f : α → Except EvalError β}
    (hx : brokenOff x = false) (hf : ∀ a, brokenOff (f a) = false) :
    brokenOff (x >>= f) = false := by
  cases x with
  | error e => exact (brokenOff_error e).trans hx
  | ok a => exact hf a

theorem brokenOff_map (x : Except EvalError α) (f : α → β) :
    brokenOff (x.map f) = brokenOff x := by
  cases x with
  | error e => exact brokenOff_error e
  | ok a => rfl

end

section

variable (function : String) (args : List Value) (v w : Value)

theorem brokenOff_asNumber : brokenOff (v.asNumber function) = false := by
  rw [Value.asNumber]
  split <;> rfl

theorem brokenOff_asBool : brokenOff (v.asBool function) = false := by
  rw [Value.asBool]
  split <;> rfl

theorem brokenOff_result : brokenOff v.result = false := by
  cases v with
  | number x =>
    rw [Value.result]
    split <;> rfl
  | bool b => rfl
  | text s => rfl

theorem brokenOff_onNumbers (op : BinaryOp) (x y : Float) :
    brokenOff (op.onNumbers x y) = false := by
  cases op with
  | div | rem =>
    simp only [BinaryOp.onNumbers]
    split <;> rfl
  | _ => rfl

theorem brokenOff_onValues (op : BinaryOp) : brokenOff (op.onValues v w) = false := by
  unfold BinaryOp.onValues
  split
  · rfl
  · rfl
  · exact brokenOff_bind (brokenOff_asNumber _ _) fun _ =>
      brokenOff_bind (brokenOff_asNumber _ _) fun _ => brokenOff_onNumbers _ _ _

theorem brokenOff_onValue (op : UnaryOp) : brokenOff (op.onValue v) = false := by
  cases op with
  | neg => exact brokenOff_bind (brokenOff_asNumber _ _) fun _ => rfl
  | not => exact brokenOff_bind (brokenOff_asBool _ _) fun _ => rfl

theorem brokenOff_valueOfName (vars : Variables) (name : String) :
    brokenOff (valueOfName vars name) = false := by
  unfold valueOfName
  split
  · rfl
  · split
    · rfl
    · split <;> rfl

theorem brokenOff_parse (formula : String) : brokenOff (parse formula) = false := by
  unfold parse
  split
  · rfl
  · split <;> rfl

namespace Builtin

theorem brokenOff_numbers : brokenOff (numbers function args) = false := by
  induction args with
  | nil => rfl
  | cons v rest ih =>
    exact brokenOff_bind (brokenOff_asNumber _ _) fun _ => brokenOff_bind ih fun _ => rfl

theorem brokenOff_bools : brokenOff (bools function args) = false := by
  induction args with
  | nil => rfl
  | cons v rest ih =>
    cases v with
    | bool b => exact brokenOff_bind ih fun _ => rfl
    | number | text => rfl

theorem brokenOff_keyOf : brokenOff (keyOf function args) = false := by
  unfold keyOf
  split <;> rfl

theorem brokenOff_bounds : brokenOff (bounds function args) = false := by
  have hpair : brokenOff (boundPair function args) = false := by
    match args with
    | [] => rfl
    | [v] => exact brokenOff_bind (brokenOff_asNumber _ _) fun _ => rfl
    | v :: w :: _ =>
      exact brokenOff_bind (brokenOff_asNumber _ _) fun _ =>
        brokenOff_bind (brokenOff_asNumber _ _) fun _ => rfl
  unfold bounds
  split
  next e he => rw [he] at hpair; exact hpair
  next => split <;> rfl

end Builtin

end

/-! ## Computations -/

/-- Whether a computation is never broken off. -/
def Drawing.Safe {α : Type} (c : Drawing α) : Prop := ∀ g : Generator, brokenOff (c g).1 = false

namespace Drawing.Safe

variable {α β : Type}

theorem ofExcept {e : Except EvalError α} (h : brokenOff e = false) : (Drawing.ofExcept e).Safe :=
  fun _ => h

theorem ofDraw (draw : Generator → α × Generator) : (Drawing.ofDraw draw).Safe := fun _ => rfl

theorem pure (a : α) : (Pure.pure a : Drawing α).Safe := fun _ => rfl

theorem bind {c : Drawing α} {f : α → Drawing β} (hc : c.Safe) (hf : ∀ a, (f a).Safe) :
    (c >>= f).Safe := by
  intro g
  have hfirst := hc g
  rcases h : c g with ⟨result, g'⟩
  rw [h] at hfirst
  cases result with
  | error e =>
    rw [Fallible.bind_error f h]
    exact (brokenOff_error e).trans hfirst
  | ok a =>
    rw [Fallible.bind_ok f h]
    exact hf a g'

theorem ite {p : Prop} [Decidable p] {c d : Drawing α} (hc : c.Safe) (hd : d.Safe) :
    (if p then c else d).Safe := by
  split
  · exact hc
  · exact hd

end Drawing.Safe

/-! ## Functions -/

namespace Builtin

open Drawing (Safe)

theorem safe_unaryNumber (f : Builtin) (args : List Value) {g : Float → Drawing Value}
    (hg : ∀ x, (g x).Safe) : (unaryNumber f args g).Safe := by
  refine Safe.bind (.ofExcept (brokenOff_numbers _ args)) fun xs => ?_
  cases xs with
  | nil => exact fun _ => rfl
  | cons x _ => exact hg x

theorem safe_binaryNumber (f : Builtin) (args : List Value) (g : Float → Float → Float) :
    (binaryNumber f args g).Safe := by
  refine Safe.bind (.ofExcept (brokenOff_numbers _ args)) fun xs => ?_
  rcases xs with _ | ⟨x, _ | ⟨y, _⟩⟩ <;> exact fun _ => rfl

theorem safe_drawInteger (low high : Float) : (drawInteger low high).Safe :=
  .ite (.pure _) (.bind (.ofDraw _) fun _ => .pure _)

theorem safe_drawRound (x : Float) : (drawRound x).Safe :=
  .ite (.pure _) (.bind (.ofDraw _) fun _ => .pure _)

theorem safe_run {f : Builtin} (h : f ≠ randomReal) (vars : Variables) (args : List Value) :
    (f.run vars args).Safe := by
  cases f with
  | randomReal => exact absurd rfl h
  | isPresent | isAbsent => exact .bind (.ofExcept (brokenOff_keyOf _ args)) fun _ => .pure _
  | and | or => exact .bind (.ofExcept (brokenOff_bools _ args)) fun _ => .pure _
  | randomInteger =>
    exact .bind (.ofExcept (brokenOff_bounds _ args)) fun pair =>
      .bind (safe_drawInteger pair.1 pair.2) fun _ => .pure _
  | chance => exact safe_unaryNumber _ args fun _ => .bind (.ofDraw _) fun _ => .pure _
  | randomRound => exact safe_unaryNumber _ args fun x => .bind (safe_drawRound x) fun _ => .pure _
  | min | max | pow => exact safe_binaryNumber _ args _
  | floor | ceil | round => exact safe_unaryNumber _ args fun _ => .pure _

/-- No function but `frandom` is broken off. -/
theorem safe_apply {f : Builtin} (h : f ≠ randomReal) (vars : Variables) (args : List Value) :
    (f.apply vars args).Safe := .ite (safe_run h vars args) fun _ => rfl

/-- Whether a name is that of the function that draws real numbers. -/
def isRealDraw (name : String) : Bool := name == randomReal.name

theorem ne_randomReal_of_ofName? {name : String} {f : Builtin} (h : isRealDraw name = false)
    (hf : ofName? name = some f) : f ≠ randomReal := by
  rintro rfl
  have hname : (randomReal.name == name) = true :=
    List.find?_some (p := fun f : Builtin => f.name == name) hf
  rw [isRealDraw, ← beq_iff_eq.mp hname] at h
  exact absurd h (by decide)

/-- The function that draws real numbers is one of those that draw. -/
theorem isRealDraw_of_isRandomName {name : String} (h : isRandomName name = false) :
    isRealDraw name = false := by
  rw [← Bool.not_eq_true]
  intro hname
  rw [beq_iff_eq.mp hname] at h
  exact absurd h (by decide)

end Builtin

/-! ## Trees -/

namespace Expr

mutual

/-- A tree in which no call has some property has none in which it has a stronger one. -/
theorem anyCall_mono {p q : String → Bool} (hpq : ∀ name, q name = false → p name = false)
    (e : Expr) (h : e.anyCall q = false) : e.anyCall p = false := by
  match e with
  | number _ | text _ | var _ => rw [anyCall]
  | unary _ e =>
    rw [anyCall] at h ⊢
    exact anyCall_mono hpq e h
  | binary _ l r =>
    rw [anyCall, Bool.or_eq_false_iff] at h ⊢
    exact ⟨anyCall_mono hpq l h.1, anyCall_mono hpq r h.2⟩
  | ternary c a b =>
    rw [anyCall, Bool.or_eq_false_iff, Bool.or_eq_false_iff] at h ⊢
    exact ⟨⟨anyCall_mono hpq c h.1.1, anyCall_mono hpq a h.1.2⟩, anyCall_mono hpq b h.2⟩
  | call f args =>
    rw [anyCall, Bool.or_eq_false_iff] at h ⊢
    exact ⟨hpq f h.1, anyCallIn_mono hpq args h.2⟩

theorem anyCallIn_mono {p q : String → Bool} (hpq : ∀ name, q name = false → p name = false)
    (args : List Expr) (h : anyCallIn q args = false) : anyCallIn p args = false := by
  match args with
  | [] => rw [anyCallIn]
  | e :: rest =>
    rw [anyCallIn, Bool.or_eq_false_iff] at h ⊢
    exact ⟨anyCall_mono hpq e h.1, anyCallIn_mono hpq rest h.2⟩

end

open Drawing (Safe)

mutual

/-- **A tree that draws no real number is never broken off.** -/
theorem safe_eval (vars : Variables) (e : Expr) (h : e.anyCall Builtin.isRealDraw = false) :
    (e.eval vars).Safe := by
  match e with
  | number x => rw [eval]; exact .pure _
  | text s => rw [eval]; exact .pure _
  | var name => rw [eval]; exact .ofExcept (brokenOff_valueOfName vars name)
  | unary op e =>
    rw [anyCall] at h
    rw [eval]
    exact .bind (safe_eval vars e h) fun v => .ofExcept (brokenOff_onValue v op)
  | binary op l r =>
    rw [anyCall, Bool.or_eq_false_iff] at h
    have hl := safe_eval vars l h.1
    have hr := safe_eval vars r h.2
    have htruth : ∀ symbol v, (Drawing.ofExcept (Value.asBool symbol v)).Safe :=
      fun symbol v => .ofExcept (brokenOff_asBool symbol v)
    cases op with
    | and =>
      rw [eval]
      exact .bind hl fun _ => .bind (htruth _ _) fun _ => .ite
        (.bind hr fun _ => .bind (htruth _ _) fun _ => .pure _) (.pure _)
    | or =>
      rw [eval]
      exact .bind hl fun _ => .bind (htruth _ _) fun _ => .ite (.pure _)
        (.bind hr fun _ => .bind (htruth _ _) fun _ => .pure _)
    | add | sub | mul | div | rem | eq | notEq | lt | ltEq | gt | gtEq =>
      rw [eval]
      · exact .bind hl fun v => .bind hr fun w => .ofExcept (brokenOff_onValues v w _)
      · intro hand
        exact BinaryOp.noConfusion hand
      · intro hor
        exact BinaryOp.noConfusion hor
  | ternary c a b =>
    rw [anyCall, Bool.or_eq_false_iff, Bool.or_eq_false_iff] at h
    rw [eval]
    refine .bind (safe_eval vars c h.1.1) fun v => .bind (.ofExcept (brokenOff_asBool _ v)) ?_
    exact fun _ => .ite (safe_eval vars a h.1.2) (safe_eval vars b h.2)
  | call f args =>
    rw [anyCall, Bool.or_eq_false_iff] at h
    rw [eval]
    cases hf : Builtin.ofName? f with
    | none => exact fun _ => rfl
    | some builtin =>
      refine .bind (safe_evalAll vars args h.2) fun values => ?_
      exact Builtin.safe_apply (Builtin.ne_randomReal_of_ofName? h.1 hf) vars values

/-- The arguments of a call, one after the other. -/
theorem safe_evalAll (vars : Variables) (args : List Expr)
    (h : anyCallIn Builtin.isRealDraw args = false) : (evalAll vars args).Safe := by
  match args with
  | [] => rw [evalAll]; exact .pure _
  | e :: rest =>
    rw [anyCallIn, Bool.or_eq_false_iff] at h
    rw [evalAll]
    exact .bind (safe_eval vars e h.1) fun _ => .bind (safe_evalAll vars rest h.2) fun _ => .pure _

end

end Expr

/-! ## Formulas -/

/-- Whether a formula draws no real number, so far as it can be read at all. -/
def Safe (formula : String) : Prop :=
  ∀ tree, parse formula = .ok tree → tree.anyCall Builtin.isRealDraw = false

instance : DecidablePred Safe := fun formula =>
  match hparse : parse formula with
  | .ok tree =>
    decidable_of_iff (tree.anyCall Builtin.isRealDraw = false)
      ⟨fun h other hother => by rw [← Except.ok.inj (hparse.symm.trans hother)]; exact h,
        fun h => h tree hparse⟩
  | .error _ => .isTrue fun _ hother => absurd (hparse.symm.trans hother) (by simp)

/-- **A formula that draws no real number is never broken off**, whatever is remembered. -/
theorem Evaluator.brokenOff_evaluate {formula : String} (h : Safe formula) (vars : Variables)
    (ev : Evaluator) : brokenOff (evaluate formula vars ev).1 = false := by
  unfold evaluate
  simp only
  split
  · rfl
  · unfold compute
    split
    next e hparse =>
      have hread := brokenOff_parse formula
      rw [hparse] at hread
      exact (brokenOff_error e).trans hread
    next tree hparse =>
      have hamount : (tree.amount vars).Safe :=
        .bind (Expr.safe_eval vars tree (h tree hparse)) fun v => .ofExcept (brokenOff_result v)
      have hresult := hamount ev.generator
      split
      next e g htree => rw [htree] at hresult; exact hresult
      next => split <;> rfl

end IncrementalGame.Formula
