import IncrementalGame.Formula.Eval
import IncrementalGame.Proofs.Fallible

/-!
# What a formula mentions

A formula reaches the variables in two ways.  A name in its tree is looked up as it stands, and `have`
and `no` look up the text that their argument comes to.  That text need not stand in the call: a
ternary may choose it, and what it chooses may hang on other variables and on chance.  But no function
and no operator makes a text, so it stands somewhere in the tree (`Expr.gives_eval`).

Hence the names and the texts of a tree (`Expr.mentions`) are all that its computation can ask for.
Two snapshots that agree on them lead to the same computation, step by step: the same parts are
computed, the same numbers drawn, and the same value or error comes out (`Expr.eval_congr`,
`evaluateFresh_eq_of_agreeOn`).  The induction needs both facts at once only in a call, where what the
arguments have come to is what the function looks up.
-/

namespace IncrementalGame.Formula

open IncrementalGame.Random (Generator)

/-! ## Mentions -/

namespace Expr

mutual

/-- The names that occur in a tree, as variables or as texts. -/
def mentions : Expr → List String
  | number _ => []
  | text s => [s]
  | var name => [name]
  | unary _ e => e.mentions
  | binary _ l r => l.mentions ++ r.mentions
  | ternary c a b => c.mentions ++ a.mentions ++ b.mentions
  | call _ args => mentionsIn args

/-- The names that occur in a list of trees. -/
def mentionsIn : List Expr → List String
  | [] => []
  | e :: rest => e.mentions ++ mentionsIn rest

end

end Expr

/-- Whether two snapshots have the same of some names, with the same values. -/
def AgreeOn (names : List String) (vars vars' : Variables) : Prop :=
  ∀ name ∈ names, vars.get? name = vars'.get? name

instance (names : List String) (vars vars' : Variables) : Decidable (AgreeOn names vars vars') :=
  inferInstanceAs (Decidable (∀ name ∈ names, vars.get? name = vars'.get? name))

theorem AgreeOn.mono {names names' : List String} {vars vars' : Variables}
    (h : AgreeOn names' vars vars') (hsub : names ⊆ names') : AgreeOn names vars vars' :=
  fun name hname => h name (hsub hname)

/-! ## What a computation can come to -/

namespace Drawing

variable {α β : Type} {P : α → Prop} {Q : β → Prop}

/-- Whether a computation that has a result has one with a property, whatever the generator is. -/
def Gives (P : α → Prop) (c : Drawing α) : Prop :=
  ∀ (g g' : Generator) (a : α), c g = (.ok a, g') → P a

theorem gives_ofExcept {e : Except EvalError α} (h : ∀ a, e = .ok a → P a) :
    (Drawing.ofExcept e).Gives P :=
  fun _ _ a ha => h a (congrArg Prod.fst ha)

theorem gives_pure {a : α} (h : P a) : (pure a : Drawing α).Gives P := by
  intro g g' b hb
  rw [← Except.ok.inj (congrArg Prod.fst hb)]
  exact h

theorem gives_throw (e : EvalError) : (throw e : Drawing α).Gives P :=
  fun _ _ _ h => absurd (congrArg Prod.fst h) (by simp [Fallible.throw_apply])

theorem gives_ite {p : Prop} [Decidable p] {c d : Drawing α} (hc : c.Gives P) (hd : d.Gives P) :
    (if p then c else d).Gives P := by
  split
  · exact hc
  · exact hd

/-- The second part of a sequence may rely on what the first has come to. -/
theorem Gives.bind {c : Drawing α} {f : α → Drawing β} (hc : c.Gives P)
    (hf : ∀ a, P a → (f a).Gives Q) : (c >>= f).Gives Q := by
  intro g g' b hb
  rcases hstep : c g with ⟨result, g''⟩
  cases result with
  | error e =>
    rw [Fallible.bind_error f hstep] at hb
    exact absurd (congrArg Prod.fst hb) (by simp)
  | ok a =>
    rw [Fallible.bind_ok f hstep] at hb
    exact hf a (hc g g'' a hstep) g'' g' b hb

theorem gives_trivial (c : Drawing α) : c.Gives fun _ => True := fun _ _ _ _ => trivial

theorem gives_bind {c : Drawing α} {f : α → Drawing β} (hf : ∀ a, (f a).Gives Q) :
    (c >>= f).Gives Q := (gives_trivial c).bind fun a _ => hf a

/-- Sequences are the same if their second parts are, on all that the first can come to. -/
theorem Gives.bind_congr {c : Drawing α} {f f' : α → Drawing β} (hc : c.Gives P)
    (h : ∀ a, P a → f a = f' a) : c >>= f = c >>= f' := by
  funext g
  rcases hstep : c g with ⟨result, g'⟩
  cases result with
  | error e => rw [Fallible.bind_error f hstep, Fallible.bind_error f' hstep]
  | ok a => rw [Fallible.bind_ok f hstep, Fallible.bind_ok f' hstep, h a (hc g g' a hstep)]

end Drawing

/-! ## Texts -/

/-- Whether a value is one of some texts, if it is a text at all. -/
def Value.From (names : List String) (v : Value) : Prop := ∀ s, v = .text s → s ∈ names

namespace Value

variable {names names' : List String} {v : Value}

theorem From.mono (h : v.From names) (hsub : names ⊆ names') : v.From names' :=
  fun s hs => hsub (h s hs)

theorem from_number (x : Float) : (number x).From names := fun _ h => nomatch h

theorem from_bool (b : Bool) : (bool b).From names := fun _ h => nomatch h

end Value

open Value (from_number from_bool)

/-- A name has a number or a truth value. -/
theorem from_valueOfName {vars : Variables} {name : String} {v : Value}
    (h : valueOfName vars name = .ok v) : v.From [] := by
  rw [valueOfName] at h
  split at h
  next => rw [← Except.ok.inj h]; exact from_bool true
  next =>
    split at h
    next => rw [← Except.ok.inj h]; exact from_bool false
    next =>
      split at h
      next x _ => rw [← Except.ok.inj h]; exact from_number x
      next => exact absurd h (by simp)

/-- No prefix makes a text. -/
theorem UnaryOp.from_onValue {op : UnaryOp} {v w : Value} (h : op.onValue v = .ok w) :
    w.From [] := by
  cases op with
  | neg =>
    obtain ⟨x, -, hx⟩ := Fallible.exists_of_bind_eq_ok h
    rw [← Except.ok.inj hx]
    exact from_number _
  | not =>
    obtain ⟨b, -, hb⟩ := Fallible.exists_of_bind_eq_ok h
    rw [← Except.ok.inj hb]
    exact from_bool _

theorem BinaryOp.from_onNumbers {op : BinaryOp} {x y : Float} {w : Value}
    (h : op.onNumbers x y = .ok w) : w.From [] := by
  cases op with
  | add | sub | mul =>
    rw [← Except.ok.inj h]
    exact from_number _
  | eq | notEq | lt | ltEq | gt | gtEq | and | or =>
    rw [← Except.ok.inj h]
    exact from_bool _
  | div | rem =>
    simp only [onNumbers] at h
    split at h
    next => exact absurd h (by simp)
    next =>
      rw [← Except.ok.inj h]
      exact from_number _

/-- No operator makes a text. -/
theorem BinaryOp.from_onValues {op : BinaryOp} {left right w : Value}
    (h : op.onValues left right = .ok w) : w.From [] := by
  unfold onValues at h
  split at h
  next =>
    rw [← Except.ok.inj h]
    exact from_bool _
  next =>
    rw [← Except.ok.inj h]
    exact from_bool _
  next =>
    obtain ⟨x, -, hx⟩ := Fallible.exists_of_bind_eq_ok h
    obtain ⟨y, -, hy⟩ := Fallible.exists_of_bind_eq_ok hx
    exact from_onNumbers hy

/-! ## Functions -/

namespace Builtin

open Drawing (gives_bind gives_pure gives_throw gives_ite)

theorem gives_unaryNumber (f : Builtin) (args : List Value) {g : Float → Drawing Value}
    (hg : ∀ x, (g x).Gives (Value.From [])) : (unaryNumber f args g).Gives (Value.From []) := by
  refine gives_bind fun xs => ?_
  cases xs with
  | nil => exact gives_throw _
  | cons x _ => exact hg x

theorem gives_binaryNumber (f : Builtin) (args : List Value) (g : Float → Float → Float) :
    (binaryNumber f args g).Gives (Value.From []) := by
  refine gives_bind fun xs => ?_
  rcases xs with _ | ⟨x, _ | ⟨y, _⟩⟩
  · exact gives_throw _
  · exact gives_throw _
  · exact gives_pure (from_number _)

/-- No function makes a text. -/
theorem gives_apply (f : Builtin) (vars : Variables) (args : List Value) :
    (f.apply vars args).Gives (Value.From []) := by
  refine gives_ite ?_ (gives_throw _)
  cases f with
  | isPresent | isAbsent | and | or => exact gives_bind fun _ => gives_pure (from_bool _)
  | randomInteger | randomReal =>
    exact gives_bind fun _ => gives_bind fun _ => gives_pure (from_number _)
  | chance => exact gives_unaryNumber _ args fun _ => gives_bind fun _ => gives_pure (from_bool _)
  | min | max | pow => exact gives_binaryNumber _ args _
  | floor | ceil | round =>
    exact gives_unaryNumber _ args fun _ => gives_pure (from_number _)
  | randomRound =>
    exact gives_unaryNumber _ args fun _ => gives_bind fun _ => gives_pure (from_number _)

variable {vars vars' : Variables} {names : List String} {args : List Value}

theorem mem_of_keyOf (hargs : ∀ v ∈ args, v.From names) {function key : String}
    (h : keyOf function args = .ok key) : key ∈ names := by
  unfold keyOf at h
  split at h
  next s rest =>
    rw [← Except.ok.inj h]
    exact hargs (.text s) List.mem_cons_self s rfl
  next => exact absurd h (by simp)

theorem present_congr (h : AgreeOn names vars vars') {key : String} (hkey : key ∈ names) :
    present vars key = present vars' key := by rw [present, present, h key hkey]

/-- A function looks up nothing but a text among its arguments. -/
theorem apply_congr (f : Builtin) (h : AgreeOn names vars vars')
    (hargs : ∀ v ∈ args, v.From names) : f.apply vars args = f.apply vars' args := by
  have hrun : f.run vars args = f.run vars' args := by
    cases f with
    | isPresent | isAbsent =>
      refine Drawing.Gives.bind_congr
        (Drawing.gives_ofExcept fun key hkey => mem_of_keyOf hargs hkey) fun key hkey => ?_
      rw [present_congr h hkey]
    | _ => rfl
  rw [apply, apply, hrun]

end Builtin

/-! ## Trees -/

namespace Expr

open Drawing (gives_bind gives_pure gives_throw gives_ite gives_ofExcept)

variable {vars vars' : Variables}

/-- **A text that comes out of a tree stands in it.** -/
theorem gives_eval (vars : Variables) (e : Expr) : (e.eval vars).Gives (Value.From e.mentions) := by
  match e with
  | number x => rw [eval]; exact gives_pure (from_number x)
  | text s =>
    rw [eval]
    refine gives_pure fun t ht => ?_
    rw [← Value.text.inj ht]
    exact List.mem_singleton_self s
  | var name =>
    rw [eval]
    exact gives_ofExcept fun v hv => (from_valueOfName hv).mono (List.nil_subset _)
  | unary op e =>
    rw [eval]
    refine gives_bind fun v => gives_ofExcept fun w hw => ?_
    exact (UnaryOp.from_onValue hw).mono (List.nil_subset _)
  | binary op l r =>
    cases op with
    | and =>
      rw [eval]
      refine gives_bind fun _ => gives_bind fun _ => gives_ite ?_ (gives_pure (from_bool _))
      exact gives_bind fun _ => gives_bind fun _ => gives_pure (from_bool _)
    | or =>
      rw [eval]
      refine gives_bind fun _ => gives_bind fun _ => gives_ite (gives_pure (from_bool _)) ?_
      exact gives_bind fun _ => gives_bind fun _ => gives_pure (from_bool _)
    | add | sub | mul | div | rem | eq | notEq | lt | ltEq | gt | gtEq =>
      rw [eval]
      · refine gives_bind fun _ => gives_bind fun _ => gives_ofExcept fun w hw => ?_
        exact (BinaryOp.from_onValues hw).mono (List.nil_subset _)
      · intro hand
        exact BinaryOp.noConfusion hand
      · intro hor
        exact BinaryOp.noConfusion hor
  | ternary c a b =>
    -- the only node that hands on what an operand has come to
    rw [eval, mentions]
    refine gives_bind fun _ => gives_bind fun _ => gives_ite ?_ ?_
    · exact fun g g' v hv => (gives_eval vars a g g' v hv).mono (by simp)
    · exact fun g g' v hv => (gives_eval vars b g g' v hv).mono (by simp)
  | call f args =>
    rw [eval]
    cases Builtin.ofName? f with
    | none => exact gives_throw _
    | some builtin =>
      refine gives_bind fun values g g' v hv => ?_
      exact (builtin.gives_apply vars values g g' v hv).mono (List.nil_subset _)

theorem gives_evalAll (vars : Variables) (args : List Expr) :
    (evalAll vars args).Gives fun values => ∀ v ∈ values, v.From (mentionsIn args) := by
  induction args with
  | nil => rw [evalAll]; exact gives_pure fun _ hv => absurd hv List.not_mem_nil
  | cons e rest ih =>
    rw [evalAll, mentionsIn]
    refine (gives_eval vars e).bind fun v hv => ih.bind fun vs hvs => gives_pure fun w hw => ?_
    rcases List.mem_cons.mp hw with rfl | hw
    · exact hv.mono (List.subset_append_left _ _)
    · exact (hvs w hw).mono (List.subset_append_right _ _)

mutual

/-- **A tree asks for nothing that it does not mention**: on snapshots that agree on what it
mentions it is the same computation. -/
theorem eval_congr (e : Expr) (h : AgreeOn e.mentions vars vars') :
    e.eval vars = e.eval vars' := by
  match e with
  | number x => rw [eval, eval]
  | text s => rw [eval, eval]
  | var name =>
    have hname := h name (List.mem_singleton_self name)
    rw [eval, eval, valueOfName, valueOfName, hname]
  | unary op e => rw [eval, eval, eval_congr e h]
  | binary op l r =>
    have hl := eval_congr l (h.mono (List.subset_append_left _ _))
    have hr := eval_congr r (h.mono (List.subset_append_right _ _))
    cases op <;> simp only [eval, hl, hr]
  | ternary c a b =>
    have hc := eval_congr c (h.mono (by simp [mentions]))
    have ha := eval_congr a (h.mono (by simp [mentions]))
    have hb := eval_congr b (h.mono (by simp [mentions]))
    rw [eval, eval, hc, ha, hb]
  | call f args =>
    rw [eval, eval]
    cases Builtin.ofName? f with
    | none => rfl
    | some builtin =>
      simp only
      rw [evalAll_congr args h]
      exact (gives_evalAll vars' args).bind_congr fun values hvalues => builtin.apply_congr h hvalues

theorem evalAll_congr (args : List Expr) (h : AgreeOn (mentionsIn args) vars vars') :
    evalAll vars args = evalAll vars' args := by
  match args with
  | [] => rw [evalAll, evalAll]
  | e :: rest =>
    rw [evalAll, evalAll, eval_congr e (h.mono (List.subset_append_left _ _)),
      evalAll_congr rest (h.mono (List.subset_append_right _ _))]

end

theorem amount_congr (e : Expr) (h : AgreeOn e.mentions vars vars') :
    e.amount vars = e.amount vars' := by rw [amount, amount, eval_congr e h]

end Expr

/-! ## Formulas -/

/-- **A formula depends on what it mentions only.**  Two snapshots that agree on every name that
occurs in its tree, as a variable or as a text, give the same value or the same error, and leave the
generator in the same state. -/
theorem evaluateFresh_eq_of_agreeOn (formula : String) (vars vars' : Variables)
    (h : ∀ tree, parse formula = .ok tree → AgreeOn tree.mentions vars vars') (g : Generator) :
    evaluateFresh formula vars g = evaluateFresh formula vars' g := by
  rw [evaluateFresh, evaluateFresh]
  have htree : (Drawing.ofExcept (parse formula)).Gives fun tree => AgreeOn tree.mentions vars vars' :=
    Drawing.gives_ofExcept h
  rw [htree.bind_congr fun tree hagree => tree.amount_congr hagree]

/-- What is looked up is chosen by a ternary, and drawn only if it is there; the two snapshots
differ in wood, which the formula does not mention. -/
theorem evaluateFresh_eq_of_agreeOn_dowry :
    let dowry := "have(gold > 3 ? 'mine' : 'mill') && random(1, 6) > 2"
    let rich : Variables := .ofList [("gold", 5.0), ("mine", 1.0), ("wood", 2.0)]
    let poor : Variables := .ofList [("gold", 5.0), ("mine", 1.0)]
    (∀ tree, parse dowry = .ok tree → AgreeOn tree.mentions rich poor) ∧
      ∀ seed, evaluateFresh dowry rich (Generator.ofSeed seed) =
        evaluateFresh dowry poor (Generator.ofSeed seed) := by
  intro dowry rich poor
  have hmentions : (parse dowry).toOption.map Expr.mentions = some ["gold", "mine", "mill"] := by
    decide +kernel
  have hagree : AgreeOn ["gold", "mine", "mill"] rich poor := by decide +kernel
  have h : ∀ tree, parse dowry = .ok tree → AgreeOn tree.mentions rich poor := by
    intro tree htree
    rw [htree] at hmentions
    rw [Option.some_inj.mp hmentions]
    exact hagree
  exact ⟨h, fun seed => evaluateFresh_eq_of_agreeOn dowry rich poor h (Generator.ofSeed seed)⟩

end IncrementalGame.Formula
