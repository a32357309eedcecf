import IncrementalGame.Formula.Builtin

/-!
# The meaning of a formula tree

`Expr.eval` computes a tree from the variables and a generator.  Operands are computed from left to
right; `&&`, `||` and the ternary compute no more than they need.  The names `true` and `false` are
no variables.

`evaluateFresh` is the meaning of a whole formula given as a text: it is parsed, computed and judged
each time anew.
-/

namespace IncrementalGame.Formula

open IncrementalGame.Random (Generator)

/-- Whether two numbers are equal as far as formulas tell numbers apart. -/
def nearlyEqual (x y : Float) : Bool := decide ((x - y).abs < Binary64.epsilon)

/-- Whether two numbers are unequal as far as formulas tell numbers apart. -/
def apart (x y : Float) : Bool := decide (Binary64.epsilon ≤ (x - y).abs)

/-- An operator on two numbers. -/
def BinaryOp.onNumbers (op : BinaryOp) (x y : Float) : Except EvalError Value :=
  match op with
  | add => .ok (.number (x + y))
  | sub => .ok (.number (x - y))
  | mul => .ok (.number (x * y))
  | div => if y == 0.0 then .error .divisionByZero else .ok (.number (x / y))
  | rem => if y == 0.0 then .error .divisionByZero else .ok (.number (Binary64.remainder x y))
  | eq => .ok (.bool (nearlyEqual x y))
  | notEq => .ok (.bool (apart x y))
  | lt => .ok (.bool (decide (x < y)))
  | ltEq => .ok (.bool (decide (x ≤ y)))
  | gt => .ok (.bool (decide (y < x)))
  | gtEq => .ok (.bool (decide (y ≤ x)))
  | and => .ok (.bool (x != 0.0 && y != 0.0))
  | or => .ok (.bool (x != 0.0 || y != 0.0))

/-- An operator on two values; texts can only be compared with texts. -/
def BinaryOp.onValues (op : BinaryOp) (left right : Value) : Except EvalError Value :=
  match op, left, right with
  | eq, .text s, .text t => .ok (.bool (s == t))
  | notEq, .text s, .text t => .ok (.bool (s != t))
  | op, left, right => do
    let x ← left.asNumber op.symbol
    let y ← right.asNumber op.symbol
    op.onNumbers x y

/-- A prefix on a value. -/
def UnaryOp.onValue (op : UnaryOp) (v : Value) : Except EvalError Value :=
  match op with
  | neg => do return .number (-(← v.asNumber "-"))
  | not => do return .bool (!(← v.asBool "!"))

/-- The value of a name. -/
def valueOfName (vars : Variables) (name : String) : Except EvalError Value :=
  if name = "true" then .ok (.bool true)
  else if name = "false" then .ok (.bool false)
  else
    match vars.get? name with
    | some x => .ok (.number x)
    | none => .error (.undefinedVariable name)

namespace Expr

mutual

/-- The value of a tree. -/
def eval (vars : Variables) : Expr → Drawing Value
  | number x => pure (.number x)
  | text s => pure (.text s)
  | var name => Drawing.ofExcept (valueOfName vars name)
  | unary op e => do
    let v ← e.eval vars
    Drawing.ofExcept (op.onValue v)
  | binary .and l r => do
    let x ← l.eval vars
    let x ← Drawing.ofExcept (x.asBool BinaryOp.and.symbol)
    if x then
      let y ← r.eval vars
      let y ← Drawing.ofExcept (y.asBool BinaryOp.and.symbol)
      return .bool y
    else return .bool false
  | binary .or l r => do
    let x ← l.eval vars
    let x ← Drawing.ofExcept (x.asBool BinaryOp.or.symbol)
    if x then return .bool true
    else
      let y ← r.eval vars
      let y ← Drawing.ofExcept (y.asBool BinaryOp.or.symbol)
      return .bool y
  | binary op l r => do
    let x ← l.eval vars
    let y ← r.eval vars
    Drawing.ofExcept (op.onValues x y)
  | ternary c a b => do
    let x ← c.eval vars
    let x ← Drawing.ofExcept (x.asBool "?:")
    if x then a.eval vars else b.eval vars
  | call f args =>
    match Builtin.ofName? f with
    | none => throw (.unknownFunction f)
    | some builtin => do
      let values ← evalAll vars args
      builtin.apply vars values

/-- The values of a list of trees. -/
def evalAll (vars : Variables) : List Expr → Drawing (List Value)
  | [] => pure []
  | e :: rest => do
    let v ← e.eval vars
    let vs ← evalAll vars rest
    return v :: vs

end

/-- Whether a result hangs on chance: some function that draws is called in the tree. -/
def isRandom (e : Expr) : Bool := e.anyCall Builtin.isRandomName

/-- What a tree amounts to as a whole formula. -/
def amount (vars : Variables) (e : Expr) : Drawing Float := do
  let v ← e.eval vars
  Drawing.ofExcept v.result

end Expr

/-- What a formula amounts to when it is parsed and computed afresh. -/
def evaluateFresh (formula : String) (vars : Variables) : Drawing Float := do
  let e ← Drawing.ofExcept (parse formula)
  e.amount vars

end IncrementalGame.Formula
