/-!
# Formula trees

The tree of a formula.  Precedence and grouping are in its shape, so there is no node for a pair of
parentheses, and none for a plus sign that changes nothing.

`Expr.anyCall p` says whether a function whose name satisfies `p` is called anywhere in the tree.
-/

namespace IncrementalGame.Formula

/-- An operator between two operands. -/
inductive BinaryOp where
  | add | sub | mul | div | rem
  | eq | notEq | lt | ltEq | gt | gtEq
  | and | or
  deriving DecidableEq, Inhabited

/-- How an operator is spelled. -/
def BinaryOp.symbol : BinaryOp → String
  | add => "+"
  | sub => "-"
  | mul => "*"
  | div => "/"
  | rem => "%"
  | eq => "=="
  | notEq => "!="
  | lt => "<"
  | ltEq => "<="
  | gt => ">"
  | gtEq => ">="
  | and => "&&"
  | or => "||"

/-- An operator in front of its operand. -/
inductive UnaryOp where
  | neg
  | not
  deriving DecidableEq, Inhabited

/-- A formula. -/
inductive Expr where
  | number (x : Float)
  | text (s : String)
  | var (name : String)
  | unary (op : UnaryOp) (operand : Expr)
  | binary (op : BinaryOp) (left right : Expr)
  | ternary (condition yes no : Expr)
  | call (function : String) (arguments : List Expr)
  deriving Inhabited

namespace Expr

mutual

/-- Whether some function called in the tree has a name that satisfies `p`. -/
def anyCall (p : String → Bool) : Expr → Bool
  | number _ => false
  | text _ => false
  | var _ => false
  | unary _ e => e.anyCall p
  | binary _ l r => l.anyCall p || r.anyCall p
  | ternary c a b => c.anyCall p || a.anyCall p || b.anyCall p
  | call f args => p f || anyCallIn p args

/-- Whether some function called in the arguments has a name that satisfies `p`. -/
def anyCallIn (p : String → Bool) : List Expr → Bool
  | [] => false
  | e :: rest => e.anyCall p || anyCallIn p rest

end

end Expr

end IncrementalGame.Formula
