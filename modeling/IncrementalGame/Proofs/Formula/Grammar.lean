import Mathlib.Tactic
import IncrementalGame.Formula.Parser

/-!
# The grammar of formulas

Which rows of tokens spell a tree, said without a parser.  What may stand at some place of a formula
depends on how tight it binds, and there are nine levels of that, loosest first:

* 0: a ternary `a ? b : c`;
* 1 to 6: the operators, as `BinaryOp.level` tells;
* 7: the prefixes `-`, `!` and `+`;
* 8: numbers, texts, names, calls and parentheses.

`Spells depth level e ts` says that the tokens `ts` spell the tree `e` at a place of some level.
The depth bounds the levels of nesting that are open at once: each ternary level and each prefix
level that is entered opens one.  An operator groups to the left, so its left side may be of its own
level and its right side has to be tighter.

What stands behind a tree may carry it on (`Token.joins`): an operator, a question mark, or the
parenthesis that makes a name a call.  `Stops level rest` says that it does not.
-/

namespace IncrementalGame.Formula

/-! ## Operators -/

/-- The token of an operator. -/
def BinaryOp.token : BinaryOp → Token
  | add => .plus
  | sub => .minus
  | mul => .star
  | div => .slash
  | rem => .percent
  | eq => .eq
  | notEq => .notEq
  | lt => .lt
  | ltEq => .ltEq
  | gt => .gt
  | gtEq => .gtEq
  | and => .andAnd
  | or => .orOr

/-- How tight an operator binds. -/
def BinaryOp.level : BinaryOp → Nat
  | or => 1
  | and => 2
  | eq | notEq => 3
  | lt | ltEq | gt | gtEq => 4
  | add | sub => 5
  | mul | div | rem => 6

/-- The token of a prefix. -/
def UnaryOp.token : UnaryOp → Token
  | neg => .minus
  | not => .bang

theorem BinaryOp.one_le_level (op : BinaryOp) : 1 ≤ op.level := by cases op <;> decide

theorem BinaryOp.level_le_six (op : BinaryOp) : op.level ≤ 6 := by cases op <;> decide

/-- The operator between two operands that a token stands for. -/
def Token.binary? : Token → Option BinaryOp
  | plus => some .add
  | minus => some .sub
  | star => some .mul
  | slash => some .div
  | percent => some .rem
  | eq => some .eq
  | notEq => some .notEq
  | lt => some .lt
  | ltEq => some .ltEq
  | gt => some .gt
  | gtEq => some .gtEq
  | andAnd => some .and
  | orOr => some .or
  | _ => none

theorem Token.binary?_eq_some_iff {t : Token} {op : BinaryOp} :
    t.binary? = some op ↔ t = op.token := by
  constructor
  · intro h
    cases t <;> simp only [binary?, Option.some.injEq, reduceCtorEq] at h <;> subst h <;> rfl
  · rintro rfl
    cases op <;> rfl

/-- The operator of a level that a token stands for. -/
def operatorAt (level : Nat) (t : Token) : Option BinaryOp :=
  t.binary?.filter fun op => op.level == level

theorem operatorAt_eq_some_iff {level : Nat} {t : Token} {op : BinaryOp} :
    operatorAt level t = some op ↔ t = op.token ∧ op.level = level := by
  rw [operatorAt, Option.filter_eq_some_iff, Token.binary?_eq_some_iff, beq_iff_eq]

@[simp] theorem operatorAt_token (op : BinaryOp) : operatorAt op.level op.token = some op :=
  operatorAt_eq_some_iff.mpr ⟨rfl, rfl⟩

/-- The levels of the parser are those of the operators. -/
theorem levels_eq : levels = [1, 2, 3, 4, 5, 6].map operatorAt := by
  simp only [levels, List.map_cons, List.map_nil, List.cons.injEq, and_true]
  refine ⟨?_, ?_, ?_, ?_, ?_, ?_⟩ <;> funext t <;> cases t <;> rfl

/-! ## Trees and their tokens -/

/-- A row of token rows with commas between them. -/
theorem length_intercalate_comma (rows : List (List Token)) :
    ([Token.comma].intercalate rows).length = (rows.map List.length).sum + (rows.length - 1) := by
  induction rows with
  | nil => rfl
  | cons first rows ih =>
    cases rows with
    | nil => simp
    | cons second rows =>
      rw [List.intercalate_cons_cons]
      simp only [List.length_cons, List.length_append, List.length_nil, List.map_cons,
        List.sum_cons] at ih ⊢
      omega

/-- Whether some tokens spell a tree at a place of a level, with no more than `depth` levels of
nesting open at once. -/
inductive Spells : (depth level : Nat) → Expr → List Token → Prop where
  | number {depth : Nat} (x : Float) : Spells depth 8 (.number x) [.number x]
  | text {depth : Nat} (s : String) : Spells depth 8 (.text s) [.text s]
  | var {depth : Nat} (s : String) : Spells depth 8 (.var s) [.name s]
  | call {depth : Nat} (f : String) (row : List (Expr × List Token))
    (arguments : ∀ a ∈ row, Spells depth 0 a.1 a.2) :
    Spells depth 8 (.call f (row.map (·.1)))
      (.name f :: .leftParen :: ([.comma].intercalate (row.map (·.2)) ++ [.rightParen]))
  | group {depth : Nat} {e : Expr} {ts : List Token} (inside : Spells depth 0 e ts) :
    Spells depth 8 e (.leftParen :: (ts ++ [.rightParen]))
  | bare {depth : Nat} {e : Expr} {ts : List Token} (operand : Spells depth 8 e ts) :
    Spells (depth + 1) 7 e ts
  | unary {depth : Nat} {e : Expr} {ts : List Token} (op : UnaryOp)
    (operand : Spells depth 7 e ts) : Spells (depth + 1) 7 (.unary op e) (op.token :: ts)
  | plus {depth : Nat} {e : Expr} {ts : List Token} (operand : Spells depth 7 e ts) :
    Spells (depth + 1) 7 e (.plus :: ts)
  | tighter {depth level : Nat} {e : Expr} {ts : List Token} (lower : 1 ≤ level)
    (upper : level ≤ 6) (operand : Spells depth (level + 1) e ts) : Spells depth level e ts
  | binary {depth : Nat} {l r : Expr} {ts us : List Token} (op : BinaryOp)
    (left : Spells depth op.level l ts) (right : Spells depth (op.level + 1) r us) :
    Spells depth op.level (.binary op l r) (ts ++ op.token :: us)
  | alone {depth : Nat} {e : Expr} {ts : List Token} (operand : Spells depth 1 e ts) :
    Spells (depth + 1) 0 e ts
  | ternary {depth : Nat} {c a b : Expr} {ts us vs : List Token} (condition : Spells depth 1 c ts)
    (yes : Spells depth 0 a us) (no : Spells depth 0 b vs) :
    Spells (depth + 1) 0 (.ternary c a b) (ts ++ .question :: (us ++ .colon :: vs))

/-- Whether a number, text, name, call or parenthesis may start with a token. -/
def Token.startsPrimary : Token → Bool
  | number _ | text _ | name _ | leftParen => true
  | _ => false

/-- Whether a tree may start with a token. -/
def Token.startsTree (t : Token) : Bool :=
  t.startsPrimary || t == .minus || t == .bang || t == .plus

/-- What a tree starts with. -/
theorem Spells.head {depth level : Nat} {e : Expr} {ts : List Token}
    (h : Spells depth level e ts) :
    ∃ t us, ts = t :: us ∧ t.startsTree = true ∧ (level = 8 → t.startsPrimary = true) := by
  induction h with
  | number x => exact ⟨_, _, rfl, rfl, fun _ => rfl⟩
  | text s => exact ⟨_, _, rfl, rfl, fun _ => rfl⟩
  | var s => exact ⟨_, _, rfl, rfl, fun _ => rfl⟩
  | call f row => exact ⟨_, _, rfl, rfl, fun _ => rfl⟩
  | group => exact ⟨_, _, rfl, rfl, fun _ => rfl⟩
  | bare _ ih =>
    obtain ⟨t, us, rfl, hstart, _⟩ := ih
    exact ⟨t, us, rfl, hstart, by simp⟩
  | unary op => exact ⟨_, _, rfl, by cases op <;> rfl, by simp⟩
  | plus => exact ⟨_, _, rfl, rfl, by simp⟩
  | tighter _ upper _ ih =>
    obtain ⟨t, us, rfl, hstart, _⟩ := ih
    exact ⟨t, us, rfl, hstart, by omega⟩
  | binary op _ _ ih =>
    obtain ⟨t, us, rfl, hstart, _⟩ := ih
    exact ⟨t, _, rfl, hstart, fun h => absurd op.level_le_six (by omega)⟩
  | alone _ ih =>
    obtain ⟨t, us, rfl, hstart, _⟩ := ih
    exact ⟨t, us, rfl, hstart, by simp⟩
  | ternary _ _ _ ih =>
    obtain ⟨t, us, rfl, hstart, _⟩ := ih
    exact ⟨t, _, rfl, hstart, by simp⟩

/-! ## What carries a tree on -/

/-- The level at which a token carries on what stands in front of it. -/
def Token.joins : Token → Option Nat
  | question => some 0
  | leftParen => some 8
  | t => t.binary?.map BinaryOp.level

@[simp] theorem BinaryOp.joins_token (op : BinaryOp) : op.token.joins = some op.level := by
  cases op <;> rfl

/-- Whether nothing that is left carries on what stands at a place of a level. -/
def Stops (level : Nat) (rest : List Placed) : Prop :=
  ∀ t ∈ rest.head?, ∀ joint ∈ t.token.joins, joint < level

namespace Stops

variable {level : Nat} {rest : List Placed}

theorem nil : Stops level [] := by
  intro t ht
  exact absurd ht (by simp)

theorem cons {t : Placed} (h : ∀ joint ∈ t.token.joins, joint < level) :
    Stops level (t :: rest) := by
  intro u hu
  rw [List.head?_cons, Option.mem_some_iff] at hu
  exact hu ▸ h

theorem mono {tighter : Nat} (h : Stops level rest) (hle : level ≤ tighter) : Stops tighter rest :=
  fun t ht joint hjoint => Nat.lt_of_lt_of_le (h t ht joint hjoint) hle

/-- What closes, ends or parts stops every tree. -/
theorem of_joins_eq_none {t : Placed} (h : t.token.joins = none) : Stops level (t :: rest) :=
  .cons fun joint hjoint => by simp [h] at hjoint

theorem question {offset : Nat} : Stops 1 (⟨.question, offset⟩ :: rest) :=
  .cons fun joint hjoint => by
    have : 0 = joint := by simpa [Token.joins] using hjoint
    omega

/-- An operator stops what is tighter. -/
theorem operator (op : BinaryOp) {offset : Nat} :
    Stops (op.level + 1) (⟨op.token, offset⟩ :: rest) :=
  .cons fun joint hjoint => by
    have : op.level = joint := by simpa using hjoint
    omega

/-- What stops a level has none of its operators in front. -/
theorem operatorAt_eq_none {t : Placed} (h : Stops level (t :: rest)) :
    operatorAt level t.token = none := by
  by_contra hsome
  obtain ⟨op, hop⟩ := Option.ne_none_iff_exists'.mp hsome
  obtain ⟨htoken, rfl⟩ := operatorAt_eq_some_iff.mp hop
  have hlt := h t rfl op.level (by rw [htoken, BinaryOp.joins_token, Option.mem_some_iff])
  exact absurd hlt (Nat.lt_irrefl _)

end Stops

end IncrementalGame.Formula
