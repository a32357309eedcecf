import Mathlib.Algebra.Order.BigOperators.Group.List
import Mathlib.Tactic.SplitIfs
import IncrementalGame.Proofs.Formula.Parsing

/-!
# Writing a tree down

`Expr.render` writes a tree as a row of tokens.  A part of the tree stands between parentheses just
if it binds looser than its place asks for: the left side of an operator may be of the operator's
own level, its right side has to be tighter, the condition of a ternary must not be a ternary, and
what stands between a question mark and its colon, behind the colon, or in an argument may be
anything.

`Expr.nesting` is the number of levels that are open at once, at most, while these tokens are
parsed: one for each ternary level and each prefix level that is entered.

What is written so is parsed back to the tree, just if it is not too long and not nested too deep;
and no shorter row of tokens is parsed to this tree (`parseTokens_render`).
-/

namespace IncrementalGame.Formula

/-! ## Tokens of a tree -/

namespace Expr

/-- How tight a tree binds. -/
def level : Expr → Nat
  | ternary .. => 0
  | binary op _ _ => op.level
  | unary .. => 7
  | _ => 8

theorem level_le_eight (e : Expr) : e.level ≤ 8 := by
  cases e with
  | binary op l r => exact op.level_le_six.trans (by omega)
  | _ => simp [level]

/-- The tokens of a tree at a place of some level, if it has the given ones anywhere. -/
def enclosed (place : Nat) (e : Expr) (ts : List Token) : List Token :=
  if e.level < place then .leftParen :: (ts ++ [.rightParen]) else ts

@[simp] theorem enclosed_level (e : Expr) (ts : List Token) : e.enclosed e.level ts = ts :=
  if_neg (Nat.lt_irrefl _)

@[simp] theorem enclosed_zero (e : Expr) (ts : List Token) : e.enclosed 0 ts = ts :=
  if_neg (Nat.not_lt_zero _)

mutual

/-- The tokens of a tree, with parentheses only where they are needed. -/
def render : Expr → List Token
  | number x => [.number x]
  | text s => [.text s]
  | var s => [.name s]
  | unary op e => op.token :: e.enclosed 7 e.render
  | binary op l r =>
    l.enclosed op.level l.render ++ op.token :: r.enclosed (op.level + 1) r.render
  | ternary c a b => c.enclosed 1 c.render ++ .question :: (a.render ++ .colon :: b.render)
  | call f args => .name f :: .leftParen :: ([.comma].intercalate (renderAll args) ++ [.rightParen])

/-- The tokens of each of some trees. -/
def renderAll : List Expr → List (List Token)
  | [] => []
  | e :: rest => e.render :: renderAll rest

end

theorem renderAll_eq_map (es : List Expr) : renderAll es = es.map render := by
  induction es with
  | nil => rfl
  | cons e es ih => rw [renderAll, ih, List.map_cons]

/-! ## Levels of nesting -/

/-- How many levels of nesting are opened on the way from a place of one level to one that is at
least as tight: a ternary opens one for its condition, and a prefix level for its operand. -/
def opened (outer inner : Nat) : Nat :=
  (if outer < 1 ∧ 1 ≤ inner then 1 else 0) + (if outer < 8 ∧ 8 ≤ inner then 1 else 0)

@[simp] theorem opened_self (level : Nat) : opened level level = 0 := by
  rw [opened, if_neg (by omega), if_neg (by omega)]

/-- Among the operators none is opened. -/
theorem opened_of_operators {outer inner : Nat} (hlower : 1 ≤ outer) (hupper : inner ≤ 7) :
    opened outer inner = 0 := by
  rw [opened, if_neg (by omega), if_neg (by omega)]

/-- The levels on a way are opened one after the other. -/
theorem opened_eq_add {outer inner : Nat} (h : outer < inner) :
    opened outer inner = opened (outer + 1) inner + opened outer (outer + 1) := by
  unfold opened
  split_ifs <;> omega

/-- How many levels are open at once in a tree at a place of some level, if it opens the given
number by itself. -/
def nestingAt (place : Nat) (e : Expr) (own : Nat) : Nat :=
  if e.level < place then opened place 8 + (opened 0 e.level + own) else opened place e.level + own

@[simp] theorem nestingAt_level (e : Expr) (own : Nat) : e.nestingAt e.level own = own := by
  rw [nestingAt, if_neg (Nat.lt_irrefl _), opened_self, Nat.zero_add]

theorem nestingAt_zero (e : Expr) (own : Nat) : e.nestingAt 0 own = opened 0 e.level + own :=
  if_neg (Nat.not_lt_zero _)

mutual

/-- How many levels a tree opens by itself, wherever it stands. -/
def ownNesting : Expr → Nat
  | number _ | text _ | var _ => 0
  | unary _ e => e.nestingAt 7 e.ownNesting + 1
  | binary op l r =>
    max (l.nestingAt op.level l.ownNesting) (r.nestingAt (op.level + 1) r.ownNesting)
  | ternary c a b =>
    max (c.nestingAt 1 c.ownNesting)
      (max (a.nestingAt 0 a.ownNesting) (b.nestingAt 0 b.ownNesting)) + 1
  | call _ args => nestingOfAll args

/-- How many levels are open at once in the arguments of a call. -/
def nestingOfAll : List Expr → Nat
  | [] => 0
  | e :: rest => max (e.nestingAt 0 e.ownNesting) (nestingOfAll rest)

end

/-- How many levels of nesting are open at once, at most, while the tokens of a tree are parsed. -/
def nesting (e : Expr) : Nat := e.nestingAt 0 e.ownNesting

theorem nestingOfAll_le_iff {es : List Expr} {depth : Nat} :
    nestingOfAll es ≤ depth ↔ ∀ e ∈ es, e.nesting ≤ depth := by
  induction es with
  | nil => simp [nestingOfAll]
  | cons e es ih => rw [nestingOfAll, max_le_iff, ih, List.forall_mem_cons, nesting]

end Expr

/-! ## Tokens spell the tree they were written for -/

namespace Spells

variable {depth level : Nat} {e : Expr} {ts : List Token}

/-- What opens few levels does so in greater depths. -/
theorem mono (h : Spells depth level e ts) {deeper : Nat} (hle : depth ≤ deeper) :
    Spells deeper level e ts := by
  induction h generalizing deeper with
  | number x => exact .number x
  | text s => exact .text s
  | var s => exact .var s
  | call f row _ ih => exact .call f row fun a ha => ih a ha hle
  | group _ ih => exact .group (ih hle)
  | bare _ ih =>
    obtain ⟨deeper, rfl⟩ := Nat.exists_eq_add_of_le' (Nat.zero_lt_of_lt hle)
    exact .bare (ih (by omega))
  | unary op _ ih =>
    obtain ⟨deeper, rfl⟩ := Nat.exists_eq_add_of_le' (Nat.zero_lt_of_lt hle)
    exact .unary op (ih (by omega))
  | plus _ ih =>
    obtain ⟨deeper, rfl⟩ := Nat.exists_eq_add_of_le' (Nat.zero_lt_of_lt hle)
    exact .plus (ih (by omega))
  | tighter lower upper _ ih => exact .tighter lower upper (ih hle)
  | binary op _ _ ihl ihr => exact .binary op (ihl hle) (ihr hle)
  | alone _ ih =>
    obtain ⟨deeper, rfl⟩ := Nat.exists_eq_add_of_le' (Nat.zero_lt_of_lt hle)
    exact .alone (ih (by omega))
  | ternary _ _ _ ihc iha ihb =>
    obtain ⟨deeper, rfl⟩ := Nat.exists_eq_add_of_le' (Nat.zero_lt_of_lt hle)
    exact .ternary (ihc (by omega)) (iha (by omega)) (ihb (by omega))

/-- What stands at a place may stand at the next looser one. -/
theorem loosen_once (h : Spells depth (level + 1) e ts) (hlevel : level ≤ 7) :
    Spells (depth + Expr.opened level (level + 1)) level e ts := by
  rcases Nat.eq_zero_or_pos level with rfl | hpos
  · exact .alone h
  · rcases Nat.lt_or_eq_of_le hlevel with hlt | rfl
    · rw [Expr.opened_of_operators hpos (by omega)]
      exact .tighter hpos (by omega) h
    · exact .bare h

/-- What is tight may stand at a looser place, if the levels on the way are opened. -/
theorem loosen {inner : Nat} (h : Spells depth inner e ts) (hle : level ≤ inner)
    (hinner : inner ≤ 8) : Spells (depth + Expr.opened level inner) level e ts := by
  obtain ⟨steps, hsteps⟩ := Nat.exists_eq_add_of_le hle
  induction steps generalizing level with
  | zero =>
    obtain rfl : inner = level := hsteps
    rw [Expr.opened_self]
    exact h
  | succ steps ih =>
    have hnext : Spells (depth + Expr.opened (level + 1) inner) (level + 1) e ts :=
      ih (by omega) (by omega)
    have hhere := hnext.loosen_once (by omega)
    rwa [Nat.add_assoc, ← Expr.opened_eq_add (by omega)] at hhere

/-- A tree may stand at every place, between parentheses if need be. -/
theorem enclose {own place : Nat} (h : Spells own e.level e ts) (hplace : place ≤ 8) :
    Spells (e.nestingAt place own) place e (e.enclosed place ts) := by
  rw [Expr.nestingAt, Expr.enclosed]
  split_ifs with hlevel
  · have hinside := h.loosen (Nat.zero_le _) e.level_le_eight
    have hgroup := (Spells.group hinside).loosen hplace le_rfl
    rwa [Nat.add_comm, Nat.add_comm own] at hgroup
  · have hhere := h.loosen (Nat.le_of_not_lt hlevel) e.level_le_eight
    rwa [Nat.add_comm] at hhere

end Spells

namespace Expr

mutual

/-- **A tree is spelled by the tokens it is written with**, in just the depth that it needs. -/
theorem spells_render : ∀ e : Expr, Spells e.ownNesting e.level e e.render
  | number x => .number x
  | text s => .text s
  | var s => .var s
  | unary op e => .unary op (e.spells_render.enclose (by omega))
  | binary op l r =>
    .binary op
      ((l.spells_render.enclose (op.level_le_six.trans (by omega))).mono (le_max_left _ _))
      ((r.spells_render.enclose (Nat.succ_le_succ (op.level_le_six.trans (by omega)))).mono
        (le_max_right _ _))
  | ternary c a b => by
    have hc := c.spells_render.enclose (Nat.succ_le_succ (Nat.zero_le 7))
    have ha := a.spells_render.enclose (Nat.zero_le 8)
    have hb := b.spells_render.enclose (Nat.zero_le 8)
    exact .ternary (hc.mono (le_max_left _ _))
      (ha.mono ((le_max_left _ _).trans (le_max_right _ _)))
      (hb.mono ((le_max_right _ _).trans (le_max_right _ _)))
  | call f args => by
    have hargs := spells_renderAll args
    have hrow : ∀ a ∈ args.map fun e => (e, e.render), Spells (nestingOfAll args) 0 a.1 a.2 := by
      intro a ha
      obtain ⟨e, he, rfl⟩ := List.mem_map.mp ha
      exact (hargs e he).mono (nestingOfAll_le_iff.mp le_rfl e he)
    have hcall := Spells.call f _ hrow
    simpa [render, renderAll_eq_map, ownNesting, level, Function.comp_def] using hcall

theorem spells_renderAll : ∀ es : List Expr, ∀ e ∈ es, Spells e.nesting 0 e e.render
  | [] => fun _ he => absurd he List.not_mem_nil
  | e :: rest =>
    List.forall_mem_cons.mpr
      ⟨e.spells_render.enclose (Nat.zero_le 8), spells_renderAll rest⟩

end

end Expr

/-! ## No other tokens are fewer -/

namespace Expr

/-- A looser place opens the levels in front of the next one, and no others. -/
theorem nestingAt_le_succ (e : Expr) {place : Nat} (own : Nat) (hplace : place ≤ 7) :
    e.nestingAt place own ≤ e.nestingAt (place + 1) own + opened place (place + 1) := by
  unfold nestingAt
  rcases Nat.lt_trichotomy e.level place with hlt | heq | hgt
  · rw [if_pos hlt, if_pos (by omega), opened_eq_add (by omega : place < 8)]
    omega
  · rw [if_neg (by omega), if_pos (by omega), heq, opened_self]
    omega
  · rw [if_neg (by omega), if_neg (by omega), opened_eq_add hgt]
    omega

/-- Between parentheses a tree opens what it opens where no parentheses are needed. -/
theorem nestingAt_eight_le (e : Expr) (own : Nat) : e.nestingAt 8 own ≤ e.nestingAt 0 own := by
  rw [nestingAt_zero, nestingAt]
  rcases Nat.lt_or_eq_of_le e.level_le_eight with hlt | heq
  · rw [if_pos hlt, opened_self, Nat.zero_add]
  · rw [if_neg (by omega), heq, opened_self, Nat.zero_add]
    exact Nat.le_add_left _ _

theorem length_enclosed_le (e : Expr) (place : Nat) (ts : List Token) :
    (e.enclosed place ts).length ≤ ts.length + 2 := by
  unfold enclosed
  split_ifs
  · simp
  · omega

theorem length_enclosed_le_succ (e : Expr) (place : Nat) (ts : List Token) :
    (e.enclosed place ts).length ≤ (e.enclosed (place + 1) ts).length := by
  unfold enclosed
  split_ifs with hplace hnext hnext
  · exact le_rfl
  · omega
  · simp only [List.length_cons, List.length_append]
    omega
  · exact le_rfl

end Expr

namespace Spells

/-- **Whatever spells a tree opens no fewer levels and has no fewer tokens** than the tokens that it
is written with. -/
theorem least {depth level : Nat} {e : Expr} {ts : List Token} (h : Spells depth level e ts) :
    e.nestingAt level e.ownNesting ≤ depth ∧ (e.enclosed level e.render).length ≤ ts.length := by
  induction h with
  | number x => exact ⟨((Expr.number x).nestingAt_level 0).trans_le (Nat.zero_le _), le_rfl⟩
  | text s => exact ⟨((Expr.text s).nestingAt_level 0).trans_le (Nat.zero_le _), le_rfl⟩
  | var s => exact ⟨((Expr.var s).nestingAt_level 0).trans_le (Nat.zero_le _), le_rfl⟩
  | @call depth f row _ ih =>
    constructor
    · refine ((Expr.call f _).nestingAt_level _).trans_le (Expr.nestingOfAll_le_iff.mpr ?_)
      intro e he
      obtain ⟨a, ha, rfl⟩ := List.mem_map.mp he
      exact (ih a ha).1
    · have hsum : ((row.map (·.1.render)).map List.length).sum
          ≤ ((row.map (·.2)).map List.length).sum := by
        rw [List.map_map, List.map_map]
        exact List.sum_le_sum fun a ha => by simpa using (ih a ha).2
      rw [show (8 : Nat) = (Expr.call f (row.map (·.1))).level from rfl, Expr.enclosed_level,
        Expr.render, Expr.renderAll_eq_map, List.map_map]
      simp only [List.length_cons, List.length_append, length_intercalate_comma, List.length_map,
        Function.comp_def, List.length_nil]
      omega
  | @group depth e ts _ ih =>
    refine ⟨(e.nestingAt_eight_le _).trans ih.1, (e.length_enclosed_le 8 _).trans ?_⟩
    simpa using ih.2
  | @bare depth e ts _ ih =>
    exact ⟨(e.nestingAt_le_succ _ le_rfl).trans (Nat.succ_le_succ ih.1),
      (e.length_enclosed_le_succ 7 _).trans ih.2⟩
  | @unary depth e ts op _ ih =>
    exact ⟨((Expr.unary op e).nestingAt_level _).trans_le (Nat.succ_le_succ ih.1),
      Nat.succ_le_succ ih.2⟩
  | plus _ ih => exact ⟨ih.1.trans (Nat.le_succ _), ih.2.trans (Nat.le_succ _)⟩
  | @tighter depth level e ts lower upper _ ih =>
    have hopened : Expr.opened level (level + 1) = 0 :=
      Expr.opened_of_operators lower (Nat.succ_le_succ upper)
    have hdepth := e.nestingAt_le_succ e.ownNesting (upper.trans (Nat.le_succ 6))
    rw [hopened] at hdepth
    exact ⟨hdepth.trans ih.1, (e.length_enclosed_le_succ level _).trans ih.2⟩
  | @binary depth l r ts us op _ _ ihl ihr =>
    constructor
    · exact ((Expr.binary op l r).nestingAt_level _).trans_le (max_le ihl.1 ihr.1)
    · rw [show op.level = (Expr.binary op l r).level from rfl, Expr.enclosed_level, Expr.render]
      simp only [List.length_append, List.length_cons]
      exact Nat.add_le_add ihl.2 (Nat.succ_le_succ ihr.2)
  | @alone depth e ts _ ih =>
    exact ⟨(e.nestingAt_le_succ _ (Nat.zero_le 7)).trans (Nat.succ_le_succ ih.1),
      (e.length_enclosed_le_succ 0 _).trans ih.2⟩
  | @ternary depth c a b ts us vs _ _ _ ihc iha ihb =>
    constructor
    · exact ((Expr.ternary c a b).nestingAt_level _).trans_le
        (Nat.succ_le_succ (max_le ihc.1 (max_le iha.1 ihb.1)))
    · have ha := iha.2
      have hb := ihb.2
      rw [Expr.enclosed_zero] at ha hb ⊢
      rw [Expr.render]
      simp only [List.length_append, List.length_cons]
      exact Nat.add_le_add ihc.2 (Nat.succ_le_succ (Nat.add_le_add ha (Nat.succ_le_succ hb)))

end Spells

/-! ## Parsing what was written -/

/-- **A tree that is written down is parsed back**, just if its tokens are not too many and open no
more levels at once than allowed; and no fewer tokens are parsed to this tree. -/
theorem parseTokens_render (finish : Nat) (e : Expr) (tokens : List Placed)
    (hrender : tokens.map (·.token) = e.render) :
    (parseTokens finish tokens = .ok e ↔ tokens.length ≤ maxTokens ∧ e.nesting ≤ maxDepth) ∧
      ∀ others, parseTokens finish others = .ok e → e.render.length ≤ others.length := by
  have hleast : ∀ others, parseTokens finish others = .ok e →
      e.nesting ≤ maxDepth ∧ e.render.length ≤ others.length := by
    intro others hothers
    obtain ⟨-, hspells⟩ := parseTokens_eq_ok_iff.mp hothers
    simpa [Expr.nesting] using hspells.least
  refine ⟨⟨fun hok => ?_, fun ⟨hlength, hdepth⟩ => ?_⟩, fun others hothers =>
    (hleast others hothers).2⟩
  · exact ⟨(parseTokens_eq_ok_iff.mp hok).1, (hleast tokens hok).1⟩
  · have hspells := (e.spells_render.enclose (Nat.zero_le 8)).mono hdepth
    rw [Expr.enclosed_zero, ← hrender] at hspells
    exact parseTokens_eq_ok_iff.mpr ⟨hlength, hspells⟩

/-- A tree with a ternary in a condition, operators grouped to the right, a prefix in front of an
operator, and an argument list. -/
def tariff : Expr :=
  .ternary (.ternary (.var "a") (.var "b") (.var "c"))
    (.binary .sub (.var "d")
      (.binary .sub (.var "f") (.unary .neg (.binary .mul (.var "g") (.var "h")))))
    (.call "max" [.ternary (.var "p") (.var "q") (.var "r"), .unary .not (.unary .not (.var "s"))])

theorem parseTokens_render_of_tariff :
    (tariff.render.map fun t => (⟨t, 0⟩ : Placed)).map (·.token) = tariff.render ∧
      parseTokens 0 (tariff.render.map fun t => ⟨t, 0⟩) = .ok tariff :=
  ⟨rfl, (parseTokens_render 0 tariff _ rfl).1.mpr ⟨by decide, by decide⟩⟩

end IncrementalGame.Formula
