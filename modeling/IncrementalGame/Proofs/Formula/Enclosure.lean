import Mathlib.Data.List.Chain
import IncrementalGame.Proofs.Formula.Conditionals
import IncrementalGame.Proofs.Formula.Flattening
import IncrementalGame.Proofs.Formula.Rendering

/-!
# What a pair of parentheses holds

A row of tokens that starts with a parenthesis has only one token that closes it (`Closes.unique`).
In the tokens of a tree this is the end of an operand: the row stops there, or an operator or a
question mark follows (`Spells.group_cases`).  So whoever puts
parentheses around a row of tokens, and finds them closed by one another, has made one operand of it
(`Spells.exactly_group`), and a row that starts with a group and a question mark is a ternary
(`Spells.ternary_of_group`).

Beside this, the tokens of a tree are those of one tree only (`Spells.unique`), and no number, text
or name stands directly behind an operand (`Spells.isChain`).
-/

namespace IncrementalGame.Formula

/-! ## Pairs of parentheses -/

/-- There is only one token that closes the outermost parenthesis. -/
theorem Closes.unique {depth : Nat} {ts us rest more : List Token} (h : Closes depth ts)
    (h' : Closes depth us) (same : ts ++ rest = us ++ more) : ts = us := by
  have shorter {ts us : List Token} (h : Closes depth ts) (h' : Closes depth us)
      (start : ts <+: us) : ts = us := by
    obtain ⟨behind, rfl⟩ := start
    by_contra distinct
    have nonempty : behind ≠ [] := fun empty => distinct (by rw [empty, List.append_nil])
    have open_ := h'.inside ts.length (by
      rw [List.length_append]
      exact Nat.lt_add_of_pos_right (List.length_pos_iff.mpr nonempty))
    rw [List.take_left, h.outside] at open_
    exact absurd open_ (Nat.lt_irrefl _)
  rcases List.prefix_or_prefix_of_prefix (List.prefix_append ts rest)
    (same ▸ List.prefix_append us more) with start | start
  · exact shorter h h' start
  · exact (shorter h' h start).symm

namespace Balanced

variable {ts : List Token}

theorem count_eq (h : Balanced ts) : ts.count .rightParen = ts.count .leftParen := by
  induction h with
  | nil => rfl
  | other left right =>
    rw [List.count_singleton, List.count_singleton, beq_eq_false_iff_ne.mpr left,
      beq_eq_false_iff_ne.mpr right]
  | pair _ ih =>
    rw [List.count_cons_of_ne (by decide), List.count_cons_self, List.count_append,
      List.count_append, ih]
    rfl
  | append _ _ ih ih' => rw [List.count_append, List.count_append, ih, ih']

/-- Nowhere in the row more parentheses are closed than were opened. -/
theorem count_take_le (h : Balanced ts) (n : Nat) :
    (ts.take n).count .rightParen ≤ (ts.take n).count .leftParen := by
  induction h generalizing n with
  | nil => rw [List.take_nil]; exact le_rfl
  | @other t left right =>
    cases n with
    | zero => exact le_rfl
    | succ n =>
      rw [List.take_succ_cons, List.take_nil]
      exact ((Balanced.other left right).count_eq).le
  | @pair ts _ ih =>
    cases n with
    | zero => exact le_rfl
    | succ n =>
      have closing : ([.rightParen].take (n - ts.length)).count Token.rightParen ≤ 1 :=
        List.count_le_length.trans (List.length_take_le' _ _)
      have := ih n
      rw [List.take_succ_cons, List.count_cons_of_ne (by decide), List.count_cons_self,
        List.take_append, List.count_append, List.count_append]
      omega
  | @append ts us _ _ ih ih' =>
    rw [List.take_append, List.count_append, List.count_append]
    exact Nat.add_le_add (ih n) (ih' (n - ts.length))

/-- One more parenthesis closes what was open in front of the row. -/
theorem closes (h : Balanced ts) : Closes 1 (ts ++ [.rightParen]) where
  inside n hn := by
    rw [List.length_append, List.length_singleton, Nat.lt_succ_iff] at hn
    rw [List.take_append_of_le_length hn]
    exact Nat.lt_succ_of_le (h.count_take_le n)
  outside := by
    rw [List.count_append, List.count_append, h.count_eq]
    rfl

/-- A row that starts with a parenthesis holds the one that closes it. -/
theorem exists_of_closes {inner rest more : List Token} (h : Balanced ts) (nonempty : ts ≠ [])
    (closes : Closes 1 inner) (same : ts ++ more = .leftParen :: (inner ++ rest)) :
    ∃ between, ts = .leftParen :: (inner ++ between) ∧ rest = between ++ more := by
  obtain ⟨t, ts, rfl⟩ := List.exists_cons_of_ne_nil nonempty
  obtain ⟨rfl, whole⟩ := List.cons_eq_cons.mp same
  rcases List.append_eq_append_iff.mp whole with ⟨missing, rfl, rfl⟩ | ⟨between, rfl, rfl⟩
  · by_cases empty : missing = []
    · subst empty
      exact ⟨[], by simp, rfl⟩
    · -- The row would end before the parenthesis is closed.
      have open_ := closes.inside ts.length (by
        rw [List.length_append]
        exact Nat.lt_add_of_pos_right (List.length_pos_iff.mpr empty))
      have even := h.count_eq
      rw [List.count_cons_of_ne (by decide), List.count_cons_self] at even
      rw [List.take_left] at open_
      omega
  · exact ⟨between, rfl, rfl⟩

end Balanced

/-! ## Groups -/

namespace Spells

variable {depth level : Nat} {e : Expr} {ts inner rest more : List Token}

theorem ne_nil (h : Spells depth level e ts) : ts ≠ [] := by
  obtain ⟨t, us, rfl, -⟩ := h.head
  exact List.cons_ne_nil t us

/-- **What starts with a parenthesis** is a group, or the group is the front of it and is carried on
by the token behind. -/
theorem group_cases (h : Spells depth level e ts) (closes : Closes 1 inner)
    (same : ts = .leftParen :: (inner ++ rest)) :
    (rest = [] ∧ ∃ us, inner = us ++ [.rightParen] ∧ Spells depth 0 e us) ∨
      ∃ t behind, rest = t :: behind ∧ ∃ joint ∈ t.joins, level ≤ joint := by
  -- What is left of the first operand of a longer row.
  have front {depth level level' : Nat} {l : Expr} {ts us : List Token} {t : Token}
      {rest : List Token} (hl : Spells depth level l ts)
      (ih : ∀ {rest : List Token}, ts = .leftParen :: (inner ++ rest) →
        (rest = [] ∧ ∃ us, inner = us ++ [.rightParen] ∧ Spells depth 0 l us) ∨
          ∃ t behind, rest = t :: behind ∧ ∃ joint ∈ t.joins, level ≤ joint)
      (joins : ∃ joint ∈ t.joins, level' ≤ joint) (hle : level' ≤ level)
      (same : ts ++ t :: us = .leftParen :: (inner ++ rest)) :
      ∃ t behind, rest = t :: behind ∧ ∃ joint ∈ t.joins, level' ≤ joint := by
    obtain ⟨between, first, rfl⟩ := hl.balanced.exists_of_closes hl.ne_nil closes same
    rcases ih first with ⟨rfl, -⟩ | ⟨t', behind, rfl, joint, hjoint, hlevel⟩
    · exact ⟨t, us, rfl, joins⟩
    · exact ⟨t', behind ++ t :: us, rfl, joint, hjoint, hle.trans hlevel⟩
  induction h generalizing rest with
  | number | text | var | call => cases same
  | group inside =>
    have whole := (List.cons_eq_cons.mp same).2
    rw [← List.append_nil (_ ++ [Token.rightParen])] at whole
    obtain rfl := inside.balanced.closes.unique closes whole
    exact .inl ⟨(List.append_cancel_left whole).symm, _, rfl, inside⟩
  | bare _ ih =>
    rcases ih same with ⟨rfl, us, rfl, inside⟩ | ⟨t, behind, rfl, joint, hjoint, hlevel⟩
    · exact .inl ⟨rfl, us, rfl, inside.mono (Nat.le_succ _)⟩
    · exact .inr ⟨t, behind, rfl, joint, hjoint, (Nat.le_succ 7).trans hlevel⟩
  | unary op => cases op <;> cases same
  | plus => cases same
  | tighter _ _ _ ih =>
    rcases ih same with group | ⟨t, behind, rfl, joint, hjoint, hlevel⟩
    · exact .inl group
    · exact .inr ⟨t, behind, rfl, joint, hjoint, (Nat.le_succ _).trans hlevel⟩
  | binary op left _ ihl _ =>
    exact .inr (front left ihl ⟨op.level, op.joins_token, le_rfl⟩ le_rfl same)
  | alone _ ih =>
    rcases ih same with ⟨rfl, us, rfl, inside⟩ | ⟨t, behind, rfl, joint, hjoint, -⟩
    · exact .inl ⟨rfl, us, rfl, inside.mono (Nat.le_succ _)⟩
    · exact .inr ⟨t, behind, rfl, joint, hjoint, Nat.zero_le _⟩
  | ternary condition _ _ ihc _ _ =>
    exact .inr (front condition ihc ⟨0, rfl, le_rfl⟩ (Nat.zero_le 1) same)

/-- An operand that starts with a parenthesis, and is not carried on by the token behind the one
that closes it, is just what the two hold. -/
theorem exactly_group {t : Token} (h : Spells depth level e ts) (closes : Closes 1 inner)
    (stops : ∀ joint ∈ t.joins, joint < level)
    (same : ts ++ t :: more = .leftParen :: (inner ++ t :: rest)) :
    ts = .leftParen :: inner ∧ more = rest ∧
      ∃ us, inner = us ++ [.rightParen] ∧ Spells depth 0 e us := by
  obtain ⟨between, rfl, hrest⟩ := h.balanced.exists_of_closes h.ne_nil closes same
  rcases h.group_cases closes rfl with ⟨rfl, inside⟩ | ⟨t', behind, rfl, joint, hjoint, hlevel⟩
  · obtain ⟨-, rfl⟩ := List.cons_eq_cons.mp hrest
    exact ⟨by rw [List.append_nil], rfl, inside⟩
  · obtain ⟨rfl, -⟩ := List.cons_eq_cons.mp hrest
    exact absurd (stops joint hjoint) (Nat.not_lt_of_le hlevel)

/-- At the loosest place stands a tree of operators or a ternary. -/
theorem open_cases (h : Spells depth 0 e ts) :
    ∃ depth', depth = depth' + 1 ∧ (Spells depth' 1 e ts ∨
      ∃ c yes no first us vs, e = .ternary c yes no ∧
        ts = first ++ .question :: (us ++ .colon :: vs) ∧ Spells depth' 1 c first ∧
        Spells depth' 0 yes us ∧ Spells depth' 0 no vs) := by
  generalize loosest : 0 = level at h
  cases h with
  | alone operand => exact ⟨_, rfl, .inl operand⟩
  | ternary condition hyes hno =>
    exact ⟨_, rfl, .inr ⟨_, _, _, _, _, _, rfl, rfl, condition, hyes, hno⟩⟩
  | tighter lower => omega
  | binary op => exact absurd op.one_le_level (by omega)
  | number | text | var | call | group | bare | unary | plus => omega

/-- **A group and a question mark start a ternary** whose condition is the group. -/
theorem ternary_of_group (h : Spells depth 0 e (.leftParen :: (inner ++ .question :: rest)))
    (closes : Closes 1 inner) :
    ∃ depth' c yes no us vs, depth = depth' + 1 ∧ e = .ternary c yes no ∧
      Spells depth' 1 c (.leftParen :: inner) ∧ rest = us ++ .colon :: vs ∧
      Spells depth' 0 yes us ∧ Spells depth' 0 no vs := by
  have stops : ∀ joint ∈ Token.question.joins, joint < 1 := by
    intro joint hjoint
    obtain rfl : 0 = joint := Option.some_inj.mp hjoint
    exact Nat.zero_lt_one
  obtain ⟨depth, rfl, operand | ⟨c, yes, no, ts, us, vs, rfl, same, condition, hyes, hno⟩⟩ :=
    h.open_cases
  · rcases operand.group_cases closes rfl with ⟨empty, -⟩ | ⟨t, behind, same, joint, hjoint, hlevel⟩
    · cases empty
    · obtain ⟨rfl, -⟩ := List.cons_eq_cons.mp same
      exact absurd (stops joint hjoint) (Nat.not_lt_of_le hlevel)
  · obtain ⟨rfl, rfl, -⟩ := condition.exactly_group closes stops same.symm
    exact ⟨depth, c, yes, no, us, vs, rfl, rfl, condition, rfl, hyes, hno⟩

/-! ## One tree -/

/-- **The tokens of a tree are those of no other one**, whatever may be nested. -/
theorem unique {depth' : Nat} {e' : Expr} (h : Spells depth level e ts)
    (h' : Spells depth' level e' ts) : e = e' := by
  have reads : Reads 0 (max depth depth') level e ts := (h.mono (le_max_left _ _)).reads
  have reads' : Reads 0 (max depth depth') level e' ts := (h'.mono (le_max_right _ _)).reads
  let tokens : List Placed := ts.map fun t => ⟨t, 0⟩
  have htokens : tokens.map (·.token) = ts := by simp [tokens, Function.comp_def]
  have read := reads.stops tokens [] htokens .nil
  have read' := reads'.stops tokens [] htokens .nil
  exact (Prod.mk.inj (Except.ok.inj (read.symm.trans read'))).1

end Spells

/-! ## Neighbours -/

/-- Whether a token is an operand by itself. -/
def Token.isOperand : Token → Bool
  | number _ | text _ | name _ => true
  | _ => false

/-- Whether a token may stand behind another one in a tree: no number, text or name stands behind
the end of an operand. -/
def Token.Follows (t u : Token) : Prop := t.endsTree = true → u.isOperand = false

theorem isChain_cons_sign {t : Token} {us : List Token} (hends : t.endsTree = false)
    (h : us.IsChain Token.Follows) : (t :: us).IsChain Token.Follows :=
  List.isChain_cons.mpr ⟨fun _ _ hu => absurd (hends ▸ hu) Bool.false_ne_true, h⟩

/-- A sign may stand behind everything, and everything behind a sign. -/
theorem isChain_join {t : Token} {ts us : List Token} (hends : t.endsTree = false)
    (hoperand : t.isOperand = false) (h : ts.IsChain Token.Follows)
    (h' : us.IsChain Token.Follows) : (ts ++ t :: us).IsChain Token.Follows := by
  refine List.isChain_append.mpr ⟨h, isChain_cons_sign hends h', ?_⟩
  intro u _ v hv _
  rw [List.head?_cons, Option.mem_some_iff] at hv
  exact hv ▸ hoperand

theorem isChain_close {ts : List Token} (h : ts.IsChain Token.Follows) :
    (ts ++ [Token.rightParen]).IsChain Token.Follows := by
  refine List.isChain_append.mpr ⟨h, .singleton _, ?_⟩
  intro u _ v hv _
  rw [List.head?_cons, Option.mem_some_iff] at hv
  exact hv ▸ rfl

theorem isChain_intercalate {rows : List (List Token)}
    (h : ∀ ts ∈ rows, ts.IsChain Token.Follows) :
    ([.comma].intercalate rows).IsChain Token.Follows := by
  induction rows with
  | nil => exact .nil
  | cons first rows ih =>
    obtain ⟨hfirst, hothers⟩ := List.forall_mem_cons.mp h
    cases rows with
    | nil => simpa using hfirst
    | cons second rows =>
      rw [List.intercalate_cons_cons, List.append_assoc, List.singleton_append]
      exact isChain_join rfl rfl hfirst (ih hothers)

/-- **No number, text or name stands directly behind an operand.** -/
theorem Spells.isChain {depth level : Nat} {e : Expr} {ts : List Token}
    (h : Spells depth level e ts) : ts.IsChain Token.Follows := by
  induction h with
  | number | text | var => exact .singleton _
  | call f row _ ih =>
    have inside : ([.comma].intercalate (row.map (·.2))).IsChain Token.Follows := by
      refine isChain_intercalate fun ts hts => ?_
      obtain ⟨a, ha, rfl⟩ := List.mem_map.mp hts
      exact ih a ha
    show ([Token.name f] ++ Token.leftParen :: _).IsChain Token.Follows
    exact isChain_join rfl rfl (.singleton _) (isChain_close inside)
  | group _ ih => exact isChain_cons_sign rfl (isChain_close ih)
  | bare _ ih => exact ih
  | unary op _ ih => exact isChain_cons_sign (by cases op <;> rfl) ih
  | plus _ ih => exact isChain_cons_sign rfl ih
  | tighter _ _ _ ih => exact ih
  | binary op _ _ ihl ihr => exact isChain_join (by cases op <;> rfl) (by cases op <;> rfl) ihl ihr
  | alone _ ih => exact ih
  | ternary _ _ _ ihc iha ihb => exact isChain_join rfl rfl ihc (isChain_join rfl rfl iha ihb)

end IncrementalGame.Formula
