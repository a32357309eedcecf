import Mathlib.Logic.Relation
import IncrementalGame.Proofs.Formula.Descent
import IncrementalGame.Proofs.Formula.Parsing

/-!
# What a tree keeps of a text

`Expr.flat` is the tree read from left to right: each operator, number, text and name, the
parentheses and commas of each call, and the two signs of each ternary.  A tree keeps no more of a
text: what has been left out are pairs of parentheses around an operand and plus signs in front of
one.

An `Insertion` puts one of them back.  The tokens of every text that is parsed come from the
flattened tree by such insertions, so none of them is lost, doubled or moved (`parseText_ok`); and
so the tree has no more nodes than the text has tokens.
-/

namespace IncrementalGame.Formula

/-! ## Operands and insertions -/

/-- Whether parentheses come in pairs. -/
inductive Balanced : List Token → Prop where
  | nil : Balanced []
  | other {t : Token} (left : t ≠ .leftParen) (right : t ≠ .rightParen) : Balanced [t]
  | pair {ts : List Token} (inside : Balanced ts) : Balanced (.leftParen :: (ts ++ [.rightParen]))
  | append {ts us : List Token} (first : Balanced ts) (second : Balanced us) : Balanced (ts ++ us)

theorem Balanced.cons {t : Token} {ts : List Token} (left : t ≠ .leftParen)
    (right : t ≠ .rightParen) (h : Balanced ts) : Balanced (t :: ts) :=
  .append (.other left right) h

theorem Balanced.intercalate {rows : List (List Token)} (h : ∀ ts ∈ rows, Balanced ts) :
    Balanced ([.comma].intercalate rows) := by
  induction rows with
  | nil => exact .nil
  | cons first rows ih =>
    obtain ⟨hfirst, hothers⟩ := List.forall_mem_cons.mp h
    cases rows with
    | nil => simpa using hfirst
    | cons second rows =>
      rw [List.intercalate_cons_cons]
      exact .append (.append hfirst (.other (by simp) (by simp))) (ih hothers)

/-- Whether an operand may end with a token. -/
def Token.endsTree : Token → Bool
  | number _ | text _ | name _ | rightParen => true
  | _ => false

/-- Whether tokens start like an operand. -/
def StartsTree (ts : List Token) : Prop := ∃ t ∈ ts.head?, t.startsTree = true

/-- Whether tokens end like an operand. -/
def EndsTree (ts : List Token) : Prop := ∃ t ∈ ts.getLast?, t.endsTree = true

theorem EndsTree.append (front : List Token) {ts : List Token} (h : EndsTree ts) :
    EndsTree (front ++ ts) := by
  obtain ⟨t, ht, hend⟩ := h
  exact ⟨t, by rw [List.getLast?_append, Option.mem_def.mp ht]; rfl, hend⟩

/-- Putting back what a tree has not kept: a pair of parentheses around an operand, or a plus sign
in front of one.  Either stands where no operand has just ended, so the parentheses are not those of
a call and the plus sign adds nothing up. -/
inductive Insertion : List Token → List Token → Prop where
  | group (before inside after : List Token) (place : ¬EndsTree before) (starts : StartsTree inside)
    (ends : EndsTree inside) (balanced : Balanced inside) :
    Insertion (before ++ inside ++ after)
      (before ++ (.leftParen :: (inside ++ [.rightParen])) ++ after)
  | plus (before after : List Token) (place : ¬EndsTree before) (starts : StartsTree after) :
    Insertion (before ++ after) (before ++ .plus :: after)

/-! ## What spells a tree is an operand -/

namespace Spells

variable {depth level : Nat} {e : Expr} {ts : List Token}

theorem startsTree (h : Spells depth level e ts) : StartsTree ts := by
  obtain ⟨t, us, rfl, hstart, -⟩ := h.head
  exact ⟨t, rfl, hstart⟩

theorem endsTree (h : Spells depth level e ts) : EndsTree ts := by
  have hclose : EndsTree [.rightParen] := ⟨.rightParen, rfl, rfl⟩
  induction h with
  | number | text | var => exact ⟨_, rfl, rfl⟩
  | call f row =>
    exact hclose.append (.name f :: .leftParen :: [.comma].intercalate (row.map (·.2)))
  | @group _ _ ts => exact hclose.append (.leftParen :: ts)
  | bare _ ih => exact ih
  | unary op _ ih => exact ih.append [op.token]
  | plus _ ih => exact ih.append [.plus]
  | tighter _ _ _ ih => exact ih
  | @binary _ _ _ ts _ op _ _ _ ih => exact (ih.append [op.token]).append ts
  | alone _ ih => exact ih
  | @ternary _ _ _ _ ts us _ _ _ _ _ _ ih =>
    exact (((ih.append [.colon]).append us).append [.question]).append ts

theorem balanced (h : Spells depth level e ts) : Balanced ts := by
  induction h with
  | number | text | var => exact .other (by simp) (by simp)
  | call f row _ ih =>
    refine .cons (by simp) (by simp) (.pair (.intercalate fun ts hts => ?_))
    obtain ⟨a, ha, rfl⟩ := List.mem_map.mp hts
    exact ih a ha
  | group _ ih => exact .pair ih
  | bare _ ih => exact ih
  | unary op _ ih => exact .cons (by cases op <;> decide) (by cases op <;> decide) ih
  | plus _ ih => exact .cons (by simp) (by simp) ih
  | tighter _ _ _ ih => exact ih
  | binary op _ _ ihl ihr =>
    exact .append ihl (.cons (by cases op <;> decide) (by cases op <;> decide) ihr)
  | alone _ ih => exact ih
  | ternary _ _ _ ihc iha ihb =>
    exact .append ihc (.cons (by simp) (by simp) (.append iha (.cons (by simp) (by simp) ihb)))

/-- Each node of a tree has a token of its own. -/
theorem size_le_length (h : Spells depth level e ts) : e.size ≤ ts.length := by
  induction h with
  | number | text | var => exact le_rfl
  | call f row _ ih =>
    have hsum : ((row.map (·.1)).map Expr.size).sum ≤ ((row.map (·.2)).map List.length).sum := by
      rw [List.map_map, List.map_map]
      exact List.sum_le_sum ih
    simp only [Expr.size, Expr.sizeAll_eq_sum, List.length_cons, List.length_append,
      length_intercalate_comma]
    omega
  | group _ ih =>
    simp only [List.length_cons, List.length_append]
    omega
  | bare _ ih => exact ih
  | unary op _ ih => exact Nat.succ_le_succ ih
  | plus _ ih => exact ih.trans (Nat.le_succ _)
  | tighter _ _ _ ih => exact ih
  | binary op _ _ ihl ihr =>
    simp only [Expr.size, List.length_append, List.length_cons]
    omega
  | alone _ ih => exact ih
  | ternary _ _ _ ihc iha ihb =>
    simp only [Expr.size, List.length_append, List.length_cons]
    omega

end Spells

/-! ## Flattened trees -/

namespace Expr

mutual

/-- The tokens of a tree from left to right, with no parentheses but those of calls. -/
def flat : Expr → List Token
  | number x => [.number x]
  | text s => [.text s]
  | var s => [.name s]
  | unary op e => op.token :: e.flat
  | binary op l r => l.flat ++ op.token :: r.flat
  | ternary c a b => c.flat ++ .question :: (a.flat ++ .colon :: b.flat)
  | call f args => .name f :: .leftParen :: ([.comma].intercalate (flatAll args) ++ [.rightParen])

/-- The tokens of each of some trees. -/
def flatAll : List Expr → List (List Token)
  | [] => []
  | e :: rest => e.flat :: flatAll rest

end

theorem flatAll_eq_map (es : List Expr) : flatAll es = es.map flat := by
  induction es with
  | nil => rfl
  | cons e es ih => rw [flatAll, ih, List.map_cons]

end Expr

/-- Whether some tokens come from others by insertions, wherever an operand may stand. -/
def Fills (ts us : List Token) : Prop :=
  ∀ before after, ¬EndsTree before →
    Relation.ReflTransGen Insertion (before ++ ts ++ after) (before ++ us ++ after)

namespace Fills

variable {ts us ts' us' : List Token} {t : Token}

theorem refl (ts : List Token) : Fills ts ts := fun _ _ _ => .refl

theorem trans (h : Fills ts us) (h' : Fills us us') : Fills ts us' :=
  fun before after hplace => (h before after hplace).trans (h' before after hplace)

/-- What comes behind is left as it is. -/
theorem append (h : Fills ts us) (behind : List Token) : Fills (ts ++ behind) (us ++ behind) := by
  intro before after hplace
  simpa using h before (behind ++ after) hplace

/-- Behind a token that ends no operand there is a place for one. -/
theorem behind (front : List Token) (ht : t.endsTree = false) (h : Fills ts us) :
    Fills (front ++ t :: ts) (front ++ t :: us) := by
  intro before after _
  have hplace : ¬EndsTree (before ++ front ++ [t]) := by
    rintro ⟨last, hlast, hend⟩
    rw [List.getLast?_concat, Option.mem_some_iff] at hlast
    exact absurd (hlast ▸ hend) (by simp [ht])
  simpa using h (before ++ front ++ [t]) after hplace

/-- Both sides of a token that ends no operand are filled one after the other. -/
theorem join (h : Fills ts us) (ht : t.endsTree = false) (h' : Fills ts' us') :
    Fills (ts ++ t :: ts') (us ++ t :: us') :=
  (h.append _).trans (h'.behind us ht)

theorem intercalate {row : List (List Token × List Token)} (h : ∀ a ∈ row, Fills a.1 a.2) :
    Fills ([.comma].intercalate (row.map (·.1))) ([.comma].intercalate (row.map (·.2))) := by
  induction row with
  | nil => exact .refl _
  | cons first row ih =>
    obtain ⟨hfirst, hothers⟩ := List.forall_mem_cons.mp h
    cases row with
    | nil => simpa using hfirst
    | cons second row =>
      have hjoin := hfirst.join (t := .comma) rfl (ih hothers)
      simpa [List.intercalate_cons_cons] using hjoin

theorem group (h : Fills ts us) (starts : StartsTree us) (ends : EndsTree us)
    (balanced : Balanced us) : Fills ts (.leftParen :: (us ++ [.rightParen])) :=
  fun before after hplace =>
    (h before after hplace).tail (.group before us after hplace starts ends balanced)

theorem plus (h : Fills ts us) (starts : StartsTree us) : Fills ts (.plus :: us) := by
  intro before after hplace
  have hstarts : StartsTree (us ++ after) := by
    obtain ⟨t, ht, hstart⟩ := starts
    exact ⟨t, List.mem_head?_append_of_mem_head? ht, hstart⟩
  have hinsertion := Insertion.plus before (us ++ after) hplace hstarts
  rw [← List.append_assoc, ← List.cons_append, ← List.append_assoc] at hinsertion
  exact (h before after hplace).tail hinsertion

end Fills

/-- **What spells a tree comes from the flattened tree by insertions.** -/
theorem Spells.fills {depth level : Nat} {e : Expr} {ts : List Token}
    (h : Spells depth level e ts) : Fills e.flat ts := by
  induction h with
  | number | text | var => exact .refl _
  | call f row _ ih =>
    have hrow : ∀ a ∈ row.map fun a => (a.1.flat, a.2), Fills a.1 a.2 := by
      intro a ha
      obtain ⟨b, hb, rfl⟩ := List.mem_map.mp ha
      exact ih b hb
    have hinside := Fills.intercalate hrow
    rw [List.map_map, List.map_map] at hinside
    rw [Expr.flat, Expr.flatAll_eq_map, List.map_map]
    exact (hinside.append [.rightParen]).behind [.name f] rfl
  | group operand ih => exact ih.group operand.startsTree operand.endsTree operand.balanced
  | bare _ ih => exact ih
  | unary op _ ih => exact ih.behind [] (by cases op <;> rfl)
  | plus operand ih => exact ih.plus operand.startsTree
  | tighter _ _ _ ih => exact ih
  | binary op _ _ ihl ihr => exact ihl.join (by cases op <;> rfl) ihr
  | alone _ ih => exact ih
  | ternary _ _ _ ihc iha ihb => exact ihc.join rfl (iha.join rfl ihb)

/-! ## The tree of a text -/

/-- **A text that is parsed gives a tree that keeps all of its tokens**, in their order, but for
pairs of parentheses around an operand and plus signs in front of one.  So the tree has no more
nodes than the text has tokens, and these are limited; and neither its value nor the search for a
call in it is descended into deeper than that. -/
theorem parseText_ok (s : List Char) (e : Expr) (h : parseText s = .ok e) :
    ∃ tokens, Token.tokenize s = .ok tokens ∧
      Relation.ReflTransGen Insertion e.flat (tokens.map (·.token)) ∧
      e.size ≤ tokens.length ∧ tokens.length ≤ maxTokens ∧
      ∀ depth, tokens.length ≤ depth →
        (∀ vars beyond, Expr.cutAt (Expr.evalStep vars) beyond depth e = e.eval vars) ∧
        ∀ p beyond, Expr.cutAt (Expr.anyCallStep p) beyond depth e = e.anyCall p := by
  unfold parseText at h
  split at h
  next => exact absurd h (by simp)
  next tokens htokens =>
    obtain ⟨hlimit, hspells⟩ := parseTokens_eq_ok_iff.mp h
    have hsize : e.size ≤ tokens.length := by simpa using hspells.size_le_length
    refine ⟨tokens, htokens, ?_, hsize, hlimit, fun depth hdepth => ⟨?_, ?_⟩⟩
    · have hnone : ¬EndsTree [] := fun ⟨_, hlast, _⟩ => absurd hlast (by simp)
      simpa using hspells.fills [] [] hnone
    · exact fun vars beyond =>
        Expr.cutAt_eq Expr.asksOperands_evalStep Expr.eval_eq_step beyond (hsize.trans hdepth)
    · exact fun p beyond =>
        Expr.cutAt_eq Expr.asksOperands_anyCallStep Expr.anyCall_eq_step beyond
          (hsize.trans hdepth)

/-- A formula with two prefixes, a group in a group, and a plus sign in an argument. -/
def discount : List Char := "-+(a + (b)) * max(c, +d)".toList

theorem parseText_ok_of_discount :
    parseText discount = .ok (.binary .mul (.unary .neg (.binary .add (.var "a") (.var "b")))
        (.call "max" [.var "c", .var "d"])) ∧
      Relation.ReflTransGen Insertion
        [.minus, .name "a", .plus, .name "b", .star, .name "max", .leftParen, .name "c", .comma,
          .name "d", .rightParen]
        [.minus, .plus, .leftParen, .name "a", .plus, .leftParen, .name "b", .rightParen,
          .rightParen, .star, .name "max", .leftParen, .name "c", .comma, .plus, .name "d",
          .rightParen] := by
  have hparse : parseText discount = .ok (.binary .mul
      (.unary .neg (.binary .add (.var "a") (.var "b"))) (.call "max" [.var "c", .var "d"])) := by
    cbv
  obtain ⟨tokens, htokens, hinsertions, -⟩ := parseText_ok discount _ hparse
  have hmap : (Token.tokenize discount).map (·.map (·.token)) = .ok [.minus, .plus, .leftParen,
      .name "a", .plus, .leftParen, .name "b", .rightParen, .rightParen, .star, .name "max",
      .leftParen, .name "c", .comma, .plus, .name "d", .rightParen] := by
    cbv
  rw [htokens] at hmap
  exact ⟨hparse, Except.ok.inj hmap ▸ hinsertions⟩

end IncrementalGame.Formula
