import IncrementalGame.Formula.Error
import IncrementalGame.Proofs.Formula.Boundaries
import IncrementalGame.Proofs.Formula.Enclosure

/-!
# Condition, consequent and zero

`if (condition) consequent` is spelled out as a text, `(condition) ? (consequent) : 0`.  If that
text is a formula, it is a ternary, and its condition is the one that was written
(`parse_conditional`).  The consequent is pasted without being looked at.  It is the second part of
the ternary, and zero is the third, just if the parentheses that are put around it are closed by one
another (`StandsAlone`); and then it is a formula by itself.

A consequent that closes the first of these parentheses and opens another one for the last is no
formula.  It regroups with what is put around it, and may end up on both sides of the colon
(`exists_regrouped_consequent`).
-/

namespace IncrementalGame.Formula

open Token (Lexes)

/-! ## Texts between parentheses -/

/-- Whether two parentheses that are put around a text are closed by one another. -/
def StandsAlone (s : List Char) : Prop :=
  splitBalanced none 0 ('(' :: (s ++ [')'])) = some ('(' :: (s ++ [')']), [])

instance (s : List Char) : Decidable (StandsAlone s) := inferInstanceAs (Decidable (_ = _))

theorem standsAlone_iff {s : List Char} :
    StandsAlone s ↔ splitBalanced none 1 (s ++ [')']) = some (s ++ [')'], []) := by
  rw [StandsAlone, splitBalanced_open, putInFront_eq_some_iff]
  constructor
  · rintro ⟨rest, split, same⟩
    obtain ⟨-, rfl⟩ := List.cons_eq_cons.mp same
    exact split
  · intro split
    exact ⟨_, split, rfl⟩

namespace StandsAlone

variable {offset : Nat} {s : List Char} {tokens : List Placed}

theorem of_lexes (h : Lexes offset s tokens) (balanced : Balanced (tokens.map Placed.token)) :
    StandsAlone s := by
  rw [standsAlone_iff, h.passed balanced.closes, splitBalanced_end]
  rfl

theorem quoteBehind (h : StandsAlone s) : quoteBehind none s = none := by
  obtain ⟨front, same, outside⟩ := quoteBehind_of_splitBalanced (standsAlone_iff.mp h)
  obtain rfl := List.append_cancel_right same
  exact outside

theorem closes (h : StandsAlone s) (hs : Lexes offset s tokens) :
    Closes 1 (tokens.map Placed.token ++ [.rightParen]) := by
  have paren : Lexes (offset + Text.byteLength s) ([')'] ++ [])
      [⟨.rightParen, offset + Text.byteLength s⟩] :=
    .token (.symbol (by decide) (absurd · (by decide))) .nil
  have whole := hs.append ⟨rfl, rfl, by decide⟩ paren
  rw [List.append_nil] at whole
  have split : splitBalanced none 1 (s ++ [')'] ++ []) = some (s ++ [')'], []) := by
    rw [List.append_nil]
    exact standsAlone_iff.mp h
  have closed := whole.closes split
  rwa [List.map_append] at closed

end StandsAlone

/-! ## The tokens of what is spelled out -/

/-- A text is a formula just if it consists of tokens that spell a tree, within the limits. -/
theorem parseText_eq_ok_iff {s : List Char} {e : Expr} :
    parseText s = .ok e ↔ ∃ tokens, Lexes 0 s tokens ∧ tokens.length ≤ maxTokens ∧
      Spells maxDepth 0 e (tokens.map Placed.token) := by
  rw [parseText]
  constructor
  · intro h
    split at h
    case h_1 => cases h
    case h_2 tokens htokens =>
      exact ⟨tokens, Token.tokenize_eq_ok_iff.mp htokens, parseTokens_eq_ok_iff.mp h⟩
  · rintro ⟨tokens, htokens, spelled⟩
    rw [Token.tokenize_eq_ok_iff.mpr htokens]
    exact parseTokens_eq_ok_iff.mpr spelled

/-- A formula is spelled out, and what is spelled out is parsed. -/
theorem parse_eq_ok_iff {formula : String} {e : Expr} :
    parse formula = .ok e ↔ ∃ text, desugar formula.toList = .ok text ∧ parseText text = .ok e := by
  rw [parse]
  constructor
  · intro h
    split at h
    case h_1 => cases h
    case h_2 text desugared =>
      split at h
      case h_1 => cases h
      case h_2 e' parsed => exact ⟨text, desugared, parsed.trans (congrArg _ (Except.ok.inj h))⟩
  · rintro ⟨text, desugared, parsed⟩
    simp only [desugared, parsed]

/-- What a formula is parsed as, from what it is spelled out as and the tokens of that. -/
theorem parse_of_tokens {formula : String} (text : String) (tokens : List Placed)
    (desugared : desugar formula.toList = .ok text.toList)
    (lexed : Token.tokenize text.toList = .ok tokens) :
    parse formula = (parseTokens (Text.byteLength text.toList) tokens).mapError fun failure =>
      .malformed failure.1 failure.2 := by
  simp only [parse, desugared, parseText, lexed]
  cases parseTokens (Text.byteLength text.toList) tokens <;> rfl

/-- A formula stands alone. -/
theorem StandsAlone.of_parseText {s : List Char} {e : Expr} (h : parseText s = .ok e) :
    StandsAlone s := by
  obtain ⟨tokens, htokens, -, spelled⟩ := parseText_eq_ok_iff.mp h
  exact .of_lexes htokens spelled.balanced

/-- The condition is still one group when its words were rewritten. -/
theorem symbolic_condition {body condition behind : List Char} (paren : body.head? = some '(')
    (split : splitBalanced none 0 body = some (condition, behind)) :
    (symbolic condition).head? = some '(' ∧
      splitBalanced none 0 (symbolic condition) = some (symbolic condition, []) := by
  refine ⟨?_, splitBalanced_rewritten (splitBalanced_taken split)⟩
  obtain ⟨nonempty, rfl⟩ := splitBalanced_eq split
  obtain ⟨c, condition, rfl⟩ := List.exists_cons_of_ne_nil nonempty
  cases paren
  rw [symbolic, ← rewritten, rewritten_cons rfl, List.head?_cons]

theorem quoteBehind_of_whole {s : List Char} (whole : splitBalanced none 0 s = some (s, [])) :
    quoteBehind none s = none := by
  obtain ⟨front, same, outside⟩ := quoteBehind_of_splitBalanced whole
  rw [same, quoteBehind_append, outside]
  rfl

/-- The tokens of a text that starts with a question mark and a parenthesis. -/
theorem tokens_of_question {offset : Nat} {s : List Char} {tokens : List Placed}
    (h : Lexes offset (" ? (".toList ++ s) tokens) :
    ∃ offset' rest, tokens.map Placed.token = .question :: .leftParen :: rest.map Placed.token ∧
      Lexes offset' s rest := by
  have cut : Lexes offset (" ?".toList ++ (' ' :: '(' :: s)) tokens := h
  obtain ⟨question, behind, rfl, hquestion, hbehind⟩ :=
    cut.split rfl ⟨⟨rfl, rfl, by simp⟩, by simp, by simp⟩
  have mark : Lexes 0 " ?".toList [⟨.question, 1⟩] :=
    Token.tokenize_eq_ok_iff.mp (by decide)
  obtain ⟨rest, rfl, hrest⟩ := (hbehind.of_space rfl).of_leftParen
  refine ⟨_, rest, ?_, hrest⟩
  rw [List.map_append, hquestion.map_token_eq mark]
  rfl

/-- The tokens of what is spelled out start with the condition, as a group of its own. -/
theorem tokens_of_spelled {body condition behind consequent : List Char} {tokens : List Placed}
    (paren : body.head? = some '(')
    (split : splitBalanced none 0 body = some (condition, behind))
    (h : Lexes 0 (symbolic condition ++ (" ? (".toList ++ (consequent ++ ") : 0".toList))) tokens) :
    ∃ first inner offset rest, Lexes 0 (symbolic condition) first ∧
      first.map Placed.token = .leftParen :: inner ∧ Closes 1 inner ∧
      Lexes offset (consequent ++ ") : 0".toList) rest ∧
      tokens.map Placed.token =
        .leftParen :: (inner ++ .question :: .leftParen :: rest.map Placed.token) := by
  obtain ⟨opens, whole⟩ := symbolic_condition paren split
  obtain ⟨first, others, rfl, hfirst, hothers⟩ :=
    h.split (quoteBehind_of_whole whole) ⟨⟨rfl, rfl, by simp⟩, by simp, by simp⟩
  obtain ⟨inner, hinner, closes⟩ :=
    closes_condition opens whole (Token.tokenize_eq_ok_iff.mpr hfirst)
  obtain ⟨offset, rest, hrest, lexes⟩ := tokens_of_question hothers
  refine ⟨first, inner, offset, rest, hfirst, hinner, closes, lexes, ?_⟩
  rw [List.map_append, hinner, hrest, List.cons_append]

/-- A consequent that stands alone is one operand of the ternary, and zero is the other one. -/
theorem operands_of_standsAlone {offset depth : Nat} {consequent : List Char} {rest : List Placed}
    {us vs : List Token} {yes : Expr} (alone : StandsAlone consequent)
    (h : Lexes offset (consequent ++ ") : 0".toList) rest)
    (same : .leftParen :: rest.map Placed.token = us ++ .colon :: vs)
    (hyes : Spells depth 0 yes us) :
    ∃ tokens, Lexes 0 consequent tokens ∧ tokens.length ≤ rest.length ∧
      Spells depth 0 yes (tokens.map Placed.token) ∧ vs = [.number 0.0] := by
  obtain ⟨own, others, rfl, hown, hothers⟩ :=
    h.split alone.quoteBehind ⟨⟨rfl, rfl, by decide⟩, by decide, by decide⟩
  obtain ⟨zs, hzs, hzero⟩ := lexes_otherwise (offset + Text.byteLength consequent)
  have colon : ∀ joint ∈ Token.colon.joins, joint < 0 := by simp [Token.joins, Token.binary?]
  rw [List.map_append, hothers.map_token_eq hzs, hzero] at same
  have group : us ++ .colon :: vs =
      .leftParen :: ((own.map Placed.token ++ [.rightParen]) ++ .colon :: [.number 0.0]) := by
    rw [← same, List.append_assoc]
    rfl
  obtain ⟨-, rfl, ws, hws, inside⟩ := hyes.exactly_group (alone.closes hown) colon group
  obtain ⟨tokens, htokens, hmap⟩ := hown.shift 0
  obtain rfl := List.append_cancel_right hws
  refine ⟨tokens, htokens, ?_, hmap ▸ inside, rfl⟩
  have length := congrArg List.length hmap
  rw [List.length_map, List.length_map] at length
  rw [length, List.length_append]
  exact Nat.le_add_right _ _

/-! ## The tree -/

/-- **A conditional formula is a ternary** of its condition and two operands.  Its consequent is a
formula by itself just if it stands alone, and then it is the first of these, and the second is
zero. -/
theorem parse_conditional {formula : String} {e : Expr}
    (conditional : (Text.stripStart ifWord (Text.trim formula.toList)).isSome)
    (accepted : parse formula = .ok e) :
    ∃ condition consequent c yes no,
      parts? formula.toList = some (condition, consequent) ∧
      parseText (symbolic condition) = .ok c ∧ e = .ternary c yes no ∧
      ((∃ r, parseText consequent = .ok r) ↔ StandsAlone consequent) ∧
      ∀ r, parseText consequent = .ok r → yes = r ∧ no = .number 0.0 := by
  obtain ⟨text, desugared, parsed⟩ := parse_eq_ok_iff.mp accepted
  obtain ⟨condition, consequent, parts, ⟨body, behind, paren, split⟩, rfl⟩ :=
    parts_of_desugar conditional desugared
  obtain ⟨tokens, lexes, short, spelled⟩ := parseText_eq_ok_iff.mp parsed
  obtain ⟨first, inner, offset, rest, hfirst, hinner, closes, hrest, htokens⟩ :=
    tokens_of_spelled paren split lexes
  have length := congrArg List.length htokens
  have length' := congrArg List.length hinner
  simp only [List.length_map, List.length_cons, List.length_append] at length length'
  rw [htokens] at spelled
  obtain ⟨depth, c, yes, no, us, vs, hdepth, rfl, hc, same, hyes, hno⟩ :=
    spelled.ternary_of_group closes
  refine ⟨condition, consequent, c, yes, no, parts, ?_, rfl, ⟨?_, ?_⟩, ?_⟩
  · refine parseText_eq_ok_iff.mpr ⟨first, hfirst, by omega, ?_⟩
    rw [hinner, hdepth]
    exact .alone hc
  · rintro ⟨r, hr⟩
    exact .of_parseText hr
  · intro standsAlone
    obtain ⟨own, hown, shorter, inside, -⟩ := operands_of_standsAlone standsAlone hrest same hyes
    refine ⟨yes, parseText_eq_ok_iff.mpr ⟨own, hown, by omega, inside.mono ?_⟩⟩
    rw [hdepth]
    exact Nat.le_succ depth
  · intro r hr
    obtain ⟨own, hown, -, inside, rfl⟩ := operands_of_standsAlone (.of_parseText hr) hrest same hyes
    obtain ⟨own', hown', -, spells⟩ := parseText_eq_ok_iff.mp hr
    rw [hown.map_token_eq hown'] at inside
    have zero : Spells 0 8 (.number 0.0) [.number 0.0] := .number 0.0
    exact ⟨inside.unique spells, hno.unique (zero.loosen (Nat.zero_le 8) le_rfl)⟩

/-- A consequent that starts with a parenthesis of its own. -/
theorem parse_conditional_of_raise :
    ∃ c yes, parse "if (a or b) (c - 5) * 2" = .ok (.ternary c yes (.number 0.0)) ∧
      parseText "(a || b)".toList = .ok c ∧ parseText "(c - 5) * 2".toList = .ok yes := by
  have parts : parts? "if (a or b) (c - 5) * 2".toList =
      some ("(a or b)".toList, "(c - 5) * 2".toList) := by decide +kernel
  have words : symbolic "(a or b)".toList = "(a || b)".toList := by decide +kernel
  have accepted : parse "if (a or b) (c - 5) * 2" = .ok (.ternary
      (.binary .or (.var "a") (.var "b"))
      (.binary .mul (.binary .sub (.var "c") (.number 5.0)) (.number 2.0)) (.number 0.0)) :=
    parse_of_tokens "(a || b) ? ((c - 5) * 2) : 0"
      [⟨.leftParen, 0⟩, ⟨.name "a", 1⟩, ⟨.orOr, 3⟩, ⟨.name "b", 6⟩, ⟨.rightParen, 7⟩,
        ⟨.question, 9⟩, ⟨.leftParen, 11⟩, ⟨.leftParen, 12⟩, ⟨.name "c", 13⟩, ⟨.minus, 15⟩,
        ⟨.number 5.0, 17⟩, ⟨.rightParen, 18⟩, ⟨.star, 20⟩, ⟨.number 2.0, 22⟩, ⟨.rightParen, 23⟩,
        ⟨.colon, 25⟩, ⟨.number 0.0, 27⟩]
      (by decide +kernel) (by decide +kernel)
  obtain ⟨condition, consequent, c, yes, no, parts', hc, same, alone, operands⟩ :=
    parse_conditional (by decide +kernel) accepted
  cases parts.symm.trans parts'
  obtain ⟨r, hr⟩ := alone.mpr (by decide +kernel)
  obtain ⟨rfl, rfl⟩ := operands r hr
  exact ⟨c, yes, accepted.trans (congrArg _ same), words ▸ hc, hr⟩

/-- The consequent `1) + (b` is no formula and is added up, and a part of `1) : (b) ? (2` is what
there is instead of zero. -/
theorem exists_regrouped_consequent :
    parts? "if (a) 1) + (b".toList = some ("(a)".toList, "1) + (b".toList) ∧
      (∀ r, parseText "1) + (b".toList ≠ .ok r) ∧
      parse "if (a) 1) + (b" = .ok (.ternary (.var "a")
        (.binary .add (.number 1.0) (.var "b")) (.number 0.0)) ∧
      parse "if (a) 1) : (b) ? (2" = .ok (.ternary (.var "a") (.number 1.0)
        (.ternary (.var "b") (.number 2.0) (.number 0.0))) := by
  refine ⟨by decide +kernel, fun r hr => ?_, ?_, ?_⟩
  · have regroups : ¬ StandsAlone "1) + (b".toList := by decide +kernel
    exact regroups (.of_parseText hr)
  · exact parse_of_tokens "(a) ? (1) + (b) : 0"
      [⟨.leftParen, 0⟩, ⟨.name "a", 1⟩, ⟨.rightParen, 2⟩, ⟨.question, 4⟩, ⟨.leftParen, 6⟩,
        ⟨.number 1.0, 7⟩, ⟨.rightParen, 8⟩, ⟨.plus, 10⟩, ⟨.leftParen, 12⟩, ⟨.name "b", 13⟩,
        ⟨.rightParen, 14⟩, ⟨.colon, 16⟩, ⟨.number 0.0, 18⟩]
      (by decide +kernel) (by decide +kernel)
  · exact parse_of_tokens "(a) ? (1) : (b) ? (2) : 0"
      [⟨.leftParen, 0⟩, ⟨.name "a", 1⟩, ⟨.rightParen, 2⟩, ⟨.question, 4⟩, ⟨.leftParen, 6⟩,
        ⟨.number 1.0, 7⟩, ⟨.rightParen, 8⟩, ⟨.colon, 10⟩, ⟨.leftParen, 12⟩, ⟨.name "b", 13⟩,
        ⟨.rightParen, 14⟩, ⟨.question, 16⟩, ⟨.leftParen, 18⟩, ⟨.number 2.0, 19⟩, ⟨.rightParen, 20⟩,
        ⟨.colon, 22⟩, ⟨.number 0.0, 24⟩]
      (by decide +kernel) (by decide +kernel)

end IncrementalGame.Formula
