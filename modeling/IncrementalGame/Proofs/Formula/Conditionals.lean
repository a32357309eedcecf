import IncrementalGame.Proofs.Formula.Connectives

/-!
# The tokens of a conditional formula

A formula that starts with `if` is spelled out as a text, before there are tokens.  Two scanners
read it for that: `splitBalanced` looks for the end of the condition, and `symbolic` for its words.
Neither knows the tokens, yet what they do can be told in tokens, for every condition and every
consequent that consist of tokens (`tokens_of_conditional`):

* the last token of the condition is the parenthesis that closes its first one (`Closes`);
* the formula that is spelled out consists of the tokens of the condition, with operators for the
  words `and` and `or` that are not called, of those of the consequent, and of the five between and
  behind them.

The one condition is that neither word is a part of a longer word, which only colons can make of it;
a colon need not touch it for that (`exists_word_without_operator`).
-/

namespace IncrementalGame.Formula

open Token (isQuote Lexeme Lexes)

/-! ## Parentheses -/

/-- The tokens close `depth` open parentheses, and the last of these with the last token. -/
structure Closes (depth : Nat) (tokens : List Token) : Prop where
  /-- Before the last token one is still open. -/
  inside : ∀ n < tokens.length,
    (tokens.take n).count .rightParen < (tokens.take n).count .leftParen + depth
  /-- Behind it none is. -/
  outside : tokens.count .rightParen = tokens.count .leftParen + depth

/-- A token in front changes how many parentheses are open. -/
theorem Closes.cons {t : Token} {depth depth' : Nat} {tokens : List Token}
    (h : Closes depth tokens) (positive : 0 < depth')
    (opened : depth' + [t].count .leftParen = depth + [t].count .rightParen) :
    Closes depth' (t :: tokens) where
  inside n hn := by
    cases n with
    | zero => simpa using positive
    | succ n =>
      have := h.inside n (Nat.lt_of_succ_lt_succ hn)
      rw [List.take_succ_cons, ← List.singleton_append, List.count_append, List.count_append]
      omega
  outside := by
    have := h.outside
    rw [← List.singleton_append, List.count_append, List.count_append]
    omega

theorem closes_rightParen : Closes 1 [.rightParen] where
  inside n hn := by
    obtain rfl : n = 0 := Nat.lt_one_iff.mp hn
    exact Nat.zero_lt_one
  outside := rfl

/-! ### The end of the condition -/

/-- A split in front of which a text is put. -/
def putInFront (front : List Char) (split : Option (List Char × List Char)) :
    Option (List Char × List Char) := split.map fun p => (front ++ p.1, p.2)

theorem putInFront_nil (split : Option (List Char × List Char)) : putInFront [] split = split := by
  cases split <;> rfl

theorem putInFront_append (front middle : List Char) (split : Option (List Char × List Char)) :
    putInFront (front ++ middle) split = putInFront front (putInFront middle split) := by
  rw [putInFront, putInFront, putInFront, Option.map_map]
  simp only [List.append_assoc]
  rfl

theorem putInFront_eq_some_iff {front taken behind : List Char}
    {split : Option (List Char × List Char)} :
    putInFront front split = some (taken, behind) ↔
      ∃ rest, split = some (rest, behind) ∧ taken = front ++ rest := by
  rw [putInFront, Option.map_eq_some_iff]
  constructor
  · rintro ⟨⟨rest, _⟩, rfl, same⟩
    obtain ⟨rfl, rfl⟩ := Prod.mk.inj same
    exact ⟨rest, rfl, rfl⟩
  · rintro ⟨rest, rfl, rfl⟩
    exact ⟨_, rfl, rfl⟩

theorem putInFront_cancel {front taken behind : List Char}
    {split : Option (List Char × List Char)}
    (h : putInFront front split = some (front ++ taken, behind)) :
    split = some (taken, behind) := by
  obtain ⟨rest, rfl, same⟩ := putInFront_eq_some_iff.mp h
  rw [List.append_cancel_left same]

theorem quoteAfter_of_not_isQuote {c : Char} (h : isQuote c = false) :
    quoteAfter none c = none := by
  rw [quoteAfter, if_neg (Token.isQuote_eq_false.mp h)]

theorem splitBalanced_cons {quote : Option Char} {depth : Nat} {c : Char}
    (other : quote.isNone → c ≠ '(' ∧ c ≠ ')') (s : List Char) :
    splitBalanced quote depth (c :: s) =
      putInFront [c] (splitBalanced (quoteAfter quote c) depth s) := by
  conv_lhs => unfold splitBalanced
  rw [if_neg fun h => (other h.1).1 h.2, if_neg fun h => (other h.1).2 h.2]
  rfl

theorem splitBalanced_open (depth : Nat) (s : List Char) :
    splitBalanced none depth ('(' :: s) = putInFront ['('] (splitBalanced none (depth + 1) s) := by
  cases depth <;> rfl

theorem splitBalanced_close (depth : Nat) (s : List Char) :
    splitBalanced none (depth + 2) (')' :: s) =
      putInFront [')'] (splitBalanced none (depth + 1) s) := rfl

theorem splitBalanced_end (s : List Char) :
    splitBalanced none 1 (')' :: s) = some ([')'], s) := rfl

/-- A text is split behind its first character, or the rest of it is split further, and how deep
that is does not depend on the rest. -/
theorem splitBalanced_cases {quote : Option Char} {depth : Nat} {c : Char}
    {s taken behind : List Char} (h : splitBalanced quote depth (c :: s) = some (taken, behind)) :
    (quote = none ∧ depth = 1 ∧ c = ')' ∧ taken = [')'] ∧ behind = s) ∨
      ∃ depth' rest, taken = c :: rest ∧
        splitBalanced (quoteAfter quote c) depth' s = some (rest, behind) ∧
        ∀ t, splitBalanced quote depth (c :: t) =
          putInFront [c] (splitBalanced (quoteAfter quote c) depth' t) := by
  have further {depth' : Nat} (step : ∀ t, splitBalanced quote depth (c :: t) =
      putInFront [c] (splitBalanced (quoteAfter quote c) depth' t)) :
      ∃ depth' rest, taken = c :: rest ∧
        splitBalanced (quoteAfter quote c) depth' s = some (rest, behind) ∧
        ∀ t, splitBalanced quote depth (c :: t) =
          putInFront [c] (splitBalanced (quoteAfter quote c) depth' t) := by
    rw [step] at h
    obtain ⟨rest, inner, rfl⟩ := putInFront_eq_some_iff.mp h
    exact ⟨depth', rest, rfl, inner, step⟩
  by_cases other : quote.isNone → c ≠ '(' ∧ c ≠ ')'
  · exact .inr (further (splitBalanced_cons other))
  rw [Classical.not_imp, not_and_or, not_not, not_not] at other
  obtain ⟨outside, rfl | rfl⟩ := other
  · obtain rfl := Option.isNone_iff_eq_none.mp outside
    exact .inr (further (splitBalanced_open depth))
  · obtain rfl := Option.isNone_iff_eq_none.mp outside
    match depth with
    | 0 => cases h
    | 1 =>
      obtain ⟨rfl, rfl⟩ := Prod.mk.inj (Option.some_inj.mp h)
      exact .inl ⟨rfl, rfl, rfl, rfl, rfl⟩
    | depth + 2 => exact .inr (further (splitBalanced_close depth))

theorem splitBalanced_eq {quote : Option Char} {depth : Nat} {s taken behind : List Char}
    (h : splitBalanced quote depth s = some (taken, behind)) :
    taken ≠ [] ∧ taken ++ behind = s := by
  induction s generalizing quote depth taken with
  | nil => cases h
  | cons c s ih =>
    rcases splitBalanced_cases h with ⟨-, -, rfl, rfl, rfl⟩ | ⟨_, rest, rfl, inner, -⟩
    · exact ⟨List.cons_ne_nil _ _, rfl⟩
    · exact ⟨List.cons_ne_nil c rest, by rw [List.cons_append, (ih inner).2]⟩

theorem parens_of_mem_symbols {t : Token} {spelling : List Char}
    (h : (t, spelling) ∈ Token.symbols) (left : t ≠ .leftParen) (right : t ≠ .rightParen) :
    ∀ c ∈ spelling, isQuote c = false ∧ c ≠ '(' ∧ c ≠ ')' := by
  have all : ∀ entry ∈ Token.symbols, entry.1 ≠ .leftParen → entry.1 ≠ .rightParen →
      entry.2.all (fun c => !isQuote c && c != '(' && c != ')') = true := by decide
  simpa [and_assoc] using all _ h left right

/-- Characters that a parenthesis and a quote are none of. -/
theorem plain_of_forall {p : Char → Bool} {run : List Char} (parts : ∀ c ∈ run, p c = true)
    (quotes : p '\'' = false ∧ p '"' = false) (parens : p '(' = false ∧ p ')' = false) :
    ∀ c ∈ run, isQuote c = false ∧ c ≠ '(' ∧ c ≠ ')' := by
  intro c hc
  have hp := parts c hc
  have other {d : Char} (hd : p d = false) : c ≠ d := by
    rintro rfl
    rw [hd] at hp
    cases hp
  refine ⟨?_, other parens.1, other parens.2⟩
  rw [isQuote, beq_eq_false_iff_ne.mpr (other quotes.1), beq_eq_false_iff_ne.mpr (other quotes.2),
    Bool.or_self]

theorem splitBalanced_append_run {depth : Nat} {run : List Char}
    (parts : ∀ c ∈ run, isQuote c = false ∧ c ≠ '(' ∧ c ≠ ')') (s : List Char) :
    splitBalanced none depth (run ++ s) = putInFront run (splitBalanced none depth s) := by
  induction run with
  | nil => exact (putInFront_nil _).symm
  | cons c run ih =>
    rw [List.forall_mem_cons] at parts
    rw [List.cons_append, splitBalanced_cons fun _ => parts.1.2,
      quoteAfter_of_not_isQuote parts.1.1, ih parts.2, ← putInFront_append, List.singleton_append]

theorem splitBalanced_append_content {quote : Char} {depth : Nat} {content : List Char}
    (closes : quote ∉ content) (s : List Char) :
    splitBalanced (some quote) depth (content ++ quote :: s) =
      putInFront (content ++ [quote]) (splitBalanced none depth s) := by
  induction content with
  | nil =>
    rw [List.nil_append, splitBalanced_cons (by nofun), quoteAfter, if_pos rfl, List.nil_append]
  | cons c content ih =>
    rw [List.mem_cons, not_or] at closes
    rw [List.cons_append, splitBalanced_cons (by nofun), quoteAfter, if_neg (Ne.symm closes.1),
      ih closes.2, ← putInFront_append, List.singleton_append, List.cons_append]

/-- A token that is no parenthesis is passed over. -/
theorem Token.Lexeme.splitBalanced_append {t : Token} {spelling rest : List Char} {depth : Nat}
    (front : Lexeme t spelling rest) (left : t ≠ .leftParen) (right : t ≠ .rightParen)
    (s : List Char) :
    splitBalanced none depth (spelling ++ s) =
      putInFront spelling (splitBalanced none depth s) := by
  cases front with
  | number nonempty parts =>
    exact splitBalanced_append_run (plain_of_forall parts ⟨rfl, rfl⟩ ⟨rfl, rfl⟩) s
  | @text quote content _ opens closes =>
    have parens : quote ≠ '(' ∧ quote ≠ ')' := by
      rcases opens with rfl | rfl <;> decide
    rw [List.cons_append, List.append_assoc, List.singleton_append,
      splitBalanced_cons fun _ => parens, quoteAfter, if_pos opens,
      splitBalanced_append_content closes, ← putInFront_append, List.singleton_append]
  | name starts parts ends longest =>
    have word := Token.isWordRest_of_mem_name starts parts longest
    exact splitBalanced_append_run (plain_of_forall word ⟨rfl, rfl⟩ ⟨rfl, rfl⟩) s
  | symbol listed => exact splitBalanced_append_run (parens_of_mem_symbols listed left right) s

theorem Token.Lexeme.spelling_leftParen {spelling rest : List Char}
    (front : Lexeme .leftParen spelling rest) : spelling = ['('] := by
  have all : ∀ entry ∈ Token.symbols, entry.1 = .leftParen → entry.2 = ['('] := by decide
  cases front with
  | symbol listed => exact all _ listed rfl

theorem Token.Lexeme.spelling_rightParen {spelling rest : List Char}
    (front : Lexeme .rightParen spelling rest) : spelling = [')'] := by
  have all : ∀ entry ∈ Token.symbols, entry.1 = .rightParen → entry.2 = [')'] := by decide
  cases front with
  | symbol listed => exact all _ listed rfl

/-- The parenthesis that ends a row of tokens closes the outermost open one. -/
theorem Token.Lexes.closes {offset depth : Nat} {s behind : List Char} {tokens : List Placed}
    (h : Lexes offset s tokens)
    (split : splitBalanced none (depth + 1) (s ++ behind) = some (s, behind)) :
    Closes (depth + 1) (tokens.map Placed.token) := by
  induction h generalizing depth with
  | nil => exact absurd rfl (splitBalanced_eq split).1
  | @space _ c rest _ separates _ ih =>
    have plain : ∀ d ∈ [c], isQuote d = false ∧ d ≠ '(' ∧ d ≠ ')' :=
      plain_of_forall (List.forall_mem_singleton.mpr separates) ⟨rfl, rfl⟩ ⟨rfl, rfl⟩
    rw [List.cons_append, ← List.singleton_append, splitBalanced_append_run plain] at split
    exact ih (putInFront_cancel split)
  | @token _ t spelling rest tokens front inside ih =>
    rw [List.append_assoc] at split
    rw [List.map_cons]
    by_cases left : t = .leftParen
    · subst left
      obtain rfl := front.spelling_leftParen
      rw [List.singleton_append, splitBalanced_open] at split
      exact (ih (putInFront_cancel split)).cons (Nat.succ_pos depth) rfl
    by_cases right : t = .rightParen
    · subst right
      obtain rfl := front.spelling_rightParen
      cases depth with
      | zero =>
        rw [List.singleton_append, splitBalanced_end] at split
        obtain ⟨same, -⟩ := Prod.mk.inj (Option.some_inj.mp split)
        obtain rfl : [] = rest := (List.cons_eq_cons.mp same).2
        rw [inside.eq_nil]
        exact closes_rightParen
      | succ depth =>
        rw [List.singleton_append, splitBalanced_close] at split
        exact (ih (putInFront_cancel split)).cons (Nat.succ_pos _) rfl
    · rw [front.splitBalanced_append left right] at split
      refine (ih (putInFront_cancel split)).cons (Nat.succ_pos depth) ?_
      rw [List.count_singleton, List.count_singleton, beq_eq_false_iff_ne.mpr left,
        beq_eq_false_iff_ne.mpr right]

/-! ## What is spelled out -/

/-- The condition and the consequent of a formula that starts with `if`. -/
def parts? (formula : List Char) : Option (List Char × List Char) :=
  match Text.stripStart ifWord (Text.trim formula) with
  | none => none
  | some rest =>
    (splitBalanced none 0 (Text.trimStart rest)).map fun p =>
      (p.1, if Text.trim p.2 = [] then ['1'] else Text.trim p.2)

/-- A formula is spelled out from its condition and its consequent. -/
theorem parts_of_desugar {formula text : List Char}
    (conditional : (Text.stripStart ifWord (Text.trim formula)).isSome)
    (accepted : desugar formula = .ok text) :
    ∃ condition consequent, parts? formula = some (condition, consequent) ∧
      (∃ body behind, body.head? = some '(' ∧
        splitBalanced none 0 body = some (condition, behind)) ∧
      text = symbolic condition ++ (" ? (".toList ++ (consequent ++ ") : 0".toList)) := by
  obtain ⟨rest, starts⟩ := Option.isSome_iff_exists.mp conditional
  rw [desugar] at accepted
  simp only [starts, desugarBody] at accepted
  split at accepted
  case isTrue => cases accepted
  case isFalse paren =>
    split at accepted
    case h_1 => cases accepted
    case h_2 condition behind split =>
      cases accepted
      refine ⟨condition, if Text.trim behind = [] then ['1'] else Text.trim behind, ?_,
        ⟨Text.trimStart rest, behind, not_not.mp paren, split⟩, ?_⟩
      · rw [parts?, starts]
        simp only [split, Option.map_some]
      · simp only [List.append_assoc]

/-- A parenthesis in front of a text is its first token. -/
theorem Token.Lexes.of_leftParen {offset : Nat} {s : List Char} {tokens : List Placed}
    (h : Lexes offset ('(' :: s) tokens) :
    ∃ tokens', tokens = ⟨.leftParen, offset⟩ :: tokens' ∧ Lexes (offset + 1) s tokens' := by
  generalize whole : '(' :: s = s' at h
  cases h with
  | nil => cases whole
  | space separates =>
    cases whole
    exact absurd separates (by decide)
  | @token _ t spelling rest tokens front behind =>
    obtain ⟨c, more, rfl, -⟩ := front.head
    rw [List.cons_append, List.cons.injEq] at whole
    obtain ⟨rfl, rfl⟩ := whole
    obtain rfl := front.leftParen.mp rfl
    cases front.spelling_leftParen
    exact ⟨tokens, rfl, behind⟩

/-- The tokens of a condition that was split off. -/
theorem closes_condition {body condition behind : List Char} {tokens : List Placed}
    (paren : body.head? = some '(')
    (split : splitBalanced none 0 body = some (condition, behind))
    (h : Token.tokenize condition = .ok tokens) :
    ∃ inner, tokens.map Placed.token = .leftParen :: inner ∧ Closes 1 inner := by
  obtain ⟨nonempty, rfl⟩ := splitBalanced_eq split
  obtain ⟨c, condition, rfl⟩ := List.exists_cons_of_ne_nil nonempty
  cases paren
  obtain ⟨tokens', rfl, inner⟩ := (Token.tokenize_eq_ok_iff.mp h).of_leftParen
  rw [List.cons_append, splitBalanced_open] at split
  exact ⟨tokens'.map Placed.token, rfl, inner.closes (putInFront_cancel split)⟩

theorem lexes_question {offset : Nat} {s : List Char} {tokens : List Placed}
    (h : Lexes (offset + 4) s tokens) :
    ∃ tokens', Lexes offset (" ? (".toList ++ s) tokens' ∧
      tokens'.map Placed.token = .question :: .leftParen :: tokens.map Placed.token := by
  have paren : Lexes (offset + 3) (['('] ++ s) (⟨.leftParen, offset + 3⟩ :: tokens) :=
    .token (.symbol (by decide) (absurd · (by decide))) h
  have question : Lexes (offset + 1) (['?'] ++ (' ' :: (['('] ++ s)))
      (⟨.question, offset + 1⟩ :: ⟨.leftParen, offset + 3⟩ :: tokens) :=
    .token (.symbol (by decide) (absurd · (by decide))) (.space rfl paren)
  exact ⟨_, .space rfl question, rfl⟩

theorem lexes_otherwise (offset : Nat) :
    ∃ tokens, Lexes offset ") : 0".toList tokens ∧
      tokens.map Placed.token = [.rightParen, .colon, .number 0.0] := by
  have value : (⟨['0'], [], 0⟩ : Numeral).value.toFloat false = 0.0 := by decide +kernel
  have zero : Lexes (offset + 4) (['0'] ++ []) [⟨.number 0.0, offset + 4⟩] := by
    rw [← value]
    exact .token (.number (by decide) (List.forall_mem_singleton.mpr rfl) rfl rfl) .nil
  have colon : Lexes (offset + 2) ([':'] ++ (' ' :: (['0'] ++ [])))
      [⟨.colon, offset + 2⟩, ⟨.number 0.0, offset + 4⟩] :=
    .token (.symbol (by decide) (absurd · (by decide))) (.space rfl zero)
  have paren : Lexes offset ([')'] ++ (' ' :: ([':'] ++ (' ' :: (['0'] ++ [])))))
      [⟨.rightParen, offset⟩, ⟨.colon, offset + 2⟩, ⟨.number 0.0, offset + 4⟩] :=
    .token (.symbol (by decide) (absurd · (by decide))) (.space rfl colon)
  exact ⟨_, paren, rfl⟩

/-- **The tokens of a conditional formula.**  If its condition and its consequent consist of tokens,
so does what is spelled out, and where no word `and` or `or` runs on the tokens are those of the
ternary that it stands for.  The condition is all that its first parenthesis holds. -/
theorem tokens_of_conditional {formula text : List Char}
    (conditional : (Text.stripStart ifWord (Text.trim formula)).isSome)
    (accepted : desugar formula = .ok text) :
    ∃ condition consequent, parts? formula = some (condition, consequent) ∧
      ∀ ps rs, Token.tokenize condition = .ok ps → Token.tokenize consequent = .ok rs →
        (∀ p ∈ ps, p.token = .name "and" ∨ p.token = .name "or" →
          runsOn condition p.offset = false) →
        (∃ ts, Token.tokenize text = .ok ts ∧
          ts.map Placed.token =
            withOperators (ps.map Placed.token) ++ [.question, .leftParen] ++
              rs.map Placed.token ++ [.rightParen, .colon, .number 0.0]) ∧
        ∃ inner, ps.map Placed.token = .leftParen :: inner ∧ Closes 1 inner := by
  obtain ⟨condition, consequent, parts, ⟨body, behind, paren, split⟩, rfl⟩ :=
    parts_of_desugar conditional accepted
  refine ⟨condition, consequent, parts, fun ps rs hps hrs clear => ⟨?_, ?_⟩⟩
  · -- The row is put together from its end, where each part starts behind those before it.
    obtain ⟨ps', front, hps'⟩ := lexes_symbolic hps clear 0
    let start := 0 + Text.byteLength (symbolic condition)
    obtain ⟨rs', middle, hrs'⟩ := (Token.tokenize_eq_ok_iff.mp hrs).shift (start + 4)
    obtain ⟨zs, last, hzs⟩ := lexes_otherwise (start + 4 + Text.byteLength consequent)
    obtain ⟨qs, between, hqs⟩ := lexes_question (middle.append ⟨rfl, rfl, by decide⟩ last)
    have apart : Token.Apart (" ? (".toList ++ (consequent ++ ") : 0".toList)) :=
      ⟨rfl, rfl, by simp⟩
    have whole := front.append apart between
    refine ⟨ps' ++ qs, Token.tokenize_eq_ok_iff.mpr whole, ?_⟩
    rw [List.map_append, hps', hqs, List.map_append, hrs', hzs, List.append_assoc,
      List.append_assoc]
    rfl
  · exact closes_condition paren split hps

/-- A condition with a word behind a digit, both quotes and two function calls. -/
theorem tokens_of_conditional_quoted :
    desugar "if (1and a:max > 2 or f(\"it's für) or\") and and(b, 'or')) gold:ps".toList =
        .ok "(1&& a:max > 2 || f(\"it's für) or\") && and(b, 'or')) ? (gold:ps) : 0".toList ∧
      (∃ ts,
        Token.tokenize
            "(1&& a:max > 2 || f(\"it's für) or\") && and(b, 'or')) ? (gold:ps) : 0".toList =
          .ok ts ∧
        ts.map Placed.token =
          [.leftParen, .number 1.0, .andAnd, .name "a:max", .gt, .number 2.0, .orOr, .name "f",
            .leftParen, .text "it's für) or", .rightParen, .andAnd, .name "and", .leftParen,
            .name "b", .comma, .text "or", .rightParen, .rightParen] ++
            [.question, .leftParen] ++ [.name "gold:ps"] ++
              [.rightParen, .colon, .number 0.0]) ∧
      Closes 1
        [.number 1.0, .name "and", .name "a:max", .gt, .number 2.0, .name "or", .name "f",
          .leftParen, .text "it's für) or", .rightParen, .name "and", .name "and", .leftParen,
          .name "b", .comma, .text "or", .rightParen, .rightParen] := by
  have accepted :
      desugar "if (1and a:max > 2 or f(\"it's für) or\") and and(b, 'or')) gold:ps".toList =
        .ok "(1&& a:max > 2 || f(\"it's für) or\") && and(b, 'or')) ? (gold:ps) : 0".toList := by
    decide +kernel
  obtain ⟨condition, consequent, parts, tokens⟩ :=
    tokens_of_conditional (by decide +kernel) accepted
  have split :
      parts? "if (1and a:max > 2 or f(\"it's für) or\") and and(b, 'or')) gold:ps".toList =
        some ("(1and a:max > 2 or f(\"it's für) or\") and and(b, 'or'))".toList,
          "gold:ps".toList) := by
    decide +kernel
  cases split.symm.trans parts
  obtain ⟨⟨ts, hts, same⟩, inner, front, closes⟩ := tokens
    [⟨.leftParen, 0⟩, ⟨.number 1.0, 1⟩, ⟨.name "and", 2⟩, ⟨.name "a:max", 6⟩, ⟨.gt, 12⟩,
      ⟨.number 2.0, 14⟩, ⟨.name "or", 16⟩, ⟨.name "f", 19⟩, ⟨.leftParen, 20⟩,
      ⟨.text "it's für) or", 21⟩, ⟨.rightParen, 36⟩, ⟨.name "and", 38⟩, ⟨.name "and", 42⟩,
      ⟨.leftParen, 45⟩, ⟨.name "b", 46⟩, ⟨.comma, 47⟩, ⟨.text "or", 49⟩, ⟨.rightParen, 53⟩,
      ⟨.rightParen, 54⟩]
    [⟨.name "gold:ps", 0⟩] (by decide +kernel) (by decide +kernel) (by decide +kernel)
  refine ⟨accepted, ⟨ts, hts, same.trans (by decide +kernel)⟩, ?_⟩
  cases front
  exact closes

/-- Whether the name at a byte of a text touches a colon. -/
def touchesColon (source : List Char) (offset : Nat) : Bool :=
  (atByte offset source).1.getLast? == some ':' ||
    ((atByte offset source).2.dropWhile Token.isNameRest).head? == some ':'

/-- In `a:1and` the name `and` touches no colon, and is a part of a longer word.  It is not written
as an operator. -/
theorem exists_word_without_operator :
    desugar "if (c ? a:1and b) 7".toList = .ok "(c ? a:1and b) ? (7) : 0".toList ∧
      parts? "if (c ? a:1and b) 7".toList = some ("(c ? a:1and b)".toList, "7".toList) ∧
      ∃ ps rs ts,
        Token.tokenize "(c ? a:1and b)".toList = .ok ps ∧
        Token.tokenize "7".toList = .ok rs ∧
        Token.tokenize "(c ? a:1and b) ? (7) : 0".toList = .ok ts ∧
        (∀ p ∈ ps, p.token = .name "and" ∨ p.token = .name "or" →
          touchesColon "(c ? a:1and b)".toList p.offset = false) ∧
        ts.map Placed.token ≠
          withOperators (ps.map Placed.token) ++ [.question, .leftParen] ++
            rs.map Placed.token ++ [.rightParen, .colon, .number 0.0] := by
  refine ⟨by decide +kernel, by decide +kernel,
    [⟨.leftParen, 0⟩, ⟨.name "c", 1⟩, ⟨.question, 3⟩, ⟨.name "a", 5⟩, ⟨.colon, 6⟩,
      ⟨.number 1.0, 7⟩, ⟨.name "and", 8⟩, ⟨.name "b", 12⟩, ⟨.rightParen, 13⟩],
    [⟨.number 7.0, 0⟩],
    [⟨.leftParen, 0⟩, ⟨.name "c", 1⟩, ⟨.question, 3⟩, ⟨.name "a", 5⟩, ⟨.colon, 6⟩,
      ⟨.number 1.0, 7⟩, ⟨.name "and", 8⟩, ⟨.name "b", 12⟩, ⟨.rightParen, 13⟩, ⟨.question, 15⟩,
      ⟨.leftParen, 17⟩, ⟨.number 7.0, 18⟩, ⟨.rightParen, 19⟩, ⟨.colon, 21⟩, ⟨.number 0.0, 23⟩],
    by decide +kernel, by decide +kernel, by decide +kernel, by decide +kernel, by decide +kernel⟩

end IncrementalGame.Formula
