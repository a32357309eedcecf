import IncrementalGame.Proofs.Formula.Conditionals

/-!
# Where a text may be cut

What is spelled out for a conditional formula is put together from parts, and its tokens are cut off
the whole.  This module goes back from the whole to the parts.

* `quoteBehind`: the quote that is open behind a text.  None is open behind a text that consists of
  tokens (`Lexes.quoteBehind`).
* `Lexes.split`: where no quote is open, a text may be cut in front of every character with which no
  token goes on (`Separate`).  Then its tokens are those of the two parts.
* `Lexes.passed`: a text that consists of tokens is passed over as a whole by the scanner for the
  end of the condition, if its parentheses come in pairs.
* `rewritten_append`: the words of a text are rewritten part by part, if the second part goes on
  with no word and does not make a call of the last one.
* `splitBalanced_rewritten`: a text that the scanner passes over as a whole is still such a text when
  its words are rewritten.
-/

namespace IncrementalGame.Formula

open Token (isNameStart isNumberPart isQuote isSpace Lexeme Lexes)

/-! ## Quotes -/

/-- The quote that is open behind a text. -/
def quoteBehind (quote : Option Char) (s : List Char) : Option Char := s.foldl quoteAfter quote

theorem quoteBehind_append (quote : Option Char) (s t : List Char) :
    quoteBehind quote (s ++ t) = quoteBehind (quoteBehind quote s) t := List.foldl_append

theorem quoteBehind_run {run : List Char} (parts : ∀ c ∈ run, isQuote c = false) :
    quoteBehind none run = none := by
  induction run with
  | nil => rfl
  | cons c run ih =>
    rw [List.forall_mem_cons] at parts
    rw [quoteBehind, List.foldl_cons, quoteAfter_of_not_isQuote parts.1]
    exact ih parts.2

/-- A quote is open until it comes again. -/
theorem quoteBehind_content {quote : Char} {content : List Char} (closes : quote ∉ content) :
    quoteBehind (some quote) content = some quote := by
  induction content with
  | nil => rfl
  | cons c content ih =>
    rw [List.mem_cons, not_or] at closes
    rw [quoteBehind, List.foldl_cons, quoteAfter, if_neg (Ne.symm closes.1)]
    exact ih closes.2

theorem Token.Lexeme.quoteBehind {t : Token} {spelling rest : List Char}
    (front : Lexeme t spelling rest) : quoteBehind none spelling = none := by
  cases front with
  | number nonempty parts =>
    exact quoteBehind_run fun c hc => (plain_of_isNumberPart (parts c hc)).2
  | @text quote content _ opens closes =>
    have opened : Formula.quoteBehind none [quote] = some quote := if_pos opens
    have closed : Formula.quoteBehind (some quote) [quote] = none := if_pos rfl
    rw [← List.cons_append, quoteBehind_append, ← List.singleton_append, quoteBehind_append, opened,
      quoteBehind_content closes, closed]
  | name starts parts ends longest =>
    have word := Token.isWordRest_of_mem_name starts parts longest
    exact quoteBehind_run fun c hc => (plain_of_forall word ⟨rfl, rfl⟩ ⟨rfl, rfl⟩ c hc).1
  | symbol listed => exact quoteBehind_run fun c hc => (plain_of_mem_symbols listed c hc).2

/-- No quote is open behind a text that consists of tokens. -/
theorem Token.Lexes.quoteBehind {offset : Nat} {s : List Char} {tokens : List Placed}
    (h : Lexes offset s tokens) : quoteBehind none s = none := by
  induction h with
  | nil => rfl
  | space separates _ ih =>
    rw [Formula.quoteBehind, List.foldl_cons,
      quoteAfter_of_not_isQuote (Token.plain_of_isSpace separates).2]
    exact ih
  | token front _ ih => rw [quoteBehind_append, front.quoteBehind, ih]

/-! ## Cutting a row of tokens -/

namespace Token

/-- A text in front of which a token may be cut off, unless a quote is open there. -/
structure Separate (s : List Char) : Prop extends Apart s where
  /-- It goes on with no conjunction. -/
  conjunction : s.head? ≠ some '&'
  /-- It goes on with no disjunction. -/
  disjunction : s.head? ≠ some '|'

/-- A token that stands in front of a text stands as well in front of the first part of it. -/
theorem Lexeme.restrict {t : Token} {spelling rest tail : List Char}
    (front : Lexeme t spelling (rest ++ tail)) (apart : Apart tail) : Lexeme t spelling rest := by
  have shorter {p : Char → Bool} (h : (rest ++ tail).head?.any p = false) :
      rest.head?.any p = false := by
    cases rest with
    | nil => rfl
    | cons c rest => exact h
  cases front with
  | number nonempty parts ends spelled => exact .number nonempty parts (shorter ends) spelled
  | text opens closes => exact .text opens closes
  | name starts parts ends longest =>
    exact .name_of_takeWhile starts parts ends longest (Text.takeWhile_append_eq apart.word).symm
  | symbol listed ends =>
    refine .symbol listed fun extended => ?_
    cases rest with
    | nil => nofun
    | cons c rest => exact ends extended

/-- What an operator goes on with. -/
theorem mem_tail_of_mem_symbols {t : Token} {spelling : List Char} (h : (t, spelling) ∈ symbols) :
    ∀ c ∈ spelling.tail, c = '=' ∨ c = '&' ∨ c = '|' := by
  have all : ∀ entry ∈ symbols,
      entry.2.tail.all (fun c => c == '=' || c == '&' || c == '|') = true := by decide
  simpa [or_assoc] using all _ h

/-- A token does not go on with a character in front of which it may be cut off. -/
theorem Lexeme.not_cut {t : Token} {c : Char} {front behind rest tail : List Char}
    (h : Lexeme t (front ++ c :: behind) rest) (nonempty : front ≠ [])
    (outside : Formula.quoteBehind none front = none) : ¬ Separate (c :: tail) := by
  intro separate
  obtain ⟨d, front, rfl⟩ := List.exists_cons_of_ne_nil nonempty
  have within : c ∈ d :: front ++ c :: behind := List.mem_append_right _ List.mem_cons_self
  generalize whole : d :: front ++ c :: behind = spelling at h within
  cases h with
  | number _ parts =>
    have part := parts c within
    rw [show isNumberPart c = false from separate.number] at part
    cases part
  | @text quote content _ opens closes =>
    -- The front lies before the closing quote, so the opening one is open behind it.
    rw [List.cons_append, List.cons.injEq] at whole
    obtain ⟨rfl, whole⟩ := whole
    have shorter : front.length ≤ content.length := by
      have length := congrArg List.length whole
      simp only [List.length_append, List.length_cons, List.length_nil] at length
      omega
    have before : front <+: content := List.prefix_of_prefix_length_le
      (whole ▸ List.prefix_append front _) (List.prefix_append content _) shorter
    have opened : Formula.quoteBehind none (d :: front) = some d := by
      rw [Formula.quoteBehind, List.foldl_cons, quoteAfter, if_pos opens]
      exact quoteBehind_content fun inside => closes (before.subset inside)
    rw [opened] at outside
    cases outside
  | name starts parts _ longest =>
    have part := isWordRest_of_mem_name starts parts longest c within
    rw [show isWordRest c = false from separate.word] at part
    cases part
  | symbol listed =>
    subst whole
    rcases mem_tail_of_mem_symbols listed c (List.mem_append_right _ List.mem_cons_self) with
      rfl | rfl | rfl
    · exact separate.equals rfl
    · exact separate.conjunction rfl
    · exact separate.disjunction rfl

/-- **A text may be cut** in front of every character with which no token goes on. -/
theorem Lexes.split {offset : Nat} {s tail : List Char} {tokens : List Placed}
    (h : Lexes offset (s ++ tail) tokens) (outside : Formula.quoteBehind none s = none)
    (separate : Separate tail) :
    ∃ front behind, tokens = front ++ behind ∧ Lexes offset s front ∧
      Lexes (offset + Text.byteLength s) tail behind := by
  generalize whole : s ++ tail = text at h
  have uncut {offset : Nat} {tokens : List Placed} (h : Lexes offset tail tokens) :
      ∃ front behind, tokens = front ++ behind ∧ Lexes offset [] front ∧
        Lexes (offset + Text.byteLength []) tail behind := ⟨[], tokens, rfl, .nil, h⟩
  induction h generalizing s with
  | nil =>
    obtain ⟨rfl, rfl⟩ := List.append_eq_nil_iff.mp whole
    exact uncut .nil
  | @space offset c rest tokens separates further ih =>
    cases s with
    | nil =>
      rw [List.nil_append] at whole
      exact uncut (whole ▸ .space separates further)
    | cons d s =>
      obtain ⟨rfl, rfl⟩ := List.cons_eq_cons.mp whole
      rw [Formula.quoteBehind, List.foldl_cons,
        quoteAfter_of_not_isQuote (plain_of_isSpace separates).2] at outside
      obtain ⟨front, behind, rfl, first, second⟩ := ih outside rfl
      refine ⟨front, behind, rfl, .space separates first, ?_⟩
      rwa [Text.byteLength, utf8Size_of_isSpace separates, ← Nat.add_assoc]
  | @token offset t spelling rest tokens front further ih =>
    rcases List.append_eq_append_iff.mp whole with ⟨cut, rfl, rfl⟩ | ⟨s, rfl, rfl⟩
    · by_cases empty : s = []
      · subst empty
        exact uncut (.token front further)
      · -- The cut would be inside the first token.
        cases cut with
        | nil =>
          rw [List.append_nil] at front further
          have alone : Lexeme t s [] := Lexeme.restrict front separate.toApart
          have whole : Lexes offset (s ++ []) [⟨t, offset⟩] := .token alone .nil
          rw [List.append_nil] at whole
          exact ⟨[⟨t, offset⟩], tokens, rfl, whole, further⟩
        | cons c cut => exact absurd separate (front.not_cut empty outside)
    · rw [quoteBehind_append, front.quoteBehind] at outside
      obtain ⟨first, behind, rfl, hfirst, hbehind⟩ := ih outside rfl
      have whole := Lexes.token (front.restrict separate.toApart) hfirst
      refine ⟨⟨t, offset⟩ :: first, behind, rfl, whole, ?_⟩
      rwa [Text.byteLength_append, ← Nat.add_assoc]

/-- A text has one row of tokens, wherever it starts. -/
theorem Lexes.map_token_eq {offset offset' : Nat} {s : List Char} {tokens tokens' : List Placed}
    (h : Lexes offset s tokens) (h' : Lexes offset' s tokens') :
    tokens.map Placed.token = tokens'.map Placed.token := by
  obtain ⟨shifted, hshifted, same⟩ := h.shift offset'
  have unique := (hshifted.scan_eq le_rfl).symm.trans (h'.scan_eq le_rfl)
  rw [← same, Except.ok.inj unique]

theorem Lexes.of_space {offset : Nat} {c : Char} {s : List Char} {tokens : List Placed}
    (h : Lexes offset (c :: s) tokens) (separates : isSpace c = true) :
    Lexes (offset + 1) s tokens := by
  have scanned := h.scan_eq (Nat.le_refl (s.length + 1))
  rw [scan, if_pos separates] at scanned
  exact lexes_of_scan le_rfl scanned

end Token

/-! ## Passing over a text -/

/-- What a token in front has opened or closed. -/
theorem Closes.of_cons {t : Token} {depth : Nat} {tokens : List Token}
    (h : Closes depth (t :: tokens)) (nonempty : tokens ≠ []) :
    ∃ depth', 0 < depth' ∧ depth + [t].count .leftParen = depth' + [t].count .rightParen ∧
      Closes depth' tokens := by
  have step (n : Nat) (hn : n < tokens.length) :
      [t].count .rightParen + (tokens.take n).count .rightParen <
        [t].count .leftParen + (tokens.take n).count .leftParen + depth := by
    have inside := h.inside (n + 1) (Nat.succ_lt_succ hn)
    rwa [List.take_succ_cons, ← List.singleton_append, List.count_append,
      List.count_append] at inside
  have first := step 0 (List.length_pos_iff.mpr nonempty)
  rw [List.take_zero, List.count_nil, List.count_nil] at first
  obtain ⟨depth', balance⟩ : ∃ depth',
      depth + [t].count .leftParen = depth' + [t].count .rightParen :=
    ⟨depth + [t].count .leftParen - [t].count .rightParen, by omega⟩
  refine ⟨depth', by omega, balance, fun n hn => ?_, ?_⟩
  · have := step n hn
    omega
  · have outside := h.outside
    rw [← List.singleton_append, List.count_append, List.count_append] at outside
    omega

/-- **A text that consists of tokens is passed over** by the scanner for the end of the condition:
behind it one parenthesis is open, if one more would close the last. -/
theorem Token.Lexes.passed {offset depth : Nat} {s : List Char} {tokens : List Placed}
    (h : Lexes offset s tokens)
    (closes : Closes (depth + 1) (tokens.map Placed.token ++ [.rightParen])) (tail : List Char) :
    splitBalanced none (depth + 1) (s ++ tail) = putInFront s (splitBalanced none 1 tail) := by
  induction h generalizing depth with
  | nil =>
    obtain rfl : depth = 0 := by
      have outside : 1 = 0 + (depth + 1) := closes.outside
      omega
    rw [List.nil_append, putInFront_nil]
  | @space _ c rest _ separates _ ih =>
    have plain : ∀ d ∈ [c], isQuote d = false ∧ d ≠ '(' ∧ d ≠ ')' :=
      plain_of_forall (List.forall_mem_singleton.mpr separates) ⟨rfl, rfl⟩ ⟨rfl, rfl⟩
    rw [← List.singleton_append, List.append_assoc, splitBalanced_append_run plain, ih closes,
      ← putInFront_append]
  | @token _ t spelling rest tokens front _ ih =>
    rw [List.map_cons, List.cons_append] at closes
    obtain ⟨depth', positive, balance, closes⟩ := closes.of_cons (by simp)
    obtain ⟨depth', rfl⟩ := Nat.exists_eq_add_of_le' positive
    rw [List.append_assoc, putInFront_append, ← ih closes]
    by_cases left : t = .leftParen
    · subst left
      obtain rfl := front.spelling_leftParen
      have deeper : depth + 1 + 1 = depth' + 1 := balance
      rw [List.singleton_append, splitBalanced_open, deeper]
    by_cases right : t = .rightParen
    · subst right
      obtain rfl := front.spelling_rightParen
      have shallower : depth + 1 = depth' + 1 + 1 := balance
      rw [List.singleton_append, shallower, splitBalanced_close]
    · rw [List.count_singleton, List.count_singleton, beq_eq_false_iff_ne.mpr left,
        beq_eq_false_iff_ne.mpr right] at balance
      have same : depth + 1 = depth' + 1 := balance
      rw [front.splitBalanced_append left right, same]

/-! ### What was split off -/

/-- A split ends with a parenthesis that is outside quotes. -/
theorem quoteBehind_of_splitBalanced {quote : Option Char} {depth : Nat}
    {s taken behind : List Char} (h : splitBalanced quote depth s = some (taken, behind)) :
    ∃ front, taken = front ++ [')'] ∧ quoteBehind quote front = none := by
  induction s generalizing quote depth taken with
  | nil => cases h
  | cons c s ih =>
    rcases splitBalanced_cases h with ⟨rfl, -, -, rfl, -⟩ | ⟨depth', rest, rfl, inner, -⟩
    · exact ⟨[], rfl, rfl⟩
    · obtain ⟨front, rfl, outside⟩ := ih inner
      exact ⟨c :: front, rfl, outside⟩

/-- What was split off is split off by itself. -/
theorem splitBalanced_taken {quote : Option Char} {depth : Nat} {s taken behind : List Char}
    (h : splitBalanced quote depth s = some (taken, behind)) :
    splitBalanced quote depth taken = some (taken, []) := by
  induction s generalizing quote depth taken with
  | nil => cases h
  | cons c s ih =>
    rcases splitBalanced_cases h with ⟨rfl, rfl, -, rfl, -⟩ | ⟨depth', rest, rfl, inner, step⟩
    · exact splitBalanced_end []
    · rw [step, ih inner]
      rfl

/-! ## Rewriting words -/

/-- Induction along the rewriting: a word at once, and any other character by itself. -/
theorem rewriting_induction {motive : Option Char → List Char → Prop}
    (nil : ∀ quote, motive quote [])
    (word : ∀ c s, isNameStart c = true → motive none (s.dropWhile isWordRest) →
      motive none (c :: s))
    (other : ∀ quote c s, (quote.isNone && isNameStart c) = false → motive (quoteAfter quote c) s →
      motive quote (c :: s)) (quote : Option Char) (s : List Char) : motive quote s := by
  induction length : s.length using Nat.strong_induction_on generalizing quote s with
  | _ n ih =>
    subst length
    cases s with
    | nil => exact nil quote
    | cons c s =>
      cases starts : quote.isNone && isNameStart c with
      | false => exact other quote c s starts (ih _ (Nat.lt_succ_self _) _ _ rfl)
      | true =>
        obtain ⟨outside, letter⟩ := (Bool.and_eq_true _ _).mp starts
        obtain rfl := Option.isNone_iff_eq_none.mp outside
        have shorter := List.length_dropWhile_le isWordRest s
        exact word c s letter (ih _ (Nat.lt_succ_of_le shorter) _ _ rfl)

theorem plain_word {c : Char} (starts : isNameStart c = true) (s : List Char) :
    ∀ d ∈ c :: s.takeWhile isWordRest, isQuote d = false ∧ d ≠ '(' ∧ d ≠ ')' := by
  have letter := Token.isWordRest_of_isNameRest (Token.isNameRest_of_isNameStart starts)
  have word : ∀ d ∈ c :: s.takeWhile isWordRest, isWordRest d = true :=
    List.forall_mem_cons.mpr ⟨letter, fun d => List.mem_takeWhile_imp⟩
  exact plain_of_forall word ⟨rfl, rfl⟩ ⟨rfl, rfl⟩

theorem plain_wordOperator {word : List Char}
    (h : ∀ d ∈ word, isQuote d = false ∧ d ≠ '(' ∧ d ≠ ')') (rest : List Char) :
    ∀ d ∈ wordOperator word rest, isQuote d = false ∧ d ≠ '(' ∧ d ≠ ')' := by
  rw [wordOperator]
  split
  · exact h
  split
  · simp [isQuote]
  split
  · simp [isQuote]
  · exact h

theorem word_append (c : Char) (s : List Char) :
    c :: s = c :: s.takeWhile isWordRest ++ s.dropWhile isWordRest := by
  rw [List.cons_append, List.takeWhile_append_dropWhile]

/-- No quote is opened by a word. -/
theorem quoteBehind_word {c : Char} (starts : isNameStart c = true) (s : List Char) :
    quoteBehind none (c :: s) = quoteBehind none (s.dropWhile isWordRest) := by
  conv_lhs => rw [word_append, quoteBehind_append,
    quoteBehind_run fun d hd => (plain_word starts s d hd).1]

theorem head?_trimStart_append {s t : List Char} (h : (Text.trimStart t).head? ≠ some '(') :
    (Text.trimStart (s ++ t)).head? = some '(' ↔ (Text.trimStart s).head? = some '(' := by
  induction s with
  | nil => exact iff_of_false h (by nofun)
  | cons c s ih =>
    rw [Text.trimStart, Text.trimStart, List.cons_append, List.dropWhile_cons, List.dropWhile_cons]
    split
    · exact ih
    · exact Iff.rfl

/-- **The words of a text are rewritten part by part**, if the second part goes on with no word and
does not make a call of the last one. -/
theorem rewritten_append {t : List Char} (ends : t.head?.any isWordRest = false)
    (uncalled : (Text.trimStart t).head? ≠ some '(') (quote : Option Char) (s : List Char) :
    rewritten quote (s ++ t) = rewritten quote s ++ rewritten (quoteBehind quote s) t := by
  induction quote, s using rewriting_induction with
  | nil quote => rfl
  | word c s starts ih =>
    have operator (word : List Char) : wordOperator word (s.dropWhile isWordRest ++ t) =
        wordOperator word (s.dropWhile isWordRest) := by
      simp only [wordOperator, head?_trimStart_append uncalled]
    have behind : (s ++ t).dropWhile isWordRest = s.dropWhile isWordRest ++ t := by
      conv_lhs => rw [← List.takeWhile_append_dropWhile (p := isWordRest) (l := s),
        List.append_assoc]
      exact Text.dropWhile_run (fun c => List.mem_takeWhile_imp)
        (Text.head?_any_append (Text.head?_any_dropWhile isWordRest s) ends)
    rw [List.cons_append, rewritten_word starts, rewritten_word starts,
      Text.takeWhile_append_eq ends, behind, operator, ih, quoteBehind_word starts,
      List.append_assoc]
  | other quote c s kept ih =>
    rw [List.cons_append, rewritten_cons kept, rewritten_cons kept, ih, List.cons_append]
    rfl

/-- Rewriting the words of a text leaves its parentheses alone. -/
theorem splitBalanced_rewritten {quote : Option Char} {depth : Nat} {s : List Char}
    (h : splitBalanced quote depth s = some (s, [])) :
    splitBalanced quote depth (rewritten quote s) = some (rewritten quote s, []) := by
  induction quote, s using rewriting_induction generalizing depth with
  | nil quote => exact h
  | word c s starts ih =>
    have plain := plain_wordOperator (plain_word starts s) (s.dropWhile isWordRest)
    rw [word_append, splitBalanced_append_run (plain_word starts s)] at h
    obtain ⟨rest, inner, same⟩ := putInFront_eq_some_iff.mp h
    obtain rfl := List.append_cancel_left same
    rw [rewritten_word starts, splitBalanced_append_run plain, ih inner]
    rfl
  | other quote c s kept ih =>
    rw [rewritten_cons kept]
    rcases splitBalanced_cases h with ⟨rfl, rfl, rfl, same, rfl⟩ | ⟨depth', rest, same, inner, step⟩
    · rfl
    · obtain ⟨-, rfl⟩ := List.cons_eq_cons.mp same
      rw [step, ih inner]
      rfl

end IncrementalGame.Formula
