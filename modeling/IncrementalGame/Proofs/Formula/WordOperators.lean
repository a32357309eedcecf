import IncrementalGame.Proofs.Formula.Consequents

/-!
# Words between operands

In a condition the words `and` and `or` stand for operators.  Whether they do is decided by the next
character behind them that is no blank: at a parenthesis the word is taken for the name of a
function, whatever stands in front of it.

So between two operands a word means its operator just if the second one starts with no parenthesis
of its own.  Then both spellings are spelled out as the same text (`parse_word_eq_symbol`).  If it
does, the word is left as a name directly behind the first operand, which no tree has, and the
formula is refused (`parse_word_of_paren`).
-/

namespace IncrementalGame.Formula

open Token (Lexes)

/-- An operator that has a word and a symbol. -/
inductive Connective where
  | and
  | or
  deriving DecidableEq

namespace Connective

/-- How a condition may spell it. -/
def word : Connective → List Char
  | and => "and".toList
  | or => "or".toList

/-- How every formula may spell it. -/
def symbol : Connective → List Char
  | and => "&&".toList
  | or => "||".toList

end Connective

/-- A conditional formula whose condition is two operands with something between them. -/
def joined (first joint second consequent : List Char) : String :=
  String.ofList (ifWord ++
    '(' :: (first ++ ' ' :: (joint ++ ' ' :: (second ++ ')' :: ' ' :: consequent))))

/-- Whether a text is an operand that binds tighter than the connectives, in which neither word
stands outside quotes. -/
def Operand (s : List Char) : Prop :=
  ∃ tokens depth e, Token.tokenize s = .ok tokens ∧
    Spells depth 3 e (tokens.map Placed.token) ∧
    ∀ t ∈ tokens.map Placed.token, t ≠ .name "and" ∧ t ≠ .name "or"

/-! ## Blanks -/

theorem trimEnd_append {c : Char} (visible : Text.isBlank c = false) (s t : List Char) :
    Text.trimEnd (s ++ c :: t) = s ++ c :: Text.trimEnd t := by
  have stays : (c :: s.reverse).dropWhile Text.isBlank = c :: s.reverse :=
    List.dropWhile_cons_of_neg (Bool.not_eq_true _ ▸ visible)
  rw [Text.trimEnd, Text.trimEnd, List.reverse_append, List.reverse_cons, List.append_assoc,
    List.singleton_append, List.dropWhile_append, stays]
  split
  case isTrue empty => simp [List.isEmpty_iff.mp empty]
  case isFalse => simp

theorem stripStart_append (start s : List Char) :
    Text.stripStart start (start ++ s) = some s := by
  rw [Text.stripStart, if_pos (List.isPrefixOf_iff_prefix.mpr (List.prefix_append start s)),
    List.drop_left]

theorem head?_trimStart_of_some {s : List Char} {c : Char}
    (h : (Text.trimStart s).head? = some c) (t : List Char) :
    (Text.trimStart (s ++ t)).head? = some c := by
  induction s with
  | nil => cases h
  | cons d s ih =>
    rw [Text.trimStart, List.dropWhile_cons] at h
    rw [Text.trimStart, List.cons_append, List.dropWhile_cons]
    split at h
    case isTrue blank =>
      rw [if_pos blank]
      exact ih h
    case isFalse visible =>
      rw [if_neg visible]
      exact h

theorem exists_head?_trimStart {s : List Char} {c : Char} (h : c ∈ s)
    (visible : Text.isBlank c = false) : ∃ d, (Text.trimStart s).head? = some d := by
  cases trimmed : Text.trimStart s with
  | nil =>
    have blank := List.dropWhile_eq_nil_iff.mp trimmed c h
    rw [visible] at blank
    cases blank
  | cons d s => exact ⟨d, rfl⟩

/-- What is split off starts like the whole text. -/
theorem head?_trimStart_taken {depth : Nat} {s taken behind : List Char}
    (h : splitBalanced none depth s = some (taken, behind)) :
    (Text.trimStart taken).head? = (Text.trimStart s).head? := by
  obtain ⟨front, ends, -⟩ := quoteBehind_of_splitBalanced h
  have close : ')' ∈ taken := ends ▸ List.mem_append_right front List.mem_cons_self
  obtain ⟨d, hd⟩ := exists_head?_trimStart close rfl
  rw [hd, ← (splitBalanced_eq h).2, head?_trimStart_of_some hd behind]

/-! ## Spelling out -/

/-- What is pasted behind a condition. -/
def pasted (rest : List Char) : List Char :=
  " ? (".toList ++ ((if Text.trim rest = [] then ['1'] else Text.trim rest) ++ ") : 0".toList)

theorem desugarBody_paren (offset : Nat) (s : List Char) :
    desugarBody offset ('(' :: s) =
      match splitBalanced none 0 ('(' :: s) with
      | none => .error (offset, .unbalancedCondition)
      | some (condition, rest) => .ok (symbolic condition ++ pasted rest) := by
  rw [desugarBody, if_neg (by simp)]
  cases splitBalanced none 0 ('(' :: s) with
  | none => rfl
  | some split => simp only [pasted, List.append_assoc]

section

variable {first joint second : List Char}

/-- What is spelled out are the two operands with what is between them, up to the parenthesis. -/
theorem desugar_joined (first joint second consequent : List Char) :
    desugar (joined first joint second consequent).toList =
      desugarBody 3 ('(' :: (first ++ ' ' :: (joint ++ ' ' ::
        (second ++ ')' :: Text.trimEnd (' ' :: consequent))))) := by
  have trimmed : Text.trim (joined first joint second consequent).toList =
      ifWord ++ '(' :: (first ++ ' ' :: (joint ++ ' ' ::
        (second ++ ')' :: Text.trimEnd (' ' :: consequent)))) := by
    have close : Text.isBlank ')' = false := rfl
    have kept := trimEnd_append close
      (ifWord ++ '(' :: (first ++ ' ' :: (joint ++ ' ' :: second))) (' ' :: consequent)
    simp only [List.append_assoc, List.cons_append] at kept
    rw [joined, String.toList_ofList]
    exact kept
  rw [desugar, trimmed]
  simp only [stripStart_append]
  rw [Text.byteLength_append]
  exact congrArg (desugarBody · _) (Nat.add_sub_cancel ..)

variable {offset : Nat} {tokens : List Placed}

/-- An operand is passed over, and what is between it and the next one. -/
theorem splitBalanced_joined (hfirst : Lexes offset first tokens)
    (balanced : Balanced (tokens.map Placed.token))
    (plain : ∀ c ∈ joint, Token.isQuote c = false ∧ c ≠ '(' ∧ c ≠ ')') (s : List Char) :
    splitBalanced none 0 ('(' :: (first ++ ' ' :: (joint ++ ' ' :: s))) =
      putInFront ('(' :: (first ++ ' ' :: (joint ++ [' ']))) (splitBalanced none 1 s) := by
  have between : ∀ c ∈ ' ' :: (joint ++ [' ']), Token.isQuote c = false ∧ c ≠ '(' ∧ c ≠ ')' := by
    rw [List.forall_mem_cons, List.forall_mem_append]
    exact ⟨by decide, plain, List.forall_mem_singleton.mpr (by decide)⟩
  have run : splitBalanced none 1 (' ' :: (joint ++ [' ']) ++ s) =
      putInFront (' ' :: (joint ++ [' '])) (splitBalanced none 1 s) :=
    splitBalanced_append_run between s
  rw [List.cons_append, List.append_assoc, List.singleton_append] at run
  rw [splitBalanced_open, hfirst.passed balanced.closes, run, ← putInFront_append,
    ← putInFront_append]
  rfl

/-- **What is spelled out** hangs on where the condition ends behind the second operand. -/
theorem desugar_operands (hfirst : Lexes offset first tokens)
    (balanced : Balanced (tokens.map Placed.token))
    (plain : ∀ c ∈ joint, Token.isQuote c = false ∧ c ≠ '(' ∧ c ≠ ')')
    (second consequent : List Char) :
    desugar (joined first joint second consequent).toList =
      match splitBalanced none 1 (second ++ ')' :: Text.trimEnd (' ' :: consequent)) with
      | none => .error (3, .unbalancedCondition)
      | some (taken, rest) =>
        .ok (symbolic ('(' :: (first ++ ' ' :: (joint ++ ' ' :: taken))) ++ pasted rest) := by
  rw [desugar_joined, desugarBody_paren, splitBalanced_joined hfirst balanced plain]
  cases splitBalanced none 1 (second ++ ')' :: Text.trimEnd (' ' :: consequent)) with
  | none => rfl
  | some split =>
    simp only [putInFront, Option.map_some, List.cons_append, List.append_assoc, List.nil_append]

/-- The words behind the first operand are rewritten by themselves. -/
theorem symbolic_joined (hfirst : Lexes offset first tokens) {s : List Char}
    (uncalled : (Text.trimStart (' ' :: s)).head? ≠ some '(') :
    symbolic ('(' :: (first ++ ' ' :: s)) = symbolic ('(' :: first) ++ ' ' :: rewritten none s := by
  have outside : quoteBehind none ('(' :: first) = none := hfirst.quoteBehind
  have parts := rewritten_append rfl uncalled none ('(' :: first)
  rw [outside, rewritten_cons rfl] at parts
  exact parts

end

namespace Connective

variable (op : Connective)

theorem plain_word : ∀ c ∈ op.word, Token.isQuote c = false ∧ c ≠ '(' ∧ c ≠ ')' := by
  cases op <;> simp [word, Token.isQuote]

theorem plain_symbol : ∀ c ∈ op.symbol, Token.isQuote c = false ∧ c ≠ '(' ∧ c ≠ ')' := by
  cases op <;> simp [symbol, Token.isQuote]

theorem uncalled_word (s : List Char) :
    (Text.trimStart (' ' :: (op.word ++ s))).head? ≠ some '(' := by
  cases op <;> nofun

theorem uncalled_symbol (s : List Char) :
    (Text.trimStart (' ' :: (op.symbol ++ s))).head? ≠ some '(' := by
  cases op <;> nofun

theorem rewritten_symbol (s : List Char) :
    rewritten none (op.symbol ++ ' ' :: s) = op.symbol ++ ' ' :: rewritten none s := by
  cases op <;> exact (rewritten_cons rfl _).trans (congrArg _ ((rewritten_cons rfl _).trans
    (congrArg _ (rewritten_cons rfl _))))

/-- What a word becomes is decided by the next character that is no blank. -/
theorem rewritten_word (s : List Char) :
    rewritten none (op.word ++ ' ' :: s) =
      (if (Text.trimStart s).head? = some '(' then op.word else op.symbol) ++
        ' ' :: rewritten none s := by
  have blank : rewritten none (' ' :: s) = ' ' :: rewritten none s := rewritten_cons rfl s
  rw [← blank]
  cases op <;> exact Formula.rewritten_word rfl _

end Connective

/-! ## An operand without parenthesis -/

/-- **A word means its operator** in front of an operand that starts with no parenthesis: both
spellings are spelled out alike, and so they are the same formula or refused alike. -/
theorem parse_word_eq_symbol (op : Connective) {first second : List Char} (hfirst : Operand first)
    (h : (Text.trimStart second).head? ≠ some '(') (consequent : List Char) :
    parse (joined first op.word second consequent) =
      parse (joined first op.symbol second consequent) := by
  obtain ⟨tokens, depth, e, tokenized, spelled, -⟩ := hfirst
  have lexes := Token.tokenize_eq_ok_iff.mp tokenized
  suffices desugared : desugar (joined first op.word second consequent).toList =
      desugar (joined first op.symbol second consequent).toList by
    rw [parse, parse, desugared]
  rw [desugar_operands lexes spelled.balanced op.plain_word,
    desugar_operands lexes spelled.balanced op.plain_symbol]
  cases split : splitBalanced none 1 (second ++ ')' :: Text.trimEnd (' ' :: consequent)) with
  | none => rfl
  | some parts =>
    obtain ⟨taken, rest⟩ := parts
    have uncalled : (Text.trimStart taken).head? ≠ some '(' := by
      have close : (Text.trimStart (')' :: Text.trimEnd (' ' :: consequent))).head? ≠ some '(' :=
        show some ')' ≠ some '(' by decide
      rw [head?_trimStart_taken split]
      exact mt (head?_trimStart_append close).mp h
    simp only [symbolic_joined lexes (op.uncalled_word _),
      symbolic_joined lexes (op.uncalled_symbol _), op.rewritten_word, op.rewritten_symbol,
      if_neg uncalled]

/-! ## An operand with a parenthesis -/

theorem withOperators_eq_self {ts : List Token}
    (h : ∀ t ∈ ts, t ≠ .name "and" ∧ t ≠ .name "or") : withOperators ts = ts := by
  induction ts with
  | nil => rfl
  | cons t ts ih =>
    rw [List.forall_mem_cons] at h
    rw [withOperators, ih h.2, asOperator_of_ne h.1.1 h.1.2, ite_self]

/-- The tokens of the first operand are left alone. -/
theorem lexes_first {first : List Char} {tokens : List Placed}
    (hfirst : Token.tokenize first = .ok tokens)
    (wordless : ∀ t ∈ tokens.map Placed.token, t ≠ .name "and" ∧ t ≠ .name "or") :
    ∃ front, Lexes 0 (symbolic ('(' :: first)) front ∧
      front.map Placed.token = .leftParen :: tokens.map Placed.token := by
  obtain ⟨shifted, hshifted, same⟩ := (Token.tokenize_eq_ok_iff.mp hfirst).shift 1
  have opened : Lexes 0 (['('] ++ first) (⟨.leftParen, 0⟩ :: shifted) :=
    .token (.symbol (by decide) (absurd · (by decide))) hshifted
  have wordless' : ∀ t ∈ Token.leftParen :: tokens.map Placed.token,
      t ≠ .name "and" ∧ t ≠ .name "or" := List.forall_mem_cons.mpr ⟨by simp, wordless⟩
  have clear : ∀ p ∈ (⟨.leftParen, 0⟩ :: shifted : List Placed),
      p.token = .name "and" ∨ p.token = .name "or" →
        runsOn ('(' :: first) p.offset = false := by
    intro p hp word
    have other := wordless' p.token (by
      rw [← same]
      exact List.mem_map_of_mem (f := Placed.token) hp)
    exact absurd word (not_or.mpr other)
  obtain ⟨front, hfront, hmap⟩ :=
    lexes_symbolic (Token.tokenize_eq_ok_iff.mpr opened) clear 0
  refine ⟨front, hfront, ?_⟩
  rw [hmap, List.map_cons, same, withOperators_eq_self wordless']

/-- A word that is left in a text is a name. -/
theorem Connective.lexes_word (op : Connective) :
    ∃ f offset, Lexes 0 op.word [⟨.name f, offset⟩] := by
  cases op with
  | and => exact ⟨"and", 0, Token.tokenize_eq_ok_iff.mp (by decide)⟩
  | or => exact ⟨"or", 0, Token.tokenize_eq_ok_iff.mp (by decide)⟩

/-- A name directly behind an operand is in no formula. -/
theorem not_parseText_of_word (op : Connective) {first rest : List Char} (hfirst : Operand first)
    (e : Expr) :
    parseText (symbolic ('(' :: first) ++ ' ' :: (op.word ++ ' ' :: rest)) ≠ .ok e := by
  intro parsed
  obtain ⟨tokens, depth, _, tokenized, spelled, wordless⟩ := hfirst
  obtain ⟨all, lexes, -, tree⟩ := parseText_eq_ok_iff.mp parsed
  obtain ⟨front, hfront, hmap⟩ := lexes_first tokenized wordless
  obtain ⟨front', others, rfl, hfront', hothers⟩ :=
    lexes.split hfront.quoteBehind ⟨⟨rfl, rfl, by simp⟩, by simp, by simp⟩
  have outside : quoteBehind none op.word = none :=
    quoteBehind_run fun c hc => (op.plain_word c hc).1
  obtain ⟨word, behind, rfl, hword, -⟩ :=
    (hothers.of_space rfl).split outside ⟨⟨rfl, rfl, by simp⟩, by simp, by simp⟩
  obtain ⟨f, offset, hname⟩ := op.lexes_word
  have neighbours := tree.isChain
  rw [List.map_append, List.map_append, hfront'.map_token_eq hfront, hmap,
    hword.map_token_eq hname, ← List.singleton_append] at neighbours
  -- The last token of the operand is followed by the name.
  obtain ⟨t, ht, ends⟩ := spelled.endsTree.append [.leftParen]
  have follows := (List.isChain_append.mp neighbours).2.2 t ht (.name f) rfl ends
  cases follows

/-- **A word in front of a parenthesis** is left as it is, and the formula is refused. -/
theorem parse_word_of_paren (op : Connective) {first second : List Char} (hfirst : Operand first)
    (h : (Text.trimStart second).head? = some '(') (consequent : List Char) (e : Expr) :
    parse (joined first op.word second consequent) ≠ .ok e := by
  intro accepted
  obtain ⟨text, desugared, parsed⟩ := parse_eq_ok_iff.mp accepted
  obtain ⟨tokens, depth, e', tokenized, spelled, wordless⟩ := id hfirst
  have lexes := Token.tokenize_eq_ok_iff.mp tokenized
  rw [desugar_operands lexes spelled.balanced op.plain_word] at desugared
  split at desugared
  case h_1 => cases desugared
  case h_2 taken rest split =>
    have called : (Text.trimStart taken).head? = some '(' := by
      rw [head?_trimStart_taken split]
      exact head?_trimStart_of_some h _
    rw [symbolic_joined lexes (op.uncalled_word _), op.rewritten_word, if_pos called] at desugared
    obtain rfl := Except.ok.inj desugared
    rw [List.append_assoc, List.cons_append, List.append_assoc, List.cons_append] at parsed
    exact not_parseText_of_word op hfirst e parsed

/-! ## Both spellings -/

/-- **A word behind an operand means its operator just where no parenthesis follows.**  There both
spellings are one formula, or are refused alike, whatever the second operand and the consequent are;
and in front of a parenthesis the spelling with the word is always refused. -/
theorem parse_joined (op : Connective) {first : List Char} (hfirst : Operand first)
    (second consequent : List Char) :
    ((Text.trimStart second).head? ≠ some '(' →
        parse (joined first op.word second consequent) =
          parse (joined first op.symbol second consequent)) ∧
      ((Text.trimStart second).head? = some '(' →
        ∃ error, parse (joined first op.word second consequent) = .error error) := by
  refine ⟨fun h => parse_word_eq_symbol op hfirst h consequent, fun h => ?_⟩
  cases parsed : parse (joined first op.word second consequent) with
  | error error => exact ⟨error, rfl⟩
  | ok e => exact absurd parsed (parse_word_of_paren op hfirst h consequent e)

/-- A tree that binds tighter than the connectives is an operand as it is written. -/
theorem operand_of_render {s : List Char} (tokens : List Placed) (e : Expr)
    (tokenized : Token.tokenize s = .ok tokens) (rendered : tokens.map Placed.token = e.render)
    (tight : 3 ≤ e.level)
    (wordless : ∀ t ∈ tokens.map Placed.token, t ≠ .name "and" ∧ t ≠ .name "or") : Operand s :=
  ⟨tokens, _, e, tokenized, rendered ▸ e.spells_render.loosen tight e.level_le_eight, wordless⟩

/-- With a sign in front of it an operand may follow the word, and with parentheses around it it may
not. -/
theorem parse_joined_of_ladder :
    parse "if (x > 1 or !y) 2" = parse "if (x > 1 || !y) 2" ∧
      ∃ error, parse "if (x > 1 or (y)) 2" = .error error := by
  have operand : Operand "x > 1".toList :=
    operand_of_render [⟨.name "x", 0⟩, ⟨.gt, 2⟩, ⟨.number 1.0, 4⟩]
      (.binary .gt (.var "x") (.number 1.0)) (by decide +kernel) rfl (by decide) (by decide)
  exact ⟨(parse_joined .or operand "!y".toList "2".toList).1 (by decide),
    (parse_joined .or operand "(y)".toList "2".toList).2 (by decide)⟩

/-- In front of an operand in parentheses `and` is taken for a function. -/
theorem exists_word_taken_for_call :
    Operand "a".toList ∧ Operand "(b)".toList ∧
      joined "a".toList Connective.and.word "(b)".toList "1".toList = "if (a and (b)) 1" ∧
      joined "a".toList Connective.and.symbol "(b)".toList "1".toList = "if (a && (b)) 1" ∧
      parse "if (a and (b)) 1" = .error (.malformed 3 (.missing .closing)) ∧
      parse "if (a && (b)) 1" = .ok
        (.ternary (.binary .and (.var "a") (.var "b")) (.number 1.0) (.number 0.0)) := by
  refine ⟨?_, ?_, rfl, rfl, ?_, ?_⟩
  · exact operand_of_render [⟨.name "a", 0⟩] (.var "a") (by decide +kernel) rfl (by decide)
      (by decide)
  · have name : Spells 0 8 (.var "b") [.name "b"] := .var "b"
    have group := (name.loosen (Nat.zero_le 8) le_rfl).group
    exact ⟨[⟨.leftParen, 0⟩, ⟨.name "b", 1⟩, ⟨.rightParen, 2⟩], _, _, by decide +kernel,
      group.loosen (by decide) le_rfl, by decide⟩
  · exact parse_of_tokens "(a and (b)) ? (1) : 0"
      [⟨.leftParen, 0⟩, ⟨.name "a", 1⟩, ⟨.name "and", 3⟩, ⟨.leftParen, 7⟩, ⟨.name "b", 8⟩,
        ⟨.rightParen, 9⟩, ⟨.rightParen, 10⟩, ⟨.question, 12⟩, ⟨.leftParen, 14⟩, ⟨.number 1.0, 15⟩,
        ⟨.rightParen, 16⟩, ⟨.colon, 18⟩, ⟨.number 0.0, 20⟩]
      (by decide +kernel) (by decide +kernel)
  · exact parse_of_tokens "(a && (b)) ? (1) : 0"
      [⟨.leftParen, 0⟩, ⟨.name "a", 1⟩, ⟨.andAnd, 3⟩, ⟨.leftParen, 6⟩, ⟨.name "b", 7⟩,
        ⟨.rightParen, 8⟩, ⟨.rightParen, 9⟩, ⟨.question, 11⟩, ⟨.leftParen, 13⟩, ⟨.number 1.0, 14⟩,
        ⟨.rightParen, 15⟩, ⟨.colon, 17⟩, ⟨.number 0.0, 19⟩]
      (by decide +kernel) (by decide +kernel)

end IncrementalGame.Formula
