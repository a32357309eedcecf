import IncrementalGame.Formula.Conditional
import IncrementalGame.Proofs.Text.Runs
import Mathlib.Data.List.Find

/-!
# What the tokens of a formula are

`Token.tokenize` cuts one token after the other off a text.  The relations of this module say the
same without a bound on their number.

* `Lexeme token spelling rest`: the token, so spelled, stands in front of the text `rest`.  Only
  the front of the rest matters, and only as far as the token might have gone on into it
  (`Lexeme.append`, `Lexeme.name_of_takeWhile`).  A token is cut off a text just if it stands in
  front of it (`first_eq`, `Lexeme.first_eq`).
* `Lexes offset s tokens`: the text `s`, which starts at byte `offset`, consists of the tokens.
  `tokenize_eq_ok_iff` says that the tokens of a text are just these, `Lexes.shift` that they do not
  depend on where the text starts, and `Lexes.append` that the tokens of two texts stand next to
  each other when the second one starts with a character that goes on with no token.
-/

namespace IncrementalGame.Formula.Token

/-! ## The characters of a token -/

theorem isNumberPart_iff {c : Char} :
    isNumberPart c = true ↔ (48 ≤ c.toNat ∧ c.toNat ≤ 57) ∨ c.toNat = 46 := by
  rw [isNumberPart, isDigit, Bool.or_eq_true, decide_eq_true_iff, beq_iff_eq, ← Char.toNat_inj]
  exact Iff.rfl

theorem isNameStart_iff {c : Char} :
    isNameStart c = true ↔
      (97 ≤ c.toNat ∧ c.toNat ≤ 122) ∨ (65 ≤ c.toNat ∧ c.toNat ≤ 90) ∨ c.toNat = 95 := by
  rw [isNameStart, Bool.or_eq_true, Bool.or_eq_true, decide_eq_true_iff, decide_eq_true_iff,
    beq_iff_eq, or_assoc, ← Char.toNat_inj]
  exact Iff.rfl

/-- The quotes. -/
def isQuote (c : Char) : Bool := c == '\'' || c == '"'

theorem isQuote_eq_false {c : Char} : isQuote c = false ↔ ¬ (c = '\'' ∨ c = '"') := by
  rw [isQuote, Bool.or_eq_false_iff, beq_eq_false_iff_ne, beq_eq_false_iff_ne, not_or]

theorem isNumberPart_of_isNameStart {c : Char} (h : isNameStart c = true) :
    isNumberPart c = false := by
  refine Bool.eq_false_iff.mpr fun hn => ?_
  rw [isNumberPart_iff] at hn
  rw [isNameStart_iff] at h
  omega

theorem eq_of_isSpace {c : Char} (h : isSpace c = true) :
    c = ' ' ∨ c = '\t' ∨ c = '\n' ∨ c = '\r' ∨ c = '\x0c' := by
  simpa [isSpace, or_assoc] using h

theorem isBlank_of_isSpace {c : Char} (h : isSpace c = true) : Text.isBlank c = true := by
  rcases eq_of_isSpace h with rfl | rfl | rfl | rfl | rfl <;> decide

theorem utf8Size_of_isSpace {c : Char} (h : isSpace c = true) : c.utf8Size = 1 := by
  rcases eq_of_isSpace h with rfl | rfl | rfl | rfl | rfl <;> rfl

theorem plain_of_isSpace {c : Char} (h : isSpace c = true) :
    isNameStart c = false ∧ isQuote c = false := by
  rcases eq_of_isSpace h with rfl | rfl | rfl | rfl | rfl <;> decide

theorem isBlank_of_toNat {c : Char} (h : 33 ≤ c.toNat ∧ c.toNat ≤ 126) :
    Text.isBlank c = false := by
  simp only [Text.isBlank, Bool.or_eq_false_iff, decide_eq_false_iff_not, beq_eq_false_iff_ne]
  omega

theorem isBlank_of_isNumberPart {c : Char} (h : isNumberPart c = true) :
    Text.isBlank c = false := by
  rw [isNumberPart_iff] at h
  exact isBlank_of_toNat (by omega)

theorem isBlank_of_isNameStart {c : Char} (h : isNameStart c = true) :
    Text.isBlank c = false := by
  rw [isNameStart_iff] at h
  exact isBlank_of_toNat (by omega)

/-! ## The statistic behind a name -/

theorem isWordRest_of_isNameRest {c : Char} (h : isNameRest c = true) : isWordRest c = true := by
  rw [isWordRest, h, Bool.true_or]

theorem isWordRest_of_mem_statistics {word : List Char} (h : word ∈ statistics) :
    ∀ c ∈ word, isWordRest c = true := by
  have all : ∀ word ∈ statistics, word.all isWordRest = true := by decide
  exact List.all_eq_true.mp (all word h)

/-- Whether a text starts with this statistic. -/
def startsWith (s word : List Char) : Bool :=
  word.isPrefixOf s && !((s.drop word.length).head?.any isNameRest)

theorem statisticOf_eq (s : List Char) :
    statisticOf s = (statistics.find? (startsWith s)).getD [] := rfl

theorem startsWith_iff {s word : List Char} :
    startsWith s word = true ↔ ∃ rest, s = word ++ rest ∧ rest.head?.any isNameRest = false := by
  rw [startsWith, Bool.and_eq_true, List.isPrefixOf_iff_prefix, Bool.not_eq_true']
  constructor
  · rintro ⟨⟨rest, rfl⟩, ends⟩
    exact ⟨rest, rfl, by rwa [List.drop_left] at ends⟩
  · rintro ⟨rest, rfl, ends⟩
    exact ⟨List.prefix_append word rest, by rwa [List.drop_left]⟩

/-- A statistic is looked for only as far as a word goes on. -/
theorem startsWith_congr {s t word : List Char} (parts : ∀ c ∈ word, isWordRest c = true)
    (h : s.takeWhile isWordRest = t.takeWhile isWordRest) :
    startsWith s word = startsWith t word := by
  have one : ∀ u v : List Char, u.takeWhile isWordRest = v.takeWhile isWordRest →
      startsWith u word = true → startsWith v word = true := by
    intro u v same hu
    obtain ⟨rest, rfl, ends⟩ := startsWith_iff.mp hu
    rw [List.takeWhile_append_of_pos parts] at same
    -- What follows the statistic in `v` starts with the same run as in `u`.
    have split : v = word ++ (rest.takeWhile isWordRest ++ v.dropWhile isWordRest) := by
      rw [← List.append_assoc, same, List.takeWhile_append_dropWhile]
    refine startsWith_iff.mpr ⟨_, split, ?_⟩
    rw [← ends]
    refine Text.head?_any_of_takeWhile_eq (p := isWordRest) (fun c => isWordRest_of_isNameRest) ?_
    rw [List.takeWhile_append_of_pos fun c hc => List.mem_takeWhile_imp hc,
      Text.takeWhile_eq_nil (Text.head?_any_dropWhile isWordRest v), List.append_nil]
  exact Bool.eq_iff_iff.mpr ⟨one s t h, one t s h.symm⟩

theorem statisticOf_congr {s t : List Char}
    (h : s.takeWhile isWordRest = t.takeWhile isWordRest) : statisticOf s = statisticOf t := by
  have same : ∀ word ∈ statistics, startsWith s word = startsWith t word := fun word hword =>
    startsWith_congr (isWordRest_of_mem_statistics hword) h
  rw [statisticOf_eq, statisticOf_eq, List.find?_congr same]

theorem isWordRest_of_mem_statisticOf (s : List Char) :
    ∀ c ∈ statisticOf s, isWordRest c = true := by
  rw [statisticOf_eq]
  cases found : statistics.find? (startsWith s) with
  | none => exact fun c hc => absurd hc List.not_mem_nil
  | some word => exact isWordRest_of_mem_statistics (List.mem_of_find?_eq_some found)

theorem statisticOf_append_drop (s : List Char) :
    statisticOf s ++ s.drop (statisticOf s).length = s := by
  rw [statisticOf_eq]
  cases found : statistics.find? (startsWith s) with
  | none => rfl
  | some word =>
    obtain ⟨rest, rfl, -⟩ := startsWith_iff.mp (List.find?_some found)
    rw [Option.getD_some, List.drop_left]

/-! ## One token -/

/-- The operators and brackets. -/
def symbols : List (Token × List Char) :=
  [(.eq, ['=', '=']), (.notEq, ['!', '=']), (.bang, ['!']), (.ltEq, ['<', '=']), (.lt, ['<']),
   (.gtEq, ['>', '=']), (.gt, ['>']), (.andAnd, ['&', '&']), (.orOr, ['|', '|']), (.plus, ['+']),
   (.minus, ['-']), (.star, ['*']), (.slash, ['/']), (.percent, ['%']), (.question, ['?']),
   (.colon, [':']), (.leftParen, ['(']), (.rightParen, [')']), (.comma, [','])]

/-- The operators that are another operator when an equals sign follows. -/
def extensible : List (List Char) := [['!'], ['<'], ['>']]

/-- `Lexeme token spelling rest`: the token, so spelled, is cut off in front of `rest`. -/
inductive Lexeme : Token → List Char → List Char → Prop
  | number {run rest : List Char} {n : Numeral} (nonempty : run ≠ [])
      (parts : ∀ c ∈ run, isNumberPart c = true) (ends : rest.head?.any isNumberPart = false)
      (spelled : numeral? run = some n) : Lexeme (.number (n.value.toFloat false)) run rest
  | text {quote : Char} {content rest : List Char} (opens : quote = '\'' ∨ quote = '"')
      (closes : quote ∉ content) :
      Lexeme (.text (String.ofList content)) (quote :: (content ++ [quote])) rest
  | name {c : Char} {word statistic rest : List Char} (starts : isNameStart c = true)
      (parts : ∀ d ∈ word, isNameRest d = true)
      (ends : (statistic ++ rest).head?.any isNameRest = false)
      (longest : statisticOf (statistic ++ rest) = statistic) :
      Lexeme (.name (String.ofList (c :: (word ++ statistic)))) (c :: (word ++ statistic)) rest
  | symbol {t : Token} {spelling rest : List Char} (listed : (t, spelling) ∈ symbols)
      (ends : spelling ∈ extensible → rest.head? ≠ some '=') : Lexeme t spelling rest

theorem isNameRest_of_isNameStart {c : Char} (h : isNameStart c = true) : isNameRest c = true := by
  rw [isNameRest, h, Bool.true_or]

/-- A token starts with a character that is no blank. -/
theorem Lexeme.head {t : Token} {spelling rest : List Char} (h : Lexeme t spelling rest) :
    ∃ c behind, spelling = c :: behind ∧ Text.isBlank c = false := by
  cases h with
  | @number run _ _ nonempty parts =>
    obtain ⟨c, behind, rfl⟩ := List.exists_cons_of_ne_nil nonempty
    exact ⟨c, behind, rfl, isBlank_of_isNumberPart (parts c List.mem_cons_self)⟩
  | @text quote _ _ opens =>
    refine ⟨quote, _, rfl, ?_⟩
    rcases opens with rfl | rfl <;> decide
  | @name c _ _ _ starts => exact ⟨c, _, rfl, isBlank_of_isNameStart starts⟩
  | symbol listed =>
    have all : ∀ entry ∈ symbols, entry.2.head?.any (fun c => !Text.isBlank c) = true := by decide
    obtain ⟨c, hc, visible⟩ := (Option.any_eq_true _ _).mp (all _ listed)
    obtain ⟨behind, rfl⟩ := List.head?_eq_some_iff.mp hc
    exact ⟨c, behind, rfl, Bool.not_eq_true' _ ▸ visible⟩

/-! ### Cutting it off -/

theorem cutNumber_eq {s : List Char} {cut : Cut} (starts : s.head?.any isNumberPart = true)
    (h : cutNumber s = .ok cut) :
    Lexeme cut.token cut.spelling cut.rest ∧ cut.spelling ++ cut.rest = s := by
  simp only [cutNumber] at h
  split at h
  case h_2 => cases h
  case h_1 n spelled =>
    cases h
    exact ⟨.number (Text.takeWhile_ne_nil starts) (fun c => List.mem_takeWhile_imp)
      (Text.head?_any_dropWhile _ _) spelled, List.takeWhile_append_dropWhile⟩

theorem cutText_eq {quote : Char} {s : List Char} {cut : Cut} (opens : quote = '\'' ∨ quote = '"')
    (h : cutText quote s = .ok cut) :
    Lexeme cut.token cut.spelling cut.rest ∧ cut.spelling ++ cut.rest = quote :: s := by
  simp only [cutText] at h
  split at h
  case h_1 => cases h
  case h_2 close rest behind =>
    have content : s.takeWhile (· != quote) ++ close :: rest = s := by
      rw [← behind, List.takeWhile_append_dropWhile]
    -- What stops the content is the quote itself.
    obtain rfl : close = quote := by
      have stops := Text.head?_any_dropWhile (· != quote) s
      rw [behind] at stops
      simpa using stops
    cases h
    refine ⟨.text opens fun inside => ?_, by simpa using content⟩
    simpa using List.mem_takeWhile_imp inside

theorem cutName_cons {c : Char} (starts : isNameStart c = true) (s : List Char) :
    cutName (c :: s) =
      ⟨.name (String.ofList
          (c :: s.takeWhile isNameRest ++ statisticOf (s.dropWhile isNameRest))),
        c :: s.takeWhile isNameRest ++ statisticOf (s.dropWhile isNameRest),
        (s.dropWhile isNameRest).drop (statisticOf (s.dropWhile isNameRest)).length⟩ := by
  rw [cutName, List.takeWhile_cons_of_pos (isNameRest_of_isNameStart starts),
    List.dropWhile_cons_of_pos (isNameRest_of_isNameStart starts)]

theorem cutName_eq {c : Char} {s : List Char} (starts : isNameStart c = true) :
    Lexeme (cutName (c :: s)).token (cutName (c :: s)).spelling (cutName (c :: s)).rest ∧
      (cutName (c :: s)).spelling ++ (cutName (c :: s)).rest = c :: s := by
  have back := statisticOf_append_drop (s.dropWhile isNameRest)
  rw [cutName_cons starts]
  refine ⟨.name starts (fun c => List.mem_takeWhile_imp) ?_ ?_, ?_⟩
  · rw [back]
    exact Text.head?_any_dropWhile _ _
  · rw [back]
  · rw [List.append_assoc, back, List.cons_append, List.takeWhile_append_dropWhile]

theorem cutSymbol_eq {s : List Char} {t : Token} {spelling rest : List Char}
    (h : cutSymbol s = .ok ⟨t, spelling, rest⟩) :
    (t, spelling) ∈ symbols ∧ (spelling ∈ extensible → rest.head? ≠ some '=') ∧
      spelling ++ rest = s := by
  unfold cutSymbol at h
  split at h <;> cases h <;> refine ⟨by decide, fun extended => ?_, rfl⟩
  -- The three operators that an equals sign extends come behind their extensions.
  case h_3 no => exact Text.head?_ne_iff.mpr no
  case h_5 no => exact Text.head?_ne_iff.mpr no
  case h_7 no => exact Text.head?_ne_iff.mpr no
  all_goals exact absurd extended (by decide)

/-- What is cut off is a token, and nothing is lost. -/
theorem first_eq {c : Char} {s : List Char} {cut : Cut} (h : first c s = .ok cut) :
    Lexeme cut.token cut.spelling cut.rest ∧ cut.spelling ++ cut.rest = c :: s := by
  unfold first at h
  split at h
  case isTrue starts => exact cutNumber_eq starts h
  split at h
  case isTrue opens => exact cutText_eq opens h
  split at h
  case isTrue starts =>
    cases h
    exact cutName_eq starts
  obtain ⟨t, spelling, rest⟩ := cut
  obtain ⟨listed, ends, whole⟩ := cutSymbol_eq h
  exact ⟨.symbol listed ends, whole⟩

/-- A token takes a character. -/
theorem length_rest_le {c : Char} {s : List Char} {cut : Cut} (h : first c s = .ok cut) :
    cut.rest.length ≤ s.length := by
  obtain ⟨front, whole⟩ := first_eq h
  obtain ⟨d, more, hd, -⟩ := front.head
  have length := congrArg List.length whole
  rw [hd, List.length_append, List.length_cons, List.length_cons] at length
  omega

theorem cutSymbol_append {t : Token} {spelling rest : List Char} (listed : (t, spelling) ∈ symbols)
    (ends : spelling ∈ extensible → rest.head? ≠ some '=') :
    cutSymbol (spelling ++ rest) = .ok ⟨t, spelling, rest⟩ := by
  have no (extended : spelling ∈ extensible) : ∀ tail, rest = '=' :: tail → False :=
    Text.head?_ne_iff.mp (ends extended)
  simp only [symbols, List.mem_cons, Prod.mk.injEq, List.not_mem_nil, or_false] at listed
  rcases listed with h | h | h | h | h | h | h | h | h | h | h | h | h | h | h | h | h | h | h <;>
    obtain ⟨rfl, rfl⟩ := h
  case inr.inr.inl => exact cutSymbol.eq_3 rest (no (by decide))
  case inr.inr.inr.inr.inl => exact cutSymbol.eq_5 rest (no (by decide))
  case inr.inr.inr.inr.inr.inr.inl => exact cutSymbol.eq_7 rest (no (by decide))
  all_goals rfl

/-- A token is cut off in front of what follows it. -/
theorem Lexeme.first_eq {t : Token} {c : Char} {behind rest : List Char}
    (h : Lexeme t (c :: behind) rest) : first c (behind ++ rest) = .ok ⟨t, c :: behind, rest⟩ := by
  generalize whole : c :: behind = spelling at h
  cases h with
  | @number run _ n nonempty parts ends spelled =>
    subst whole
    have starts : isNumberPart c = true := parts c List.mem_cons_self
    rw [first, if_pos starts, cutNumber, ← List.cons_append]
    simp only [Text.takeWhile_run parts ends, Text.dropWhile_run parts ends, spelled]
  | @text quote content _ opens closes =>
    cases whole
    have parts : ∀ d ∈ content, (d != c) = true := fun d hd =>
      bne_iff_ne.mpr fun same => closes (same ▸ hd)
    have ends : (c :: rest).head?.any (· != c) = false := by simp
    have number : isNumberPart c = false := by
      rcases opens with rfl | rfl <;> decide
    rw [first, number, if_neg Bool.false_ne_true, if_pos opens, cutText, List.append_assoc,
      List.singleton_append]
    simp only [Text.takeWhile_run parts ends, Text.dropWhile_run parts ends, List.cons_append]
  | @name _ word statistic _ starts parts ends longest =>
    cases whole
    have quotes : ¬ (c = '\'' ∨ c = '"') := by
      rintro (rfl | rfl) <;> exact absurd starts (by decide)
    rw [first, isNumberPart_of_isNameStart starts, if_neg Bool.false_ne_true, if_neg quotes,
      if_pos starts, cutName_cons starts, List.append_assoc, Text.takeWhile_run parts ends,
      Text.dropWhile_run parts ends, longest, List.drop_left, List.cons_append]
  | symbol listed ends =>
    subst whole
    have all : ∀ entry ∈ symbols, entry.2.head?.any isNumberPart = false ∧
        entry.2.head?.any isQuote = false ∧ entry.2.head?.any isNameStart = false := by decide
    obtain ⟨number, quote, letter⟩ := all _ listed
    rw [List.head?_cons, Option.any_some] at number quote letter
    rw [first, number, if_neg Bool.false_ne_true, if_neg (isQuote_eq_false.mp quote), letter,
      if_neg Bool.false_ne_true, ← List.cons_append, cutSymbol_append listed ends]

/-! ### The rest it stands in front of -/

/-- A text that goes on with no token in front of it. -/
structure Apart (s : List Char) : Prop where
  /-- It goes on with no name. -/
  word : s.head?.any isWordRest = false
  /-- It goes on with no number. -/
  number : s.head?.any isNumberPart = false
  /-- It goes on with no operator. -/
  equals : s.head? ≠ some '='

/-- A name is spelled with the characters of a word. -/
theorem isWordRest_of_mem_name {c : Char} {word statistic rest : List Char}
    (starts : isNameStart c = true) (parts : ∀ d ∈ word, isNameRest d = true)
    (longest : statisticOf (statistic ++ rest) = statistic) :
    ∀ d ∈ c :: (word ++ statistic), isWordRest d = true := by
  rw [List.forall_mem_cons, List.forall_mem_append]
  refine ⟨isWordRest_of_isNameRest (isNameRest_of_isNameStart starts),
    fun d hd => isWordRest_of_isNameRest (parts d hd), ?_⟩
  rw [← longest]
  exact isWordRest_of_mem_statisticOf _

/-- A name goes on as far as the word in front of which it stands. -/
theorem Lexeme.name_of_takeWhile {c : Char} {word statistic rest rest' : List Char}
    (starts : isNameStart c = true) (parts : ∀ d ∈ word, isNameRest d = true)
    (ends : (statistic ++ rest).head?.any isNameRest = false)
    (longest : statisticOf (statistic ++ rest) = statistic)
    (same : rest'.takeWhile isWordRest = rest.takeWhile isWordRest) :
    Lexeme (.name (String.ofList (c :: (word ++ statistic)))) (c :: (word ++ statistic)) rest' := by
  have inside : ∀ d ∈ statistic, isWordRest d = true := fun d hd =>
    isWordRest_of_mem_name starts parts longest d
      (List.mem_cons_of_mem c (List.mem_append_right word hd))
  have whole : (statistic ++ rest').takeWhile isWordRest =
      (statistic ++ rest).takeWhile isWordRest := by
    rw [List.takeWhile_append_of_pos inside, List.takeWhile_append_of_pos inside, same]
  refine .name starts parts ?_ ?_
  · rw [← ends]
    exact Text.head?_any_of_takeWhile_eq (fun d => isWordRest_of_isNameRest) whole
  · rw [statisticOf_congr whole, longest]

/-- A token stands as well in front of a longer text. -/
theorem Lexeme.append {t : Token} {spelling rest tail : List Char} (h : Lexeme t spelling rest)
    (apart : Apart tail) : Lexeme t spelling (rest ++ tail) := by
  cases h with
  | number nonempty parts ends spelled =>
    exact .number nonempty parts (Text.head?_any_append ends apart.number) spelled
  | text opens closes => exact .text opens closes
  | name starts parts ends longest =>
    exact .name_of_takeWhile starts parts ends longest (Text.takeWhile_append_eq apart.word)
  | symbol listed ends =>
    refine .symbol listed fun extended => ?_
    cases rest with
    | nil => exact apart.equals
    | cons c rest => exact ends extended

/-! ## A row of tokens -/

/-- `Lexes offset s tokens`: the text, which starts at byte `offset`, consists of the tokens. -/
inductive Lexes : Nat → List Char → List Placed → Prop
  | nil {offset : Nat} : Lexes offset [] []
  | space {offset : Nat} {c : Char} {rest : List Char} {tokens : List Placed}
      (separates : isSpace c = true) (behind : Lexes (offset + 1) rest tokens) :
      Lexes offset (c :: rest) tokens
  | token {offset : Nat} {t : Token} {spelling rest : List Char} {tokens : List Placed}
      (front : Lexeme t spelling rest)
      (behind : Lexes (offset + Text.byteLength spelling) rest tokens) :
      Lexes offset (spelling ++ rest) (⟨t, offset⟩ :: tokens)

theorem lexes_of_scan {fuel offset : Nat} {s : List Char} {tokens : List Placed}
    (enough : s.length ≤ fuel) (h : scan fuel offset s = .ok tokens) : Lexes offset s tokens := by
  induction fuel generalizing offset s tokens with
  | zero =>
    obtain rfl := List.length_eq_zero_iff.mp (Nat.le_zero.mp enough)
    cases h
    exact .nil
  | succ fuel ih =>
    cases s with
    | nil =>
      cases h
      exact .nil
    | cons c rest =>
      rw [scan] at h
      split at h
      case isTrue separates => exact .space separates (ih (Nat.le_of_succ_le_succ enough) h)
      split at h
      case h_1 => cases h
      case h_2 cut hcut =>
        obtain ⟨front, whole⟩ := first_eq hcut
        split at h
        case h_1 => cases h
        case h_2 tokens behind =>
          cases h
          rw [← whole]
          -- A token takes a character, so the bound is enough for what is left.
          exact .token front (ih ((length_rest_le hcut).trans (Nat.le_of_succ_le_succ enough)) behind)

theorem Lexes.scan_eq {offset : Nat} {s : List Char} {tokens : List Placed}
    (h : Lexes offset s tokens) {fuel : Nat} (enough : s.length ≤ fuel) :
    scan fuel offset s = .ok tokens := by
  induction h generalizing fuel with
  | nil =>
    cases fuel <;> rfl
  | space separates _ ih =>
    rw [List.length_cons] at enough
    cases fuel with
    | zero => omega
    | succ fuel => rw [scan, if_pos separates, ih (by omega)]
  | @token offset t spelling rest tokens front _ ih =>
    obtain ⟨c, behind, rfl, visible⟩ := front.head
    have separates : ¬ isSpace c = true := fun hc => by
      rw [isBlank_of_isSpace hc] at visible
      cases visible
    rw [List.length_append, List.length_cons] at enough
    cases fuel with
    | zero => omega
    | succ fuel =>
      rw [List.cons_append, scan, if_neg separates, front.first_eq]
      simp only [ih (show rest.length ≤ fuel by omega)]

/-- The tokens of a text are the row of tokens it consists of. -/
theorem tokenize_eq_ok_iff {s : List Char} {tokens : List Placed} :
    tokenize s = .ok tokens ↔ Lexes 0 s tokens :=
  ⟨lexes_of_scan le_rfl, fun h => h.scan_eq le_rfl⟩

theorem Lexes.eq_nil {offset : Nat} {tokens : List Placed} (h : Lexes offset [] tokens) :
    tokens = [] := by
  cases h.scan_eq (Nat.le_refl 0)
  rfl

/-- The tokens of a text do not depend on where it starts. -/
theorem Lexes.shift {offset : Nat} {s : List Char} {tokens : List Placed}
    (h : Lexes offset s tokens) (offset' : Nat) :
    ∃ tokens', Lexes offset' s tokens' ∧ tokens'.map Placed.token = tokens.map Placed.token := by
  induction h generalizing offset' with
  | nil => exact ⟨[], .nil, rfl⟩
  | space separates _ ih =>
    obtain ⟨tokens', behind, same⟩ := ih (offset' + 1)
    exact ⟨tokens', .space separates behind, same⟩
  | @token _ t spelling _ _ front _ ih =>
    obtain ⟨tokens', behind, same⟩ := ih (offset' + Text.byteLength spelling)
    refine ⟨⟨t, offset'⟩ :: tokens', .token front behind, ?_⟩
    rw [List.map_cons, List.map_cons, same]

/-- The tokens of two texts stand next to each other, if no token goes on into the second text. -/
theorem Lexes.append {offset : Nat} {s tail : List Char} {tokens more : List Placed}
    (h : Lexes offset s tokens) (apart : Apart tail)
    (behind : Lexes (offset + Text.byteLength s) tail more) :
    Lexes offset (s ++ tail) (tokens ++ more) := by
  induction h with
  | nil => exact behind
  | space separates _ ih =>
    rw [Text.byteLength, utf8Size_of_isSpace separates, ← Nat.add_assoc] at behind
    exact .space separates (ih behind)
  | token front _ ih =>
    rw [Text.byteLength_append, ← Nat.add_assoc] at behind
    rw [List.append_assoc]
    exact .token (front.append apart) (ih behind)

end IncrementalGame.Formula.Token
