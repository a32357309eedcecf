import IncrementalGame.Proofs.Binary64.Digits
import IncrementalGame.Proofs.Formula.Statistics

/-!
# Words with blanks between them

A text that is put together of words, with blanks between them, is read as just these words.  The
blanks may be any, and there may be more of them in front and behind.

* `Word`: an operator or bracket, a number, a text between quotes, or a name with a statistic or
  without.  A word carries the proof that it is one, and knows its spelling and its token.
  In front of a blank it is the token that is cut off (`Word.lexeme`).
* `Row`: words with blanks.  `Row.text` is what is read and `Row.tokens` what it is read as, each
  token at the number of bytes in front of its word (`Row.lexes`).
* `ofText?_run`: the run of a number is read as a number is read anywhere.
-/

namespace IncrementalGame.Formula.Token

/-! ## Numbers -/

theorem eq_point {c : Char} (part : isNumberPart c = true) (digit : isDigit c ≠ true) :
    c = '.' := by
  rw [isNumberPart, Bool.or_eq_true, beq_iff_eq] at part
  exact part.resolve_left digit

/-- What follows the digits of a run is its point. -/
theorem dropWhile_digits_eq_point {run rest : List Char} {c : Char}
    (parts : ∀ c ∈ run, isNumberPart c = true) (h : run.dropWhile isDigit = c :: rest) :
    c = '.' ∧ ∀ d ∈ rest, isNumberPart d = true := by
  have inside : ∀ d ∈ c :: rest, isNumberPart d = true := fun d hd =>
    parts d ((List.dropWhile_suffix isDigit).subset (h ▸ hd))
  obtain ⟨part, rest⟩ := List.forall_mem_cons.mp inside
  refine ⟨eq_point part fun digit => ?_, rest⟩
  have ends := Text.head?_any_dropWhile isDigit run
  rw [h, List.head?_cons, Option.any_some, digit] at ends
  cases ends

/-- A run of digits and points has no exponent. -/
theorem numeralOf?_run {run : List Char} (nonempty : run ≠ [])
    (parts : ∀ c ∈ run, isNumberPart c = true) : Binary64.numeralOf? run = numeral? run := by
  have whole := List.takeWhile_append_dropWhile (p := isDigit) (l := run)
  unfold Binary64.numeralOf? numeral?
  cases behind : run.dropWhile isDigit with
  | nil =>
    rw [behind, List.append_nil] at whole
    simp only [whole, List.append_nil, if_neg nonempty, Binary64.exponentOf?, Option.map_some]
  | cons c fraction =>
    obtain ⟨rfl, inside⟩ := dropWhile_digits_eq_point parts behind
    by_cases digits : fraction.all isDigit = true
    · have taken := List.takeWhile_eq_self_iff.mpr (List.all_eq_true.mp digits)
      have left := List.dropWhile_eq_nil_iff.mpr (List.all_eq_true.mp digits)
      simp only [taken, left, digits, true_and, Binary64.exponentOf?, Option.map_some, ite_not]
    · -- A second point is no exponent.
      obtain ⟨d, rest, left⟩ := List.exists_cons_of_ne_nil (l := fraction.dropWhile isDigit) (by
        rwa [ne_eq, List.dropWhile_eq_nil_iff, ← List.all_eq_true])
      obtain ⟨rfl, -⟩ := dropWhile_digits_eq_point inside left
      have no : Binary64.exponentOf? ('.' :: rest) = none := rfl
      simp only [left, digits, no, Option.map_none, Bool.false_eq_true, false_and, if_false,
        ite_self]

theorem toLower_of_isNumberPart {c : Char} (part : isNumberPart c = true) : c.toLower = c := by
  rw [isNumberPart_iff] at part
  refine dif_neg fun capital => ?_
  have low : 65 ≤ c.toNat := capital.1
  omega

/-- The words for numbers start with a letter. -/
theorem wordOf?_run {run : List Char} (nonempty : run ≠ [])
    (parts : ∀ c ∈ run, isNumberPart c = true) (negative : Bool) :
    Binary64.wordOf? negative run = none := by
  obtain ⟨c, rest, rfl⟩ := List.exists_cons_of_ne_nil nonempty
  have part := parts c List.mem_cons_self
  have letter {word : String} (h : word.toList.head?.any isNumberPart = false) :
      String.ofList ((c :: rest).map Char.toLower) = word → False := by
    rintro rfl
    rw [String.toList_ofList, List.map_cons, List.head?_cons, Option.any_some,
      toLower_of_isNumberPart part, part] at h
    cases h
  unfold Binary64.wordOf?
  split
  case h_1 h => exact (letter (by decide) h).elim
  case h_2 h => exact (letter (by decide) h).elim
  case h_3 h => exact (letter (by decide) h).elim
  case h_4 => rfl

/-- A run of digits and points is read as a number is read anywhere. -/
theorem ofText?_run {run : List Char} (nonempty : run ≠ [])
    (parts : ∀ c ∈ run, isNumberPart c = true) :
    Binary64.ofText? run = (numeral? run).map fun n => n.value.toFloat false := by
  have unsigned {c : Char} (sign : isNumberPart c = false) (rest : List Char) :
      run = c :: rest → False := by
    rintro rfl
    rw [parts c List.mem_cons_self] at sign
    cases sign
  rw [Binary64.ofText?.eq_3 run (unsigned rfl) (unsigned rfl), numeralOf?_run nonempty parts]
  cases numeral? run with
  | some n => rfl
  | none => exact wordOf?_run nonempty parts false

/-! ## Words -/

/-- A word of a formula. -/
inductive Word where
  /-- An operator or a bracket. -/
  | symbol (t : Token) (spelling : List Char) (listed : (t, spelling) ∈ symbols)
  /-- A run of digits, of which there is at least one, with a point somewhere among them or none. -/
  | number (whole : List Char) (fraction : Option (List Char))
      (digits : ∀ c ∈ whole ++ fraction.getD [], isDigit c = true)
      (nonempty : whole ++ fraction.getD [] ≠ [])
  /-- Any characters but the quote that stands on both sides of them. -/
  | text (quote : Char) (content : List Char) (opens : quote = '\'' ∨ quote = '"')
      (closes : quote ∉ content)
  /-- A letter or an underscore, and letters, underscores and digits behind it. -/
  | name (start : Char) (more : List Char) (starts : isNameStart start = true)
      (parts : ∀ c ∈ more, isNameRest c = true)
  /-- A name, and a statistic behind it. -/
  | statistic (start : Char) (more word : List Char) (starts : isNameStart start = true)
      (parts : ∀ c ∈ more, isNameRest c = true) (listed : word ∈ statistics)

namespace Word

/-- The characters of a word. -/
def spelling : Word → List Char
  | symbol _ spelling _ => spelling
  | number whole none _ _ => whole
  | number whole (some fraction) _ _ => whole ++ '.' :: fraction
  | text quote content _ _ => quote :: (content ++ [quote])
  | name start more _ _ => start :: more
  | statistic start more word _ _ _ => start :: (more ++ word)

/-- What a word is read as: a number is the nearest one to its decimal, a text has lost its quotes,
and a statistic belongs to its name. -/
def token : Word → Token
  | symbol t _ _ => t
  | number whole fraction _ _ =>
    .number ((Numeral.mk whole (fraction.getD []) 0).value.toFloat false)
  | text _ content _ _ => .text (String.ofList content)
  | name start more _ _ => .name (String.ofList (start :: more))
  | statistic start more word _ _ _ => .name (String.ofList (start :: (more ++ word)))

end Word

/-! ### In front of a blank -/

theorem numeral?_digits {whole : List Char} (digits : ∀ c ∈ whole, isDigit c = true) :
    numeral? whole = some ⟨whole, [], 0⟩ := by
  have all := takeWhile_digits digits endsDigits_nil
  have left := dropWhile_digits digits endsDigits_nil
  rw [List.append_nil] at all left
  rw [numeral?, all, left]

theorem numeral?_point {whole fraction : List Char} (digits : ∀ c ∈ whole, isDigit c = true)
    (behind : ∀ c ∈ fraction, isDigit c = true) (nonempty : whole ++ fraction ≠ []) :
    numeral? (whole ++ '.' :: fraction) = some ⟨whole, fraction, 0⟩ := by
  have point : EndsDigits ('.' :: fraction) := endsDigits_cons (by decide) fraction
  simp only [numeral?, takeWhile_digits digits point, dropWhile_digits digits point,
    List.all_eq_true.mpr behind, nonempty, ne_eq, not_false_eq_true, and_self, if_true]

theorem isNumberPart_of_isDigit {c : Char} (h : isDigit c = true) : isNumberPart c = true := by
  rw [isNumberPart, h, Bool.true_or]

/-- A text that goes on with no word starts with no statistic. -/
theorem statisticOf_eq_nil {s : List Char} (ends : s.head?.any isWordRest = false) :
    statisticOf s = [] := by
  have same : s.takeWhile isWordRest = [].takeWhile isWordRest := by
    rw [Text.takeWhile_eq_nil ends, List.takeWhile_nil]
  rw [statisticOf_congr same]
  decide

theorem Apart.name {s : List Char} (apart : Apart s) : s.head?.any isNameRest = false := by
  have same : s.takeWhile isWordRest = [].takeWhile isWordRest := by
    rw [Text.takeWhile_eq_nil apart.word, List.takeWhile_nil]
  exact Text.head?_any_of_takeWhile_eq (fun c => isWordRest_of_isNameRest) same

/-- The statistic that a text starts with is the one it starts with up to the end of a word. -/
theorem statisticOf_append {word rest : List Char} (listed : word ∈ statistics)
    (ends : rest.head?.any isNameRest = false) : statisticOf (word ++ rest) = word := by
  have fits : startsWith (word ++ rest) word = true := startsWith_iff.mpr ⟨rest, rfl, ends⟩
  rw [statisticOf_eq]
  cases found : statistics.find? (startsWith (word ++ rest)) with
  | none => exact absurd fits (List.find?_eq_none.mp found word listed)
  | some other =>
    -- Both run from the colon as far as the word goes.
    obtain ⟨letters, rfl, parts⟩ := eq_colon_of_mem_statistics listed
    obtain ⟨letters', rfl, parts'⟩ :=
      eq_colon_of_mem_statistics (List.mem_of_find?_eq_some found)
    obtain ⟨t, ht, run⟩ := (startsWith_colon_iff parts').mp (List.find?_some found)
    obtain rfl : letters ++ rest = t := (List.cons.inj ht).2
    rw [Text.takeWhile_run parts ends] at run
    rw [Option.getD_some, run]

/-- In front of a blank, and at the end, a word is the token that is cut off. -/
theorem Word.lexeme (w : Word) {rest : List Char} (apart : Apart rest) :
    Lexeme w.token w.spelling rest := by
  cases w with
  | symbol t spelling listed => exact .symbol listed fun _ => apart.equals
  | number whole fraction digits nonempty =>
    cases fraction with
    | none =>
      rw [Option.getD_none, List.append_nil] at digits nonempty
      exact .number nonempty (fun c hc => isNumberPart_of_isDigit (digits c hc)) apart.number
        (numeral?_digits digits)
    | some fraction =>
      obtain ⟨front, behind⟩ := List.forall_mem_append.mp digits
      refine .number (by simp [Word.spelling]) ?_ apart.number
        (numeral?_point front behind nonempty)
      rw [Word.spelling, List.forall_mem_append, List.forall_mem_cons]
      exact ⟨fun c hc => isNumberPart_of_isDigit (front c hc), by decide,
        fun c hc => isNumberPart_of_isDigit (behind c hc)⟩
  | text quote content opens closes => exact .text opens closes
  | name start more starts parts =>
    have bare : Lexeme _ (start :: (more ++ [])) rest :=
      .name starts parts apart.name (statisticOf_eq_nil apart.word)
    rwa [List.append_nil] at bare
  | statistic start more word starts parts listed =>
    obtain ⟨letters, rfl, -⟩ := eq_colon_of_mem_statistics listed
    exact .name starts parts rfl (statisticOf_append listed apart.name)

/-! ## Rows of words -/

/-- The text of some words, each with the blanks behind it. -/
def spread (words : List (Word × List Char)) : List Char :=
  words.flatMap fun (w, blanks) => w.spelling ++ blanks

theorem spread_nil : spread [] = [] := rfl

theorem spread_cons (w : Word) (blanks : List Char) (words : List (Word × List Char)) :
    spread ((w, blanks) :: words) = w.spelling ++ (blanks ++ spread words) := by
  rw [spread, List.flatMap_cons, List.append_assoc, spread]

/-- Words with blanks in front of them, between them and behind them. -/
structure Row where
  /-- The blanks in front of the first word. -/
  lead : List Char
  /-- The words, each with the blanks behind it. -/
  words : List (Word × List Char)
  /-- Blanks are blanks of a formula. -/
  lead_blank : ∀ c ∈ lead, isSpace c = true
  /-- Blanks are blanks of a formula. -/
  blank : ∀ w ∈ words, ∀ c ∈ w.2, isSpace c = true
  /-- There is a blank between two words. -/
  apart : ∀ w ∈ words.dropLast, w.2 ≠ []

namespace Row

/-- The text of a row. -/
def text (row : Row) : List Char := row.lead ++ spread row.words

/-- The tokens of a row: those of its words, each at the number of bytes in front of the word. -/
def tokens (row : Row) : List Placed :=
  row.words.mapIdx fun i w =>
    ⟨w.1.token, Text.byteLength (row.lead ++ spread (row.words.take i))⟩

end Row

theorem apart_of_isSpace {c : Char} (h : isSpace c = true) (s : List Char) : Apart (c :: s) := by
  rcases eq_of_isSpace h with rfl | rfl | rfl | rfl | rfl <;> exact ⟨rfl, rfl, by simp⟩

/-- Blanks in front only move the tokens. -/
theorem Lexes.blanks {offset : Nat} {blanks s : List Char} {tokens : List Placed}
    (blank : ∀ c ∈ blanks, isSpace c = true)
    (behind : Lexes (offset + Text.byteLength blanks) s tokens) :
    Lexes offset (blanks ++ s) tokens := by
  induction blanks generalizing offset with
  | nil => exact behind
  | cons c blanks ih =>
    obtain ⟨separates, blank⟩ := List.forall_mem_cons.mp blank
    rw [Text.byteLength, utf8Size_of_isSpace separates, ← Nat.add_assoc] at behind
    exact .space separates (ih blank behind)

/-- Words with blanks behind each, and between them at least one, are their tokens. -/
theorem lexes_spread (front : List Char) {words : List (Word × List Char)}
    (blank : ∀ w ∈ words, ∀ c ∈ w.2, isSpace c = true) (apart : ∀ w ∈ words.dropLast, w.2 ≠ []) :
    Lexes (Text.byteLength front) (spread words)
      (words.mapIdx fun i w => ⟨w.1.token, Text.byteLength (front ++ spread (words.take i))⟩) := by
  induction words generalizing front with
  | nil => exact .nil
  | cons first words ih =>
    obtain ⟨w, blanks⟩ := first
    obtain ⟨here, blank⟩ := List.forall_mem_cons.mp blank
    have separate : Apart (blanks ++ spread words) := by
      cases blanks with
      | cons c blanks => exact apart_of_isSpace (here c List.mem_cons_self) _
      | nil =>
        -- Only the last word has no blank behind it.
        cases words with
        | nil => exact ⟨rfl, rfl, nofun⟩
        | cons second words => exact absurd rfl (apart (w, []) List.mem_cons_self)
    have later : ∀ w ∈ words.dropLast, w.2 ≠ [] := by
      cases words with
      | nil => exact nofun
      | cons second words => exact fun w hw => apart w (List.mem_cons_of_mem _ hw)
    have behind := ih (front ++ (w.spelling ++ blanks)) blank later
    rw [spread_cons, List.mapIdx_cons]
    simp only [List.take_zero, List.take_succ_cons, spread_nil, spread_cons, List.append_nil]
    refine .token (w.lexeme separate) (.blanks here ?_)
    simpa only [Text.byteLength_append, List.append_assoc, Nat.add_assoc] using behind

/-- A row of words is its tokens. -/
theorem Row.lexes (row : Row) : Lexes 0 row.text row.tokens := by
  refine .blanks row.lead_blank ?_
  rw [Nat.zero_add]
  exact lexes_spread row.lead row.blank row.apart

end IncrementalGame.Formula.Token
