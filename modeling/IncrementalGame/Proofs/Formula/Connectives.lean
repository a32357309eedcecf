import IncrementalGame.Proofs.Formula.Lexing

/-!
# The words `and` and `or` of a condition

`symbolic` finds the words of a condition by itself, before the condition is cut into tokens.  Its
words are longer than names: a word goes on through digits, letters, underscores and colons, so that
`a:1and` is one word and four tokens.  Where no `and` or `or` is such a part of a longer word
(`runsOn`), the two readings agree: the tokens of the condition that was written anew are those of
the condition, with an operator for each of the two words that is not called like a function
(`lexes_symbolic`).

The rewriting is followed character by character.  All that it remembers outside a text is whether
it stands inside a word, which is a matter of what lies before (`endsInWord`); `rewrittenFrom` is
what it writes from there on.
-/

namespace IncrementalGame.Formula

open Token (isNameStart isNameRest isNumberPart isQuote isSpace Lexeme Lexes)

/-! ## What a token becomes -/

/-- The operator that a word stands for. -/
def Token.asOperator (t : Token) : Token :=
  if t = .name "and" then .andAnd else if t = .name "or" then .orOr else t

/-- The tokens of a condition, with operators for the words `and` and `or` that are not called. -/
def withOperators : List Token → List Token
  | [] => []
  | t :: rest =>
    (if rest.head? = some .leftParen then t else t.asOperator) :: withOperators rest

/-- A text up to a byte and from there on. -/
def atByte : Nat → List Char → List Char × List Char
  | _, [] => ([], [])
  | n, c :: s =>
    if n < c.utf8Size then ([], c :: s)
    else (c :: (atByte (n - c.utf8Size) s).1, (atByte (n - c.utf8Size) s).2)

/-- Whether a text ends inside a word. -/
def endsInWord (before : List Char) : Bool :=
  (before.reverse.takeWhile isWordRest).any isNameStart

/-- Whether the name at a byte of a text is a part of a longer word. -/
def runsOn (source : List Char) (offset : Nat) : Bool :=
  endsInWord (atByte offset source).1 ||
    ((atByte offset source).2.dropWhile isNameRest).head? == some ':'

theorem atByte_append (before s : List Char) :
    atByte (Text.byteLength before) (before ++ s) = (before, s) := by
  induction before with
  | nil =>
    cases s with
    | nil => rfl
    | cons c s => rw [Text.byteLength, List.nil_append, atByte, if_pos c.utf8Size_pos]
  | cons c before ih =>
    have further : ¬ c.utf8Size + Text.byteLength before < c.utf8Size := by omega
    rw [Text.byteLength, List.cons_append, atByte, if_neg further, Nat.add_sub_cancel_left, ih]

/-! ### Inside a word -/

/-- Whether a text ends inside a word, when one more character follows it. -/
def goesOn (inside : Bool) (c : Char) : Bool := isWordRest c && (isNameStart c || inside)

theorem endsInWord_concat (before : List Char) (c : Char) :
    endsInWord (before ++ [c]) = goesOn (endsInWord before) c := by
  rw [endsInWord, List.reverse_append, List.reverse_singleton, List.singleton_append,
    List.takeWhile_cons, goesOn, endsInWord]
  cases isWordRest c <;> rfl

theorem endsInWord_append (before run : List Char) :
    endsInWord (before ++ run) = run.foldl goesOn (endsInWord before) := by
  induction run generalizing before with
  | nil => rw [List.append_nil, List.foldl_nil]
  | cons c run ih => rw [List.append_cons, ih, endsInWord_concat, List.foldl_cons]

theorem foldl_goesOn_true {run : List Char} (parts : ∀ c ∈ run, isWordRest c = true) :
    run.foldl goesOn true = true := by
  induction run with
  | nil => rfl
  | cons c run ih =>
    rw [List.forall_mem_cons] at parts
    rw [List.foldl_cons, goesOn, parts.1, Bool.or_true, Bool.and_self, ih parts.2]

/-! ## The rewriting, from any character on -/

/-- What the rewriting writes for a text. -/
def rewritten (quote : Option Char) (s : List Char) : List Char := replaceWords s.length quote s

theorem replaceWords_eq {fuel : Nat} (quote : Option Char) {s : List Char}
    (enough : s.length ≤ fuel) : replaceWords fuel quote s = rewritten quote s := by
  suffices any : ∀ fuel fuel' : Nat, s.length ≤ fuel → s.length ≤ fuel' →
      replaceWords fuel quote s = replaceWords fuel' quote s from any _ _ enough le_rfl
  clear enough fuel
  intro fuel
  induction fuel generalizing quote s with
  | zero =>
    intro fuel' h h'
    obtain rfl := List.length_eq_zero_iff.mp (Nat.le_zero.mp h)
    cases fuel' <;> rfl
  | succ fuel ih =>
    intro fuel' h h'
    cases s with
    | nil => cases fuel' <;> rfl
    | cons c rest =>
      cases fuel' with
      | zero => cases h'
      | succ fuel' =>
        have hrest := Nat.le_of_succ_le_succ h
        have hrest' := Nat.le_of_succ_le_succ h'
        have hdrop := List.length_dropWhile_le isWordRest rest
        have behind := ih none fuel' (hdrop.trans hrest) (hdrop.trans hrest')
        rw [replaceWords, replaceWords]
        split
        · simp only [behind]
        · rw [ih (quoteAfter quote c) fuel' hrest hrest']

theorem rewritten_word {c : Char} (starts : isNameStart c = true) (s : List Char) :
    rewritten none (c :: s) =
      wordOperator (c :: s.takeWhile isWordRest) (s.dropWhile isWordRest) ++
        rewritten none (s.dropWhile isWordRest) := by
  rw [rewritten, List.length_cons, replaceWords, starts, Option.isNone_none, Bool.and_self,
    if_pos rfl]
  simp only [replaceWords_eq none (List.length_dropWhile_le isWordRest s)]

theorem rewritten_cons {quote : Option Char} {c : Char}
    (other : (quote.isNone && isNameStart c) = false) (s : List Char) :
    rewritten quote (c :: s) = c :: rewritten (quoteAfter quote c) s := by
  rw [rewritten, List.length_cons, replaceWords, other, if_neg Bool.false_ne_true]
  rfl

/-- What the rewriting writes for a text outside quotes, in front of which it stands inside a word
or not. -/
def rewrittenFrom (inside : Bool) (s : List Char) : List Char :=
  if inside then s.takeWhile isWordRest ++ rewritten none (s.dropWhile isWordRest)
  else rewritten none s

/-- A character that starts neither a word nor a text is kept. -/
theorem rewrittenFrom_cons {c : Char} (word : isNameStart c = false) (text : isQuote c = false)
    (inside : Bool) (s : List Char) :
    rewrittenFrom inside (c :: s) = c :: rewrittenFrom (goesOn inside c) s := by
  have kept : rewritten none (c :: s) = c :: rewritten none s := by
    rw [rewritten_cons (by rw [word, Bool.and_false]), quoteAfter,
      if_neg (Token.isQuote_eq_false.mp text)]
  rw [goesOn, word, Bool.false_or]
  cases inside with
  | false =>
    rw [Bool.and_false]
    exact kept
  | true =>
    rw [Bool.and_true]
    cases hc : isWordRest c with
    | true =>
      rw [rewrittenFrom, if_pos rfl, List.takeWhile_cons_of_pos hc, List.dropWhile_cons_of_pos hc]
      rfl
    | false =>
      have ends : (c :: s).head?.any isWordRest = false := hc
      rw [rewrittenFrom, if_pos rfl, Text.takeWhile_eq_nil ends, Text.dropWhile_eq_self ends]
      exact kept

theorem rewrittenFrom_run {run : List Char}
    (parts : ∀ c ∈ run, isNameStart c = false ∧ isQuote c = false) (inside : Bool)
    (s : List Char) :
    rewrittenFrom inside (run ++ s) = run ++ rewrittenFrom (run.foldl goesOn inside) s := by
  induction run generalizing inside with
  | nil => rfl
  | cons c run ih =>
    rw [List.forall_mem_cons] at parts
    rw [List.cons_append, rewrittenFrom_cons parts.1.1 parts.1.2, ih parts.2, List.foldl_cons,
      List.cons_append]

theorem rewritten_content {quote : Char} {content : List Char} (closes : quote ∉ content)
    (s : List Char) :
    rewritten (some quote) (content ++ quote :: s) = content ++ quote :: rewritten none s := by
  induction content with
  | nil => rw [List.nil_append, rewritten_cons rfl, quoteAfter, if_pos rfl, List.nil_append]
  | cons c content ih =>
    rw [List.mem_cons, not_or] at closes
    rw [List.cons_append, rewritten_cons rfl, quoteAfter, if_neg (Ne.symm closes.1),
      ih closes.2, List.cons_append]

/-- A text between quotes is kept, and no word goes on behind it. -/
theorem rewrittenFrom_text {quote : Char} {content : List Char} (opens : quote = '\'' ∨ quote = '"')
    (closes : quote ∉ content) (inside : Bool) (s : List Char) :
    rewrittenFrom inside (quote :: (content ++ [quote]) ++ s) =
      quote :: (content ++ [quote]) ++ rewrittenFrom false s := by
  have apart : isWordRest quote = false := by
    rcases opens with rfl | rfl <;> decide
  have ends : (quote :: (content ++ [quote]) ++ s).head?.any isWordRest = false := apart
  have other : isNameStart quote = false := by
    rcases opens with rfl | rfl <;> decide
  have kept : rewritten none (quote :: (content ++ [quote]) ++ s) =
      quote :: (content ++ [quote]) ++ rewritten none s := by
    rw [List.cons_append, List.append_assoc, List.singleton_append,
      rewritten_cons (by rw [other, Bool.and_false]), quoteAfter, if_pos opens,
      rewritten_content closes, List.cons_append, List.append_assoc, List.singleton_append]
  cases inside with
  | false => exact kept
  | true =>
    rw [rewrittenFrom, if_pos rfl, Text.takeWhile_eq_nil ends, Text.dropWhile_eq_self ends]
    exact kept

/-- Inside a word everything is kept. -/
theorem rewrittenFrom_true {run : List Char} (parts : ∀ c ∈ run, isWordRest c = true)
    (s : List Char) : rewrittenFrom true (run ++ s) = run ++ rewrittenFrom true s := by
  rw [rewrittenFrom, if_pos rfl, List.takeWhile_append_of_pos parts,
    List.dropWhile_append_of_pos parts, List.append_assoc]
  rfl

theorem wordOperator_of_colon {word : List Char} (h : ':' ∈ word) (rest : List Char) :
    wordOperator word rest = word := by
  have other {name : List Char} (hname : ':' ∉ name) : word ≠ name := fun same =>
    hname (same ▸ h)
  rw [wordOperator, if_neg (other (by decide)), if_neg (other (by decide)), ite_self]

/-- A name is rewritten with the word it starts. -/
theorem rewrittenFrom_name {c : Char} {run : List Char} (starts : isNameStart c = true)
    (parts : ∀ d ∈ run, isWordRest d = true) (s : List Char) :
    rewrittenFrom false (c :: run ++ s) =
      wordOperator (c :: run ++ s.takeWhile isWordRest) (s.dropWhile isWordRest) ++
        rewritten none (s.dropWhile isWordRest) := by
  rw [rewrittenFrom, if_neg Bool.false_ne_true, List.cons_append, rewritten_word starts,
    List.takeWhile_append_of_pos parts, List.dropWhile_append_of_pos parts, List.cons_append]

/-- A name that is a word. -/
theorem rewrittenFrom_word {c : Char} {run s : List Char} (starts : isNameStart c = true)
    (parts : ∀ d ∈ run, isWordRest d = true) (ends : s.head?.any isWordRest = false) :
    rewrittenFrom false (c :: run ++ s) = wordOperator (c :: run) s ++ rewrittenFrom true s := by
  rw [rewrittenFrom_name starts parts, rewrittenFrom, if_pos rfl, Text.takeWhile_eq_nil ends,
    Text.dropWhile_eq_self ends, List.append_nil, List.nil_append]

/-- A name that is a part of a longer word. -/
theorem rewrittenFrom_part {c : Char} {run s : List Char} (starts : isNameStart c = true)
    (parts : ∀ d ∈ run, isWordRest d = true) (colon : ':' ∈ run ++ s.takeWhile isWordRest) :
    rewrittenFrom false (c :: run ++ s) = c :: run ++ rewrittenFrom true s := by
  have longer : ':' ∈ c :: run ++ s.takeWhile isWordRest := List.mem_cons_of_mem c colon
  rw [rewrittenFrom_name starts parts, wordOperator_of_colon longer, List.append_assoc,
    rewrittenFrom, if_pos rfl]

/-! ### What comes next -/

/-- The rewriting puts nothing in front of what follows but an operator. -/
theorem head?_rewritten (s : List Char) :
    (rewritten none s).head? = s.head? ∨ (rewritten none s).head? = some '&' ∨
      (rewritten none s).head? = some '|' := by
  cases s with
  | nil => exact .inl rfl
  | cons c s =>
    cases starts : isNameStart c with
    | false =>
      rw [rewritten_cons (by rw [starts, Bool.and_false])]
      exact .inl rfl
    | true =>
      rw [rewritten_word starts, wordOperator]
      split
      · exact .inl rfl
      split
      · exact .inr (.inl rfl)
      split
      · exact .inr (.inr rfl)
      · exact .inl rfl

theorem head?_rewrittenFrom (inside : Bool) (s : List Char) :
    (rewrittenFrom inside s).head? = s.head? ∨ (rewrittenFrom inside s).head? = some '&' ∨
      (rewrittenFrom inside s).head? = some '|' := by
  cases inside with
  | false => exact head?_rewritten s
  | true =>
    rw [rewrittenFrom, if_pos rfl]
    cases hs : s.takeWhile isWordRest with
    | nil =>
      have whole := List.takeWhile_append_dropWhile (p := isWordRest) (l := s)
      rw [hs, List.nil_append] at whole
      rw [whole, List.nil_append]
      exact head?_rewritten s
    | cons c run =>
      have whole := List.takeWhile_append_dropWhile (p := isWordRest) (l := s)
      rw [hs] at whole
      rw [← whole]
      exact .inl rfl

theorem head?_any_rewrittenFrom {p : Char → Bool} (inside : Bool) {s : List Char}
    (conjunction : p '&' = false) (disjunction : p '|' = false) (h : s.head?.any p = false) :
    (rewrittenFrom inside s).head?.any p = false := by
  rcases head?_rewrittenFrom inside s with same | same | same
  · rwa [same]
  · rwa [same]
  · rwa [same]

theorem head?_rewrittenFrom_ne {c : Char} (inside : Bool) {s : List Char} (conjunction : c ≠ '&')
    (disjunction : c ≠ '|') (h : s.head? ≠ some c) : (rewrittenFrom inside s).head? ≠ some c := by
  rcases head?_rewrittenFrom inside s with same | same | same
  · rwa [same]
  · rw [same]
    exact fun hc => conjunction (Option.some_inj.mp hc).symm
  · rw [same]
    exact fun hc => disjunction (Option.some_inj.mp hc).symm

theorem takeWhile_rewrittenFrom_true (s : List Char) :
    (rewrittenFrom true s).takeWhile isWordRest = s.takeWhile isWordRest := by
  have ends : (rewritten none (s.dropWhile isWordRest)).head?.any isWordRest = false :=
    head?_any_rewrittenFrom false rfl rfl (Text.head?_any_dropWhile isWordRest s)
  rw [rewrittenFrom, if_pos rfl]
  exact Text.takeWhile_run (fun c => List.mem_takeWhile_imp) ends

/-! ## One token -/

theorem asOperator_of_mem_symbols {t : Token} {spelling : List Char}
    (h : (t, spelling) ∈ Token.symbols) : t.asOperator = t := by
  have all : ∀ entry ∈ Token.symbols, entry.1.asOperator = entry.1 := by decide
  exact all _ h

theorem asOperator_of_ne {t : Token} (conjunction : t ≠ .name "and")
    (disjunction : t ≠ .name "or") : t.asOperator = t := by
  rw [Token.asOperator, if_neg conjunction, if_neg disjunction]

theorem asOperator_number (x : Float) : (Token.number x).asOperator = .number x :=
  asOperator_of_ne (by nofun) (by nofun)

theorem asOperator_text (s : String) : (Token.text s).asOperator = .text s :=
  asOperator_of_ne (by nofun) (by nofun)

/-- What is written for a name that is a word is spelled like the token that it becomes. -/
theorem lexeme_wordOperator {spelling rest rest' : List Char}
    (kept : Lexeme (.name (String.ofList spelling)) spelling rest') :
    Lexeme
      (if (Text.trimStart rest).head? = some '(' then .name (String.ofList spelling)
        else Token.asOperator (.name (String.ofList spelling)))
      (wordOperator spelling rest) rest' := by
  rw [wordOperator]
  split
  case isTrue => exact kept
  by_cases conjunction : spelling = "and".toList
  · subst conjunction
    exact .symbol (by decide) fun extended => absurd extended (by decide)
  by_cases disjunction : spelling = "or".toList
  · subst disjunction
    exact .symbol (by decide) fun extended => absurd extended (by decide)
  have other {word : String} (h : spelling ≠ word.toList) :
      Token.name (String.ofList spelling) ≠ .name word := by
    intro same
    cases same
    exact h (String.toList_ofList).symm
  rw [if_neg conjunction, if_neg disjunction,
    asOperator_of_ne (other conjunction) (other disjunction)]
  exact kept

/-- Behind a name that the word does not end with stands a colon. -/
theorem head?_of_longer {s : List Char} (ends : s.head?.any isNameRest = false)
    (longer : s.head?.any isWordRest = true) : s.head? = some ':' := by
  cases s with
  | nil => cases longer
  | cons c s =>
    have rest : isNameRest c = false := ends
    have word : isWordRest c = true := longer
    rw [isWordRest, rest, Bool.false_or, beq_iff_eq] at word
    rw [word, List.head?_cons]

theorem plain_of_isNumberPart {c : Char} (h : isNumberPart c = true) :
    isNameStart c = false ∧ isQuote c = false := by
  refine ⟨Bool.eq_false_iff.mpr fun starts => ?_, Bool.eq_false_iff.mpr fun quote => ?_⟩
  · rw [Token.isNumberPart_of_isNameStart starts] at h
    cases h
  · rw [isQuote, Bool.or_eq_true, beq_iff_eq, beq_iff_eq] at quote
    rcases quote with rfl | rfl <;> exact absurd h (by decide)

theorem plain_of_mem_symbols {t : Token} {spelling : List Char}
    (h : (t, spelling) ∈ Token.symbols) :
    ∀ c ∈ spelling, isNameStart c = false ∧ isQuote c = false := by
  have all : ∀ entry ∈ Token.symbols,
      entry.2.all (fun c => !isNameStart c && !isQuote c) = true := by decide
  simpa using all _ h

/-- A name that is a part of a longer word runs on, and it is kept. -/
theorem rewrittenFrom_of_longer {c : Char} {word statistic rest before : List Char}
    (starts : isNameStart c = true) (parts : ∀ d ∈ word, isNameRest d = true)
    (ends : (statistic ++ rest).head?.any isNameRest = false)
    (inside : ∀ d ∈ word ++ statistic, isWordRest d = true)
    (longer : endsInWord before = true ∨ rest.head?.any isWordRest = true) :
    runsOn (before ++ (c :: (word ++ statistic) ++ rest)) (Text.byteLength before) = true ∧
      rewrittenFrom (endsInWord before) (c :: (word ++ statistic) ++ rest) =
        c :: (word ++ statistic) ++ rewrittenFrom true rest := by
  have letter : isNameRest c = true := Token.isNameRest_of_isNameStart starts
  have all : ∀ d ∈ c :: (word ++ statistic), isWordRest d = true := by
    rw [List.forall_mem_cons]
    exact ⟨Token.isWordRest_of_isNameRest letter, inside⟩
  rw [runsOn, atByte_append]
  cases state : endsInWord before with
  | true => exact ⟨Bool.true_or _, rewrittenFrom_true all rest⟩
  | false =>
    rw [state] at longer
    have on : (statistic ++ rest).head?.any isWordRest = true := by
      cases statistic with
      | nil => exact longer.resolve_left Bool.false_ne_true
      | cons d more => exact inside d (List.mem_append_right word List.mem_cons_self)
    have next : (statistic ++ rest).head? = some ':' := head?_of_longer ends on
    have colon : ':' ∈ statistic ++ rest.takeWhile isWordRest := by
      obtain ⟨more, hmore⟩ := List.head?_eq_some_iff.mp next
      rw [← List.takeWhile_append_of_pos fun d hd => inside d (List.mem_append_right word hd),
        hmore, List.takeWhile_cons_of_pos rfl]
      exact List.mem_cons_self
    refine ⟨?_, rewrittenFrom_part starts inside ?_⟩
    · have names : ∀ d ∈ c :: word, isNameRest d = true := List.forall_mem_cons.mpr ⟨letter, parts⟩
      rw [← List.cons_append, List.append_assoc, Text.dropWhile_run names ends, next]
      rfl
    · rw [List.append_assoc]
      exact List.mem_append_right word colon

/-- One token of a condition is rewritten to the token it becomes. -/
theorem Token.Lexeme.rewriting {t : Token} {spelling rest : List Char}
    (front : Lexeme t spelling rest) (before : List Char)
    (clear : t = .name "and" ∨ t = .name "or" →
      runsOn (before ++ (spelling ++ rest)) (Text.byteLength before) = false) :
    ∃ spelling',
      rewrittenFrom (endsInWord before) (spelling ++ rest) =
          spelling' ++ rewrittenFrom (endsInWord (before ++ spelling)) rest ∧
        Lexeme (if (Text.trimStart rest).head? = some '(' then t else t.asOperator) spelling'
          (rewrittenFrom (endsInWord (before ++ spelling)) rest) := by
  rw [endsInWord_append]
  cases front with
  | number nonempty parts ends spelled =>
    rw [asOperator_number, ite_self]
    exact ⟨spelling, rewrittenFrom_run (fun c hc => plain_of_isNumberPart (parts c hc)) _ rest,
      .number nonempty parts (head?_any_rewrittenFrom _ rfl rfl ends) spelled⟩
  | @text quote content _ opens closes =>
    have ends : (quote :: (content ++ [quote])).foldl goesOn (endsInWord before) = false := by
      rw [List.foldl_cons, List.foldl_append, List.foldl_cons, List.foldl_nil, goesOn]
      rcases opens with rfl | rfl <;> rfl
    rw [asOperator_text, ite_self, ends]
    exact ⟨_, rewrittenFrom_text opens closes _ rest, .text opens closes⟩
  | @name c word statistic _ starts parts ends longest =>
    obtain ⟨first, inside⟩ :=
      List.forall_mem_cons.mp (Token.isWordRest_of_mem_name starts parts longest)
    have behind : (c :: (word ++ statistic)).foldl goesOn (endsInWord before) = true := by
      rw [List.foldl_cons, goesOn, first, starts, Bool.true_or, Bool.and_self,
        foldl_goesOn_true inside]
    have kept : Lexeme (.name (String.ofList (c :: (word ++ statistic)))) (c :: (word ++ statistic))
        (rewrittenFrom true rest) :=
      .name_of_takeWhile starts parts ends longest (takeWhile_rewrittenFrom_true rest)
    rw [behind]
    by_cases alone : endsInWord before = false ∧ rest.head?.any isWordRest = false
    · rw [alone.1]
      exact ⟨_, rewrittenFrom_word starts inside alone.2, lexeme_wordOperator kept⟩
    · have longer : endsInWord before = true ∨ rest.head?.any isWordRest = true := by
        rwa [not_and_or, Bool.not_eq_false, Bool.not_eq_false] at alone
      obtain ⟨on, same⟩ := rewrittenFrom_of_longer starts parts ends inside longer
      have other := mt clear (Bool.not_eq_false _ ▸ on)
      rw [not_or] at other
      rw [asOperator_of_ne other.1 other.2, ite_self]
      exact ⟨_, same, kept⟩
  | symbol listed ends =>
    rw [asOperator_of_mem_symbols listed, ite_self]
    exact ⟨_, rewrittenFrom_run (plain_of_mem_symbols listed) _ rest, .symbol listed
      fun extended => head?_rewrittenFrom_ne _ (by decide) (by decide) (ends extended)⟩

/-! ## All tokens -/

theorem leftParen_of_symbols {t : Token} {spelling : List Char}
    (h : (t, spelling) ∈ Token.symbols) : spelling.head? = some '(' ↔ t = .leftParen := by
  have all : ∀ entry ∈ Token.symbols, entry.2.head? = some '(' ↔ entry.1 = .leftParen := by
    decide
  exact all _ h

theorem Token.Lexeme.leftParen {t : Token} {spelling rest : List Char}
    (front : Lexeme t spelling rest) : spelling.head? = some '(' ↔ t = .leftParen := by
  cases front with
  | number nonempty parts =>
    refine iff_of_false (fun h => ?_) (by nofun)
    obtain ⟨behind, rfl⟩ := List.head?_eq_some_iff.mp h
    exact absurd (parts '(' List.mem_cons_self) (by decide)
  | text opens =>
    refine iff_of_false (fun h => ?_) (by nofun)
    cases h
    exact absurd opens (by decide)
  | name starts =>
    refine iff_of_false (fun h => ?_) (by nofun)
    cases h
    exact absurd starts (by decide)
  | symbol listed => exact leftParen_of_symbols listed

/-- A parenthesis behind blanks is the next token. -/
theorem Token.Lexes.leftParen {offset : Nat} {s : List Char} {tokens : List Placed}
    (h : Lexes offset s tokens) :
    (Text.trimStart s).head? = some '(' ↔ (tokens.map Placed.token).head? = some .leftParen := by
  induction h with
  | nil => exact iff_of_false (by nofun) (by nofun)
  | space separates _ ih =>
    rw [Text.trimStart, List.dropWhile_cons_of_pos (Token.isBlank_of_isSpace separates)]
    exact ih
  | token front _ _ =>
    have paren := front.leftParen
    obtain ⟨c, behind, rfl, visible⟩ := front.head
    rw [Text.trimStart, List.cons_append,
      List.dropWhile_cons_of_neg (Bool.not_eq_true _ ▸ visible), List.map_cons, List.head?_cons,
      List.head?_cons, Option.some_inj (a := _) (b := Token.leftParen), ← paren]
    rfl

/-- The tokens of a condition that is rewritten from some character on. -/
theorem Token.Lexes.rewriting {s source : List Char} {tokens : List Placed} (before : List Char)
    (h : Lexes (Text.byteLength before) s tokens) (whole : source = before ++ s)
    (clear : ∀ p ∈ tokens, p.token = .name "and" ∨ p.token = .name "or" →
      runsOn source p.offset = false) (offset : Nat) :
    ∃ tokens', Lexes offset (rewrittenFrom (endsInWord before) s) tokens' ∧
      tokens'.map Placed.token = withOperators (tokens.map Placed.token) := by
  generalize start : Text.byteLength before = place at h
  -- What was read moves into `before`, which is all that the rewriting and `runsOn` know of it.
  induction h generalizing before offset with
  | nil =>
    refine ⟨[], ?_, rfl⟩
    cases endsInWord before <;> exact .nil
  | @space place c rest tokens separates _ ih =>
    obtain ⟨letter, quote⟩ := Token.plain_of_isSpace separates
    have next : Text.byteLength (before ++ [c]) = place + 1 := by
      rw [Text.byteLength_append, start, Text.byteLength, Token.utf8Size_of_isSpace separates]
      rfl
    obtain ⟨tokens', behind, same⟩ :=
      ih (before ++ [c]) (by rw [whole, List.append_cons]) clear (offset + 1) next
    refine ⟨tokens', ?_, same⟩
    rw [rewrittenFrom_cons letter quote, ← endsInWord_concat]
    exact .space separates behind
  | @token place t spelling rest tokens front behind ih =>
    obtain ⟨clear, clear'⟩ := List.forall_mem_cons.mp clear
    rw [whole, ← start] at clear
    obtain ⟨spelling', written, front'⟩ := front.rewriting before clear
    have next : Text.byteLength (before ++ spelling) = place + Text.byteLength spelling := by
      rw [Text.byteLength_append, start]
    obtain ⟨tokens', behind', same⟩ := ih (before ++ spelling) (by rw [whole, List.append_assoc])
      clear' (offset + Text.byteLength spelling') next
    rw [written]
    refine ⟨_, .token front' behind', ?_⟩
    rw [List.map_cons, List.map_cons, withOperators, same]
    simp only [behind.leftParen]

/-- The tokens of a condition whose words were rewritten. -/
theorem lexes_symbolic {condition : List Char} {tokens : List Placed}
    (h : Token.tokenize condition = .ok tokens)
    (clear : ∀ p ∈ tokens, p.token = .name "and" ∨ p.token = .name "or" →
      runsOn condition p.offset = false) (offset : Nat) :
    ∃ tokens', Lexes offset (symbolic condition) tokens' ∧
      tokens'.map Placed.token = withOperators (tokens.map Placed.token) :=
  Token.Lexes.rewriting [] (Token.tokenize_eq_ok_iff.mp h) rfl clear offset

end IncrementalGame.Formula
