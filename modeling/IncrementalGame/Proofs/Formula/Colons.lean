import IncrementalGame.Proofs.Formula.Statistics
import IncrementalGame.Proofs.Formula.WordOperators

/-!
# The colon of a ternary

A colon behind a name may start a statistic of it.  Whether it does is decided while the tokens are
cut, and nothing is known of ternaries there.

So a ternary needs no blanks around its colon unless the second operand ends with a bare name and
the third one starts with the word of a statistic (`swallowed`).  If they do, the colon belongs to
the name.  The text may still be a formula then, since another colon may follow; but it is never
that of the ternary, because a name has changed and a tree keeps the names of its text
(`Spells.names_eq`).
-/

namespace IncrementalGame.Formula

open Token (Lexes)

namespace Token

/-! ## Blanks around a row of tokens -/

theorem Lexes.eq_nil_of_blank {offset : Nat} {s : List Char} {tokens : List Placed}
    (h : Lexes offset s tokens) (blank : ∀ c ∈ s, Text.isBlank c = true) : tokens = [] := by
  induction h with
  | nil => rfl
  | space _ _ ih => exact ih (List.forall_mem_cons.mp blank).2
  | token front =>
    obtain ⟨c, more, rfl, visible⟩ := front.head
    rw [blank c (List.mem_append_left _ List.mem_cons_self)] at visible
    cases visible

/-- The blanks in front are no part of a token. -/
theorem Lexes.trimStart {offset : Nat} {s : List Char} {tokens : List Placed}
    (h : Lexes offset s tokens) :
    ∃ tokens', Lexes 0 (Text.trimStart s) tokens' ∧
      tokens'.map Placed.token = tokens.map Placed.token := by
  induction h with
  | nil => exact ⟨[], .nil, rfl⟩
  | space separates _ ih =>
    rwa [Text.trimStart, List.dropWhile_cons_of_pos (isBlank_of_isSpace separates)]
  | @token offset t spelling rest tokens front further =>
    have whole := Lexes.token front further
    obtain ⟨c, more, rfl, visible⟩ := front.head
    rw [Text.trimStart, List.cons_append,
      List.dropWhile_cons_of_neg (by rw [visible]; exact Bool.false_ne_true)]
    exact whole.shift 0

theorem exists_blanks (s : List Char) :
    ∃ blanks, s = Text.trimEnd s ++ blanks ∧ ∀ c ∈ blanks, Text.isBlank c = true := by
  refine ⟨(s.reverse.takeWhile Text.isBlank).reverse, ?_, fun c hc => ?_⟩
  · rw [Text.trimEnd, ← List.reverse_append, List.takeWhile_append_dropWhile, List.reverse_reverse]
  · exact List.mem_takeWhile_imp (List.mem_reverse.mp hc)

theorem isBlank_of_isWordRest {c : Char} (h : isWordRest c = true) : Text.isBlank c = false := by
  rw [isWordRest, isNameRest, Bool.or_eq_true, Bool.or_eq_true, beq_iff_eq] at h
  rcases h with (letter | digit) | rfl
  · exact isBlank_of_isNameStart letter
  · exact isBlank_of_isNumberPart (by rw [isNumberPart, digit, Bool.true_or])
  · rfl

theorem separate_of_blank {s : List Char} (blank : ∀ c ∈ s, Text.isBlank c = true) :
    Separate s := by
  cases s with
  | nil => exact ⟨⟨rfl, rfl, nofun⟩, nofun, nofun⟩
  | cons c s =>
    have hc := blank c List.mem_cons_self
    have other {d : Char} (visible : Text.isBlank d = false) : (c :: s).head? ≠ some d := by
      rintro ⟨⟩
      rw [visible] at hc
      cases hc
    refine ⟨⟨?_, ?_, other rfl⟩, other rfl, other rfl⟩
    · refine Bool.eq_false_iff.mpr fun part => ?_
      rw [isBlank_of_isWordRest part] at hc
      cases hc
    · refine Bool.eq_false_iff.mpr fun part => ?_
      rw [isBlank_of_isNumberPart part] at hc
      cases hc

theorem isQuote_of_quoteBehind {quote : Option Char} (h : ∀ q ∈ quote, isQuote q = true)
    (s : List Char) : ∀ q ∈ quoteBehind quote s, isQuote q = true := by
  induction s generalizing quote with
  | nil => exact h
  | cons c s ih =>
    refine ih fun q hq => ?_
    unfold quoteAfter at hq
    split at hq
    · split at hq
      · cases hq
      · exact h q hq
    · split at hq
      case isTrue opens =>
        cases hq
        rcases opens with rfl | rfl <;> rfl
      case isFalse => cases hq

/-- Blanks close no quote. -/
theorem quoteBehind_of_blank {s blanks : List Char}
    (blank : ∀ c ∈ blanks, Text.isBlank c = true)
    (h : quoteBehind none (s ++ blanks) = none) : quoteBehind none s = none := by
  rw [quoteBehind_append] at h
  cases opened : quoteBehind none s with
  | none => rfl
  | some q =>
    have start : ∀ q ∈ (none : Option Char), isQuote q = true := nofun
    have quote := isQuote_of_quoteBehind start s q opened
    have outside : q ∉ blanks := by
      intro inside
      have hq := blank q inside
      rw [isQuote, Bool.or_eq_true, beq_iff_eq, beq_iff_eq] at quote
      rcases quote with rfl | rfl <;> cases hq
    rw [opened, quoteBehind_content outside] at h
    cases h

/-- The blanks behind are no part of a token. -/
theorem Lexes.trimEnd {offset : Nat} {s : List Char} {tokens : List Placed}
    (h : Lexes offset s tokens) : Lexes offset (Text.trimEnd s) tokens := by
  obtain ⟨blanks, whole, blank⟩ := exists_blanks s
  rw [whole] at h
  obtain ⟨front, behind, rfl, hfront, hbehind⟩ :=
    h.split (quoteBehind_of_blank blank h.quoteBehind) (separate_of_blank blank)
  rwa [hbehind.eq_nil_of_blank blank, List.append_nil]

end Token

/-! ## The names of a tree -/

/-- The name that a token is. -/
def Token.name? : Token → Option String
  | name s => some s
  | _ => none

theorem Insertion.names_eq {ts us : List Token} (h : Insertion ts us) :
    us.filterMap Token.name? = ts.filterMap Token.name? := by
  cases h <;> simp [Token.name?, List.filterMap_cons]

/-- **A tree keeps the names** of what it is spelled with. -/
theorem Spells.names_eq {depth level : Nat} {e : Expr} {ts : List Token}
    (h : Spells depth level e ts) : ts.filterMap Token.name? = e.flat.filterMap Token.name? := by
  have nothing : ¬EndsTree [] := fun ⟨_, last, _⟩ => absurd last (by simp)
  have fills := h.fills [] [] nothing
  simp only [List.nil_append, List.append_nil] at fills
  clear h
  induction fills with
  | refl => rfl
  | tail _ insertion ih => rw [insertion.names_eq, ih]

/-! ## Ternaries -/

/-- A ternary with a blank on either side of its colon. -/
def spacedTernary (a b c : List Char) : String :=
  String.ofList (a ++ " ? ".toList ++ b ++ " : ".toList ++ c)

/-- A ternary with no blank on either side of its colon. -/
def closeTernary (a b c : List Char) : String :=
  String.ofList (a ++ " ? ".toList ++ b ++ ":".toList ++ c)

/-- Whether the colon between two texts, of which the first one consists of some tokens, belongs to
the name with which the first one ends. -/
def swallowed (b : List Char) (tokens : List Placed) (c : List Char) : Bool :=
  Token.endsInName (Text.byteLength b) tokens && Token.statisticOf (':' :: c) != []

section

variable {a b c : List Char} {us vs ws : List Placed}

/-- The text of both kinds of ternaries, as it is taken apart here. -/
def ternaryText (a b c : List Char) : List Char := a ++ " ?".toList ++ ' ' :: (b ++ ':' :: c)

theorem toList_closeTernary (a b c : List Char) :
    (closeTernary a b c).toList = ternaryText a b c := by
  simp [closeTernary, ternaryText]

theorem toList_spacedTernary (a b c : List Char) :
    (spacedTernary a b c).toList = ternaryText a (b ++ [' ']) (' ' :: c) := by
  simp [spacedTernary, ternaryText]

theorem trimStart_append {s : List Char} (visible : Text.trimStart s ≠ []) (t : List Char) :
    Text.trimStart (s ++ t) = Text.trimStart s ++ t := by
  rw [Text.trimStart] at visible
  rw [Text.trimStart, List.dropWhile_append, if_neg (by simpa using visible)]
  rfl

theorem trimStart_question (a : List Char) : Text.trimStart (a ++ " ?".toList) ≠ [] := by
  have close : '?' ∈ a ++ " ?".toList := List.mem_append_right a (by decide)
  obtain ⟨d, hd⟩ := exists_head?_trimStart close rfl
  rintro nothing
  rw [nothing] at hd
  cases hd

theorem trim_ternaryText (a b c : List Char) :
    Text.trim (ternaryText a b c) =
      Text.trimStart (a ++ " ?".toList) ++ ' ' :: (b ++ ':' :: Text.trimEnd c) := by
  rw [Text.trim, ternaryText, trimStart_append (trimStart_question a), ← List.cons_append,
    ← List.append_assoc, trimEnd_append rfl, List.append_assoc, List.cons_append]

/-- A word in front of a blank starts a conditional formula just if it is `if`. -/
theorem stripStart_ifWord_append {word : List Char} {d : Char}
    (plain : Text.stripStart ifWord word = none) (blank : Text.isBlank d = true) (t : List Char) :
    Text.stripStart ifWord (word ++ d :: t) =
      if word = "if".toList ∧ d = ' ' then some t else none := by
  have other {x : Char} (visible : Text.isBlank x = false) : x ≠ d := by
    rintro rfl
    rw [blank] at visible
    cases visible
  have hi : 'i' ≠ d := other rfl
  have hf : 'f' ≠ d := other rfl
  simp only [Text.stripStart, ifWord] at plain ⊢
  rcases word with _ | ⟨x, _ | ⟨y, _ | ⟨z, more⟩⟩⟩
  · simp [hi]
  · simp [hf]
  · by_cases conditional : x = 'i' ∧ y = 'f' ∧ d = ' '
    · obtain ⟨rfl, rfl, rfl⟩ := conditional
      rfl
    · have front : ¬ ('i' = x ∧ 'f' = y ∧ ' ' = d) := by
        rintro ⟨hx, hy, hd⟩
        exact conditional ⟨hx.symm, hy.symm, hd.symm⟩
      simpa [and_assoc, conditional] using front
  · simpa using plain

/-- A condition that is no conditional formula makes no conditional formula of the ternary, unless
it is the word itself; and then the ternary is refused. -/
theorem desugar_question (plain : Text.stripStart ifWord (Text.trim a) = none) :
    (∀ b c, desugar (ternaryText a b c) = .ok (Text.trim (ternaryText a b c))) ∨
      Text.trim a = "if".toList ∧ ∀ b c text, desugar (ternaryText a b c) ≠ .ok text := by
  by_cases nothing : Text.trimStart a = []
  · have front : Text.trimStart (a ++ " ?".toList) = ['?'] := by
      rw [Text.trimStart] at nothing
      rw [Text.trimStart, List.dropWhile_append, nothing]
      rfl
    refine .inl fun b c => ?_
    rw [desugar, trim_ternaryText, front]
    rfl
  -- The condition is a word, blanks and the question mark.
  obtain ⟨blanks, whole, blank⟩ := Token.exists_blanks (Text.trimStart a)
  rw [← Text.trim] at whole
  obtain ⟨d, gap, hgap⟩ : ∃ d gap, blanks ++ [' '] = d :: gap :=
    List.exists_cons_of_ne_nil (by simp)
  have hblank : ∀ c ∈ d :: gap, Text.isBlank c = true := by
    rw [← hgap, List.forall_mem_append]
    exact ⟨blank, List.forall_mem_singleton.mpr rfl⟩
  have parts (b c : List Char) : Text.trim (ternaryText a b c) =
      Text.trim a ++ d :: (gap ++ '?' :: ' ' :: (b ++ ':' :: Text.trimEnd c)) := by
    rw [trim_ternaryText, trimStart_append nothing, whole, ← List.cons_append (a := d), ← hgap]
    simp
  have strip (b c : List Char) := stripStart_ifWord_append plain (hblank d List.mem_cons_self)
    (gap ++ '?' :: ' ' :: (b ++ ':' :: Text.trimEnd c))
  by_cases conditional : Text.trim a = "if".toList ∧ d = ' '
  · refine .inr ⟨conditional.1, fun b c text => ?_⟩
    have question : Text.trimStart (gap ++ '?' :: ' ' :: (b ++ ':' :: Text.trimEnd c)) =
        '?' :: ' ' :: (b ++ ':' :: Text.trimEnd c) :=
      Text.dropWhile_run (List.forall_mem_cons.mp hblank).2 rfl
    rw [desugar, parts, strip, if_pos conditional]
    simp only [question, desugarBody, List.head?_cons]
    rw [if_pos (by decide)]
    intro h
    cases h
  · refine .inl fun b c => ?_
    simp only [desugar, parts, strip, if_neg conditional]

/-- The tokens of a condition and the question mark behind it. -/
theorem exists_lexes_question (ha : Lexes 0 a us) :
    ∃ front, Lexes 0 (Text.trimStart (a ++ " ?".toList)) front ∧
      front.map Placed.token = us.map Placed.token ++ [.question] := by
  have question : Lexes (0 + Text.byteLength a) (' ' :: ("?".toList ++ []))
      [⟨.question, 0 + Text.byteLength a + 1⟩] :=
    .space rfl (.token (.symbol (by decide) (absurd · (by decide))) .nil)
  obtain ⟨front, hfront, same⟩ := (ha.append ⟨rfl, rfl, by simp⟩ question).trimStart
  exact ⟨front, hfront, by rw [same, List.map_append]; rfl⟩

/-- The tree of a ternary is spelled by the tokens of its condition and those of its operands. -/
theorem parseText_ternaryText_iff (ha : Lexes 0 a us) {e : Expr} :
    parseText (Text.trim (ternaryText a b c)) = .ok e ↔
      ∃ offset rest, Lexes offset (b ++ ':' :: Text.trimEnd c) rest ∧
        us.length + rest.length < maxTokens ∧
        Spells maxDepth 0 e (us.map Placed.token ++ .question :: rest.map Placed.token) := by
  obtain ⟨front, hfront, same⟩ := exists_lexes_question ha
  have count := congrArg List.length same
  rw [List.length_append, List.length_map, List.length_map, List.length_singleton] at count
  have row (rest : List Placed) : (front ++ rest).map Placed.token =
      us.map Placed.token ++ .question :: rest.map Placed.token := by
    rw [List.map_append, same, List.append_assoc, List.singleton_append]
  have blank {s : List Char} : Token.Separate (' ' :: s) :=
    ⟨⟨rfl, rfl, by simp⟩, by simp, by simp⟩
  rw [trim_ternaryText, parseText_eq_ok_iff]
  constructor
  · rintro ⟨tokens, htokens, short, spelled⟩
    obtain ⟨first, rest, rfl, hfirst, hrest⟩ := htokens.split hfront.quoteBehind blank
    have map := hfirst.map_token_eq hfront
    have length := congrArg List.length map
    rw [List.length_map, List.length_map] at length
    rw [List.map_append, map, ← List.map_append, row] at spelled
    rw [List.length_append] at short
    exact ⟨_, rest, hrest.of_space rfl, by omega, spelled⟩
  · rintro ⟨offset, rest, hrest, short, spelled⟩
    obtain ⟨rest', hrest', map⟩ := hrest.shift (0 + Text.byteLength _ + 1)
    have length := congrArg List.length map
    rw [List.length_map, List.length_map] at length
    refine ⟨front ++ rest', hfront.append blank.toApart (.space rfl hrest'), ?_, ?_⟩
    · rw [List.length_append]
      omega
    · rwa [row, map]

theorem exists_lexes_colon (hc : Lexes 0 c ws) (offset : Nat) :
    ∃ rest, Lexes offset (':' :: Text.trimEnd c) rest ∧
      rest.map Placed.token = .colon :: ws.map Placed.token := by
  obtain ⟨rest, hrest, same⟩ := hc.trimEnd.shift (offset + Text.byteLength ":".toList)
  have colon : Token.Lexeme .colon ":".toList (Text.trimEnd c) :=
    .symbol (by decide) (absurd · (by decide))
  exact ⟨⟨.colon, offset⟩ :: rest, .token colon hrest, congrArg _ same⟩

/-- The operands of a ternary with blanks. -/
theorem exists_lexes_spaced (hb : Lexes 0 b vs) (hc : Lexes 0 c ws) :
    ∃ rest, Lexes 0 (b ++ [' '] ++ ':' :: Text.trimEnd (' ' :: c)) rest ∧
      rest.map Placed.token = vs.map Placed.token ++ .colon :: ws.map Placed.token := by
  obtain ⟨ws', hws', same⟩ := hc.shift 1
  obtain ⟨rest, hrest, map⟩ := exists_lexes_colon (Lexes.space rfl hws' : Lexes 0 (' ' :: c) ws')
    (0 + Text.byteLength b + 1)
  have apart : Token.Apart (' ' :: ':' :: Text.trimEnd (' ' :: c)) := ⟨rfl, rfl, by simp⟩
  have whole := hb.append apart (.space rfl hrest)
  refine ⟨vs ++ rest, ?_, ?_⟩
  · rwa [List.append_assoc]
  · rw [List.map_append, map, same]

theorem takeWhile_trimEnd (s : List Char) :
    (Text.trimEnd s).takeWhile Token.isNameRest = s.takeWhile Token.isNameRest := by
  obtain ⟨blanks, whole, blank⟩ := Token.exists_blanks s
  have ends : blanks.head?.any Token.isNameRest = false := by
    cases blanks with
    | nil => rfl
    | cons c blanks =>
      refine Bool.eq_false_iff.mpr fun part => ?_
      have visible := Token.isBlank_of_isWordRest (Token.isWordRest_of_isNameRest part)
      rw [blank c List.mem_cons_self] at visible
      cases visible
  conv_rhs => rw [whole, Text.takeWhile_append_eq ends]

/-- The operands of a ternary without blanks, if the colon is left alone. -/
theorem exists_lexes_close (hb : Lexes 0 b vs) (hc : Lexes 0 c ws)
    (alone : swallowed b vs c = false) :
    ∃ rest, Lexes 0 (b ++ ':' :: Text.trimEnd c) rest ∧
      rest.map Placed.token = vs.map Placed.token ++ .colon :: ws.map Placed.token := by
  obtain ⟨rest, hrest, map⟩ := exists_lexes_colon hc (0 + Text.byteLength b)
  refine ⟨vs ++ rest, hb.append_colon (fun ends => ?_) hrest, ?_⟩
  · rw [Nat.zero_add] at ends
    rw [swallowed, ends, Bool.true_and, bne_eq_false_iff_eq] at alone
    rw [Token.statisticOf_cons _ (takeWhile_trimEnd c), alone]
  · rw [List.map_append, map]

/-- The tree of a ternary whose operands consist of known tokens. -/
theorem parse_ternaryText_iff {text : String} {offset : Nat} {rest : List Placed} {e : Expr}
    (ha : Lexes 0 a us)
    (desugared : ∀ b c, desugar (ternaryText a b c) = .ok (Text.trim (ternaryText a b c)))
    (h : text.toList = ternaryText a b c)
    (hrest : Lexes offset (b ++ ':' :: Text.trimEnd c) rest) :
    parse text = .ok e ↔ us.length + rest.length < maxTokens ∧
      Spells maxDepth 0 e (us.map Placed.token ++ .question :: rest.map Placed.token) := by
  simp only [parse_eq_ok_iff, h, desugared, Except.ok.injEq, exists_eq_left']
  rw [parseText_ternaryText_iff ha]
  constructor
  · rintro ⟨offset', rest', hrest', short, spelled⟩
    have map := hrest'.map_token_eq hrest
    have length := congrArg List.length map
    rw [List.length_map, List.length_map] at length
    exact ⟨length ▸ short, map ▸ spelled⟩
  · rintro ⟨short, spelled⟩
    exact ⟨offset, rest, hrest, short, spelled⟩

/-- A swallowed colon changes a name. -/
theorem names_ne_of_swallowed {offset : Nat} {rest : List Placed} (hb : Lexes 0 b vs)
    (hrest : Lexes offset (b ++ ':' :: Text.trimEnd c) rest) (h : swallowed b vs c = true) :
    (rest.map Placed.token).filterMap Token.name? ≠
      (vs.map Placed.token ++ .colon :: ws.map Placed.token).filterMap Token.name? := by
  obtain ⟨ends, statistic⟩ := (Bool.and_eq_true _ _).mp h
  obtain ⟨rest', hrest', same⟩ := hrest.shift 0
  rw [← Nat.zero_add (Text.byteLength b)] at ends
  obtain ⟨front, name, _, behind, rfl, rfl⟩ := hb.swallow ends hrest'
  rw [Token.statisticOf_cons _ (takeWhile_trimEnd c)] at same
  intro names
  rw [← same] at names
  simp only [List.map_append, List.map_cons, List.filterMap_append, List.filterMap_cons,
    Token.name?, List.map_nil, List.append_assoc, List.append_cancel_left_eq, List.cons_append,
    List.nil_append, List.cons.injEq] at names
  have longer := String.ofList_injective names.1
  rw [List.append_right_eq_self] at longer
  rw [longer] at statistic
  cases statistic

/-- So the ternary is not what is read. -/
theorem parse_ne_of_swallowed {e : Expr} (ha : Lexes 0 a us) (hb : Lexes 0 b vs)
    (desugared : ∀ b c, desugar (ternaryText a b c) = .ok (Text.trim (ternaryText a b c)))
    (h : swallowed b vs c = true)
    (spelled : Spells maxDepth 0 e (us.map Placed.token ++
      .question :: (vs.map Placed.token ++ .colon :: ws.map Placed.token))) :
    parse (closeTernary a b c) ≠ .ok e := by
  intro accepted
  simp only [parse_eq_ok_iff, toList_closeTernary, desugared, Except.ok.injEq,
    exists_eq_left'] at accepted
  obtain ⟨offset, rest, hrest, -, spelled'⟩ := (parseText_ternaryText_iff ha).mp accepted
  have names := spelled'.names_eq.trans spelled.names_eq.symm
  rw [List.filterMap_append, List.filterMap_append, List.append_cancel_left_eq] at names
  exact names_ne_of_swallowed hb hrest h names

end

/-- **A ternary needs no blanks around its colon** just if the colon is not swallowed.  With blanks
its tree is put together from those of its parts; so it is without them, unless the colon is
swallowed, and then it never is. -/
theorem parse_closeTernary {a b c : List Char} {us vs ws : List Placed}
    (ha : Token.tokenize a = .ok us) (hb : Token.tokenize b = .ok vs)
    (hc : Token.tokenize c = .ok ws) (plain : Text.stripStart ifWord (Text.trim a) = none) :
    (∀ e, parse (spacedTernary a b c) = .ok e →
      (parse (closeTernary a b c) = .ok e ↔ swallowed b vs c = false)) ∧
    (swallowed b vs c = false → ∀ e, parse (closeTernary a b c) = .ok e →
      parse (spacedTernary a b c) = .ok e) ∧
    ∀ depth x y z, Spells depth 1 x (us.map Placed.token) →
      Spells depth 0 y (vs.map Placed.token) → Spells depth 0 z (ws.map Placed.token) →
      (∀ e, parse (spacedTernary a b c) = .ok e → e = .ternary x y z) ∧
      (depth < maxDepth → us.length + vs.length + ws.length + 2 ≤ maxTokens →
        Text.trim a ≠ "if".toList → parse (spacedTernary a b c) = .ok (.ternary x y z)) := by
  rw [Token.tokenize_eq_ok_iff] at ha hb hc
  rcases desugar_question plain with desugared | ⟨condition, refused⟩
  case inr =>
    have refused {text : String} {b c : List Char} (h : text.toList = ternaryText a b c)
        (e : Expr) : parse text ≠ .ok e := by
      rw [ne_eq, parse_eq_ok_iff, h]
      rintro ⟨text, desugared, -⟩
      exact refused b c text desugared
    have never := refused (toList_spacedTernary a b c)
    exact ⟨fun e h => absurd h (never e),
      fun _ e h => absurd h (refused (toList_closeTernary a b c) e),
      fun _ _ _ _ _ _ _ => ⟨fun e h => absurd h (never e), fun _ _ h => absurd condition h⟩⟩
  -- Both texts have this row of tokens, unless the colon is swallowed.
  have row {text : String} {b' c' : List Char} (h : text.toList = ternaryText a b' c')
      (operands : ∃ rest, Lexes 0 (b' ++ ':' :: Text.trimEnd c') rest ∧
        rest.map Placed.token = vs.map Placed.token ++ .colon :: ws.map Placed.token) (e : Expr) :
      parse text = .ok e ↔ us.length + vs.length + ws.length + 2 ≤ maxTokens ∧
        Spells maxDepth 0 e (us.map Placed.token ++
          .question :: (vs.map Placed.token ++ .colon :: ws.map Placed.token)) := by
    obtain ⟨rest, hrest, map⟩ := operands
    have length := congrArg List.length map
    simp only [List.length_map, List.length_append, List.length_cons] at length
    have limit : us.length + rest.length < maxTokens ↔
        us.length + vs.length + ws.length + 2 ≤ maxTokens := by omega
    rw [parse_ternaryText_iff ha desugared h hrest, map, limit]
  have spaced := row (toList_spacedTernary a b c) (exists_lexes_spaced hb hc)
  have close (alone : swallowed b vs c = false) :=
    row (toList_closeTernary a b c) (exists_lexes_close hb hc alone)
  refine ⟨fun e he => ⟨fun accepted => ?_, fun alone => ?_⟩, fun alone e he => ?_, ?_⟩
  · refine Bool.eq_false_iff.mpr fun h => ?_
    exact parse_ne_of_swallowed ha hb desugared h ((spaced e).mp he).2 accepted
  · exact (close alone e).mpr ((spaced e).mp he)
  · exact (spaced e).mpr ((close alone e).mp he)
  · intro depth x y z hx hy hz
    have whole := Spells.ternary hx hy hz
    refine ⟨fun e he => ((spaced e).mp he).2.unique whole, fun deep short _ => ?_⟩
    exact (spaced _).mpr ⟨short, whole.mono deep⟩

/-- A name with a statistic of its own leaves the colon alone, in front of a function that is called
like a statistic. -/
theorem parse_closeTernary_of_peak :
    parse (closeTernary "rich".toList "gold:max".toList "max(gold, 1)".toList) =
      .ok (.ternary (.var "rich") (.var "gold:max") (.call "max" [.var "gold", .number 1.0])) := by
  have var (s : String) : Spells 2 0 (.var s) [.name s] :=
    (Spells.var s).loosen (Nat.zero_le 8) le_rfl
  have one : Spells 2 0 (.number 1.0) [.number 1.0] :=
    (Spells.number 1.0).loosen (Nat.zero_le 8) le_rfl
  have call : Spells 4 0 (.call "max" [.var "gold", .number 1.0]) [.name "max", .leftParen,
      .name "gold", .comma, .number 1.0, .rightParen] :=
    (Spells.call "max" [(.var "gold", [.name "gold"]), (.number 1.0, [.number 1.0])]
      (List.forall_mem_cons.mpr ⟨var "gold", List.forall_mem_singleton.mpr one⟩)).loosen
      (Nat.zero_le 8) le_rfl
  have name : Spells 3 8 (.var "rich") [.name "rich"] := .var "rich"
  have rich : Spells 4 1 (.var "rich") [.name "rich"] :=
    name.loosen (show 1 ≤ 8 by decide) le_rfl
  have ha : Token.tokenize "rich".toList = .ok [⟨.name "rich", 0⟩] := by decide +kernel
  have hb : Token.tokenize "gold:max".toList = .ok [⟨.name "gold:max", 0⟩] := by decide +kernel
  have hc : Token.tokenize "max(gold, 1)".toList =
      .ok [⟨.name "max", 0⟩, ⟨.leftParen, 3⟩, ⟨.name "gold", 4⟩, ⟨.comma, 8⟩, ⟨.number 1.0, 10⟩,
        ⟨.rightParen, 11⟩] := by decide +kernel
  obtain ⟨close, -, spaced⟩ := parse_closeTernary ha hb hc (by decide)
  have accepted := (spaced 4 _ _ _ rich ((var "gold:max").mono (by decide)) call).2
    (by decide) (by decide) (by decide)
  exact (close _ accepted).mpr (by decide +kernel)

/-- The colon of `a ? b:max` belongs to the name `b:max`, and of the two in `a ? b:max:ps` the other
one is taken for that of the ternary. -/
theorem exists_swallowed_colon :
    parse (closeTernary "a".toList "b".toList "max".toList) =
        .error (.malformed 9 (.missing .colon)) ∧
      parse (spacedTernary "a".toList "b".toList "max".toList) =
        .ok (.ternary (.var "a") (.var "b") (.var "max")) ∧
      parse (closeTernary "a".toList "b".toList "max:ps".toList) =
        .ok (.ternary (.var "a") (.var "b:max") (.var "ps")) ∧
      parse (spacedTernary "a".toList "b".toList "max:ps".toList) =
        .ok (.ternary (.var "a") (.var "b") (.var "max:ps")) := by
  refine ⟨?_, ?_, ?_, ?_⟩
  · exact parse_of_tokens "a ? b:max"
      [⟨.name "a", 0⟩, ⟨.question, 2⟩, ⟨.name "b:max", 4⟩]
      (by decide +kernel) (by decide +kernel)
  · exact parse_of_tokens "a ? b : max"
      [⟨.name "a", 0⟩, ⟨.question, 2⟩, ⟨.name "b", 4⟩, ⟨.colon, 6⟩, ⟨.name "max", 8⟩]
      (by decide +kernel) (by decide +kernel)
  · exact parse_of_tokens "a ? b:max:ps"
      [⟨.name "a", 0⟩, ⟨.question, 2⟩, ⟨.name "b:max", 4⟩, ⟨.colon, 9⟩, ⟨.name "ps", 10⟩]
      (by decide +kernel) (by decide +kernel)
  · exact parse_of_tokens "a ? b : max:ps"
      [⟨.name "a", 0⟩, ⟨.question, 2⟩, ⟨.name "b", 4⟩, ⟨.colon, 6⟩, ⟨.name "max:ps", 8⟩]
      (by decide +kernel) (by decide +kernel)

end IncrementalGame.Formula
