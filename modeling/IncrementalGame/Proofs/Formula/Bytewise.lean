import IncrementalGame.Proofs.Formula.Words
import IncrementalGame.Proofs.Text.Octets

/-!
# The tokens of a formula, byte by byte

A formula is held as UTF-8, so its tokens can be cut by a walk over the bytes: a position goes from
byte to byte, looks one byte ahead where two operators start alike, and the characters of a token
are the slice of the text between two positions.  A slice is only there between two characters.

`bytewise?` is this walk.  It has no result when a slice is missing, and none when it takes more
steps than there are bytes.  Yet it has a result for every text, and it is `tokenize`
(`bytewise?_eq`): whatever stops the walk, a quote, a colon, an equals sign or the end of a run, is
an ASCII character, and no byte inside another character looks like one.
-/

namespace IncrementalGame.Formula.Token

open Text (octets byteLength slice? runEnd Coarse)

/-! ## The walk -/

/-- The number that starts at a byte, and where it ends. -/
def numberAt? (s : List Char) (start : Nat) : Option (Except Fault (Token × Nat)) := do
  let stop := runEnd isNumberPart (octets s) start
  let run ← slice? s start stop
  match Binary64.ofText? run with
  | some x => some (.ok (.number x, stop))
  | none => some (.error (.malformedNumber (String.ofList run)))

/-- The text that opens with a quote at a byte, and where it ends. -/
def textAt? (s : List Char) (start : Nat) (quote : Char) : Option (Except Fault (Token × Nat)) :=
  let stop := runEnd (· != quote) (octets s) (start + 1)
  if (octets s).length ≤ stop then some (.error .unterminatedText)
  else do
    let content ← slice? s (start + 1) stop
    some (.ok (.text (String.ofList content), stop + 1))

/-- The name that starts at a byte, and where it and its statistic end. -/
def nameAt? (s : List Char) (start : Nat) : Option (Except Fault (Token × Nat)) := do
  let behind := runEnd isNameRest (octets s) start
  let stop := behind + (statisticOf ((octets s).drop behind)).length
  let spelling ← slice? s start stop
  some (.ok (.name (String.ofList spelling), stop))

/-- The operator or bracket that a character starts, and how many characters it has.  What stands
behind the character decides between those that start alike. -/
def symbolAt? (followedBy : Char → Bool) : Char → Option (Token × Nat)
  | '+' => some (.plus, 1)
  | '-' => some (.minus, 1)
  | '*' => some (.star, 1)
  | '/' => some (.slash, 1)
  | '%' => some (.percent, 1)
  | '?' => some (.question, 1)
  | ':' => some (.colon, 1)
  | '(' => some (.leftParen, 1)
  | ')' => some (.rightParen, 1)
  | ',' => some (.comma, 1)
  | '=' => if followedBy '=' then some (.eq, 2) else none
  | '!' => if followedBy '=' then some (.notEq, 2) else some (.bang, 1)
  | '<' => if followedBy '=' then some (.ltEq, 2) else some (.lt, 1)
  | '>' => if followedBy '=' then some (.gtEq, 2) else some (.gt, 1)
  | '&' => if followedBy '&' then some (.andAnd, 2) else none
  | '|' => if followedBy '|' then some (.orOr, 2) else none
  | _ => none

/-- The operator or bracket that starts with a byte, and where it ends.  If there is none, the
character there is reported. -/
def operatorAt? (s : List Char) (start : Nat) (c : Char) : Option (Except Fault (Token × Nat)) :=
  match symbolAt? (fun d => (octets s)[start + 1]?.any (· == d)) c with
  | some (t, length) => some (.ok (t, start + length))
  | none => do
    let rest ← slice? s start (octets s).length
    some (.error (.unexpectedCharacter (rest.head?.getD '?')))

/-- The token that starts with a byte, and where it ends. -/
def tokenAt? (s : List Char) (start : Nat) (c : Char) : Option (Except Fault (Token × Nat)) :=
  if isNumberPart c then numberAt? s start
  else if c = '\'' ∨ c = '"' then textAt? s start c
  else if isNameStart c then nameAt? s start
  else operatorAt? s start c

/-- The walk from a byte on, with the tokens in front of it.  The number bounds its steps; there is
no result if it takes more. -/
def walk? (s : List Char) : Nat → Nat → List Placed → Option (Except (Nat × Fault) (List Placed))
  | 0, pos, tokens => if (octets s).length ≤ pos then some (.ok tokens) else none
  | steps + 1, pos, tokens =>
    match (octets s)[pos]? with
    | none => some (.ok tokens)
    | some c =>
      if isSpace c then walk? s steps (pos + 1) tokens
      else do
        match ← tokenAt? s pos c with
        | .error fault => some (.error (pos, fault))
        | .ok (t, stop) => walk? s steps stop (tokens ++ [⟨t, pos⟩])

/-- The tokens of a text, or the byte at which there is none and why, by a walk over its bytes that
takes at most one step for each. -/
def bytewise? (s : List Char) : Option (Except (Nat × Fault) (List Placed)) :=
  walk? s (octets s).length 0 []

/-! ## Tests on bytes -/

theorem toNat_lt_of_isNumberPart {c : Char} (h : isNumberPart c = true) : c.toNat < 128 := by
  rw [isNumberPart_iff] at h
  omega

theorem toNat_lt_of_isNameStart {c : Char} (h : isNameStart c = true) : c.toNat < 128 := by
  rw [isNameStart_iff] at h
  omega

theorem toNat_lt_of_isNameRest {c : Char} (h : isNameRest c = true) : c.toNat < 128 := by
  rw [isNameRest, Bool.or_eq_true] at h
  exact h.elim toNat_lt_of_isNameStart fun digit =>
    toNat_lt_of_isNumberPart (isNumberPart_of_isDigit digit)

theorem toNat_lt_of_isWordRest {c : Char} (h : isWordRest c = true) : c.toNat < 128 := by
  rw [isWordRest, Bool.or_eq_true, beq_iff_eq] at h
  rcases h with part | rfl
  · exact toNat_lt_of_isNameRest part
  · decide

theorem toNat_lt_of_isSpace {c : Char} (h : isSpace c = true) : c.toNat < 128 := by
  rcases eq_of_isSpace h with rfl | rfl | rfl | rfl | rfl <;> decide

/-- Every character beyond ASCII is another one than an ASCII character. -/
theorem coarse_ne {quote : Char} (ascii : quote.toNat < 128) : Coarse (· != quote) := by
  have other : ∀ c : Char, 128 ≤ c.toNat → (c != quote) = true := fun c hc =>
    bne_iff_ne.mpr fun same => absurd (same ▸ hc) (by omega)
  exact fun c d hc hd => (other c hc).trans (other d hd).symm

/-- The bytes behind a name start with the statistic that the characters start with. -/
theorem statisticOf_octets (s : List Char) : statisticOf (octets s) = statisticOf s := by
  refine statisticOf_congr ?_
  rw [(Text.coarse_of_ascii fun c => toNat_lt_of_isWordRest).takeWhile_octets]
  exact Text.octets_eq_self fun c hc => toNat_lt_of_isWordRest (List.mem_takeWhile_imp hc)

theorem length_statisticOf (s : List Char) :
    (statisticOf s).length = byteLength (statisticOf s) :=
  (Text.byteLength_of_ascii fun c hc =>
    toNat_lt_of_isWordRest (isWordRest_of_mem_statisticOf s c hc)).symm

/-! ## One token -/

/-- Where a token ends that was cut off at a byte. -/
def Cut.ending (start : Nat) (cut : Cut) : Token × Nat :=
  (cut.token, start + byteLength cut.spelling)

theorem numberAt?_eq (front : List Char) {s : List Char}
    (starts : s.head?.any isNumberPart = true) :
    numberAt? (front ++ s) (byteLength front) =
      some ((cutNumber s).map (Cut.ending (byteLength front))) := by
  have coarse : Coarse isNumberPart := Text.coarse_of_ascii fun c => toNat_lt_of_isNumberPart
  have part : slice? (front ++ s) (byteLength front)
      (byteLength (front ++ s.takeWhile isNumberPart)) = some (s.takeWhile isNumberPart) :=
    Text.slice?_eq_some_iff.mpr
      ⟨front, s.dropWhile isNumberPart, by rw [List.takeWhile_append_dropWhile], rfl, rfl⟩
  have read := ofText?_run (Text.takeWhile_ne_nil starts) fun c => List.mem_takeWhile_imp
  simp only [numberAt?, coarse.runEnd_octets, part, read, Option.bind_eq_bind, Option.bind_some,
    cutNumber]
  cases numeral? (s.takeWhile isNumberPart) with
  | some n => simp only [Option.map_some, Except.map, Cut.ending, Text.byteLength_append]
  | none => rfl

theorem textAt?_eq (front rest : List Char) {quote : Char} (ascii : quote.toNat < 128) :
    textAt? (front ++ quote :: rest) (byteLength front) quote =
      some ((cutText quote rest).map (Cut.ending (byteLength front))) := by
  have one := Text.utf8Size_of_lt ascii
  have opened : byteLength front + 1 = byteLength (front ++ [quote]) := by
    rw [Text.byteLength_append, byteLength, byteLength, one]
  have split : front ++ quote :: rest = (front ++ [quote]) ++ rest := by
    rw [List.append_assoc, List.singleton_append]
  have stops := Text.head?_any_dropWhile (· != quote) rest
  have whole := List.takeWhile_append_dropWhile (p := (· != quote)) (l := rest)
  unfold textAt? cutText
  rw [split, opened, Text.length_octets]
  simp only [(coarse_ne ascii).runEnd_octets]
  generalize rest.takeWhile (· != quote) = content at whole ⊢
  generalize rest.dropWhile (· != quote) = behind at whole stops ⊢
  cases behind with
  | nil =>
    rw [List.append_nil] at whole
    rw [whole, if_pos le_rfl]
    rfl
  | cons close more =>
    -- What stops the walk is the quote itself.
    obtain rfl : close = quote := by simpa using stops
    have closed : byteLength (front ++ [close] ++ content) + 1 =
        byteLength front + byteLength (close :: content ++ [close]) := by
      simp only [List.cons_append, Text.byteLength_append, byteLength, one]
      omega
    have inside : ¬ byteLength (front ++ [close] ++ rest) ≤
        byteLength (front ++ [close] ++ content) := by
      rw [← whole]
      simp only [Text.byteLength_append, byteLength, one]
      omega
    have part : slice? (front ++ [close] ++ rest) (byteLength (front ++ [close]))
        (byteLength (front ++ [close] ++ content)) = some content :=
      Text.slice?_eq_some_iff.mpr ⟨front ++ [close], close :: more, by rw [whole], rfl, rfl⟩
    rw [if_neg inside, part, closed]
    rfl

theorem nameAt?_eq (front s : List Char) :
    nameAt? (front ++ s) (byteLength front) =
      some (.ok ((cutName s).ending (byteLength front))) := by
  have coarse : Coarse isNameRest := Text.coarse_of_ascii fun c => toNat_lt_of_isNameRest
  unfold nameAt? cutName
  simp only [coarse.runEnd_octets]
  have whole := List.takeWhile_append_dropWhile (p := isNameRest) (l := s)
  generalize s.takeWhile isNameRest = word at whole ⊢
  generalize s.dropWhile isNameRest = rest at whole ⊢
  have behind : (octets (front ++ s)).drop (byteLength (front ++ word)) = octets rest := by
    rw [← whole, ← List.append_assoc, Text.drop_octets]
  have stop : byteLength (front ++ word) + (statisticOf rest).length =
      byteLength (front ++ (word ++ statisticOf rest)) := by
    rw [length_statisticOf, ← Text.byteLength_append, List.append_assoc]
  have part : slice? (front ++ s) (byteLength front)
      (byteLength (front ++ (word ++ statisticOf rest))) = some (word ++ statisticOf rest) := by
    refine Text.slice?_eq_some_iff.mpr ⟨front, rest.drop (statisticOf rest).length, ?_, rfl, rfl⟩
    rw [List.append_assoc, statisticOf_append_drop, whole]
  rw [behind, statisticOf_octets, stop, part, Cut.ending, ← Text.byteLength_append]
  rfl

theorem symbolAt?_congr {f g : Char → Bool} (h : ∀ d : Char, d.toNat < 128 → f d = g d) (c : Char) :
    symbolAt? f c = symbolAt? g c := by
  have equals := h '=' (by decide)
  have ampersand := h '&' (by decide)
  have bar := h '|' (by decide)
  simp only [symbolAt?, equals, ampersand, bar]

theorem symbolAt?_beyond {c : Char} (h : 128 ≤ c.toNat) (f : Char → Bool) :
    symbolAt? f c = none := by
  unfold symbolAt?
  split
  all_goals first | rfl | exact absurd h (by decide)

/-- The operators and brackets, which have one byte for each character. -/
theorem cutSymbol_ending (start : Nat) (c : Char) (rest : List Char) :
    (cutSymbol (c :: rest)).map (Cut.ending start) =
      match symbolAt? (fun d => rest.head?.any (· == d)) c with
      | some (t, length) => .ok (t, start + length)
      | none => .error (.unexpectedCharacter c) := by
  have behind {d : Char} (h : rest.head?.any (· == d) = true) : ∃ tail, rest = d :: tail := by
    obtain ⟨e, he, same⟩ := (Option.any_eq_true _ _).mp h
    exact List.head?_eq_some_iff.mp (he.trans (congrArg some (beq_iff_eq.mp same)))
  have no {d : Char} (h : ¬ rest.head?.any (· == d) = true) : ∀ tail, rest = d :: tail → False := by
    rintro tail rfl
    exact h (beq_self_eq_true d)
  fun_cases symbolAt? (fun d => rest.head?.any (· == d)) c
  -- Two characters are one operator.
  case case11 h | case13 h | case15 h | case17 h | case19 h | case21 h =>
    obtain ⟨tail, rfl⟩ := behind h
    rfl
  -- The first of them is another one.
  case case14 h =>
    rw [cutSymbol.eq_3 rest (no h)]
    rfl
  case case16 h =>
    rw [cutSymbol.eq_5 rest (no h)]
    rfl
  case case18 h =>
    rw [cutSymbol.eq_7 rest (no h)]
    rfl
  -- The first of them is none.
  case case12 h | case20 h | case22 h =>
    rw [cutSymbol.eq_20]
    · rfl
    all_goals first | exact fun tail _ => no h tail | simp
  case case23 =>
    rw [cutSymbol.eq_20]
    · rfl
    all_goals simp_all only [imp_false, implies_true]
  all_goals rfl

/-- The look one byte ahead sees the next character. -/
theorem symbolAt?_octets (front rest : List Char) {c d : Char}
    (head : (octets (c :: rest)).head? = some d) :
    symbolAt? (fun e => (octets (front ++ c :: rest))[byteLength front + 1]?.any (· == e)) d =
      symbolAt? (fun e => rest.head?.any (· == e)) c := by
  obtain ⟨d', more, whole, ⟨rfl, ascii, rfl⟩ | ⟨hc, hd⟩⟩ := Text.octets_cons c rest
  · obtain rfl : d' = d := by rwa [whole, List.head?_cons, Option.some.injEq] at head
    have next : (octets (front ++ d' :: rest))[byteLength front + 1]? = (octets rest).head? := by
      have at_rest := Text.getElem?_octets (front ++ [d']) rest
      rwa [Text.byteLength_append, byteLength, byteLength, Text.utf8Size_of_lt ascii,
        List.append_assoc, List.singleton_append] at at_rest
    rw [next]
    refine symbolAt?_congr (fun e ascii => ?_) d'
    have coarse : Coarse (· == e) := Text.coarse_of_ascii fun c same => by
      rwa [beq_iff_eq.mp same]
    exact coarse.head?_octets rest
  · rw [whole, List.head?_cons, Option.some.injEq] at head
    rw [symbolAt?_beyond hc, symbolAt?_beyond (head ▸ hd)]

theorem operatorAt?_eq (front rest : List Char) {c d : Char}
    (head : (octets (c :: rest)).head? = some d) :
    operatorAt? (front ++ c :: rest) (byteLength front) d =
      some ((cutSymbol (c :: rest)).map (Cut.ending (byteLength front))) := by
  unfold operatorAt?
  rw [symbolAt?_octets front rest head, cutSymbol_ending]
  cases symbolAt? (fun e => rest.head?.any (· == e)) c with
  | some symbol => rfl
  | none =>
    have part : slice? (front ++ c :: rest) (byteLength front)
        (octets (front ++ c :: rest)).length = some (c :: rest) :=
      Text.slice?_eq_some_iff.mpr
        ⟨front, [], by rw [List.append_nil], rfl, (Text.length_octets _).symm⟩
    simp only [part, Option.bind_eq_bind, Option.bind_some, List.head?_cons, Option.getD_some]

/-- The token that starts with the first byte of a character is the one that is cut off there. -/
theorem tokenAt?_eq (front rest : List Char) {c d : Char}
    (head : (octets (c :: rest)).head? = some d) :
    tokenAt? (front ++ c :: rest) (byteLength front) d =
      some ((first c rest).map (Cut.ending (byteLength front))) := by
  obtain ⟨d', more, whole, same⟩ := Text.octets_cons c rest
  obtain rfl : d' = d := by rwa [whole, List.head?_cons, Option.some.injEq] at head
  rcases same with ⟨rfl, ascii, -⟩ | ⟨hc, hd⟩
  · unfold tokenAt? first
    split
    case isTrue number => exact numberAt?_eq front (s := d' :: rest) number
    split
    case isTrue => exact textAt?_eq front rest ascii
    split
    case isTrue => exact nameAt?_eq front (d' :: rest)
    exact operatorAt?_eq front rest head
  · have operator {e : Char} (he : 128 ≤ e.toNat) :
        ¬ isNumberPart e = true ∧ ¬ (e = '\'' ∨ e = '"') ∧ ¬ isNameStart e = true := by
      refine ⟨fun part => ?_, ?_, fun letter => ?_⟩
      · exact absurd (toNat_lt_of_isNumberPart part) (by omega)
      · rintro (rfl | rfl) <;> exact absurd he (by decide)
      · exact absurd (toNat_lt_of_isNameStart letter) (by omega)
    obtain ⟨number, quote, letter⟩ := operator hc
    obtain ⟨number', quote', letter'⟩ := operator hd
    rw [tokenAt?, if_neg number', if_neg quote', if_neg letter', first, if_neg number, if_neg quote,
      if_neg letter]
    exact operatorAt?_eq front rest head

/-! ## The whole walk -/

theorem walk?_nil (steps : Nat) (front : List Char) (tokens : List Placed) :
    walk? front steps (byteLength front) tokens = some (.ok tokens) := by
  cases steps with
  | zero => rw [walk?, if_pos (Text.length_octets front).le]
  | succ steps =>
    have ended := Text.getElem?_octets front []
    rw [List.append_nil] at ended
    rw [walk?, ended]
    rfl

/-- What the walk finds from the start of a character on, the scan of the characters finds there. -/
theorem walk?_eq {fuel : Nat} (steps : Nat) (front s : List Char) (tokens : List Placed)
    (enough : s.length ≤ fuel) (time : s.length ≤ steps) :
    walk? (front ++ s) steps (byteLength front) tokens =
      some ((scan fuel (byteLength front) s).map (tokens ++ ·)) := by
  induction fuel generalizing steps front s tokens with
  | zero =>
    obtain rfl := List.length_eq_zero_iff.mp (Nat.le_zero.mp enough)
    rw [List.append_nil, walk?_nil, scan, Except.map, List.append_nil]
  | succ fuel ih =>
    cases s with
    | nil => rw [List.append_nil, walk?_nil, scan, Except.map, List.append_nil]
    | cons c rest =>
      have coarse : Coarse isSpace := Text.coarse_of_ascii fun c => toNat_lt_of_isSpace
      obtain ⟨d, more, whole, same⟩ := coarse.octets_cons c rest
      have head : (octets (c :: rest)).head? = some d := by rw [whole, List.head?_cons]
      rw [List.length_cons] at enough time
      obtain ⟨steps, rfl⟩ := Nat.exists_eq_add_one_of_ne_zero (Nat.ne_zero_of_lt time)
      rw [walk?, Text.getElem?_octets, head, scan]
      simp only [same]
      split
      case isTrue separates =>
        have behind := ih steps (front ++ [c]) rest tokens (by omega) (by omega)
        rwa [List.append_assoc, List.singleton_append, Text.byteLength_append, byteLength,
          byteLength, utf8Size_of_isSpace separates] at behind
      case isFalse visible =>
        rw [tokenAt?_eq front rest head]
        cases hcut : first c rest with
        | error fault => rfl
        | ok cut =>
          -- Every token takes a character and a step.
          have short := length_rest_le hcut
          have behind := ih steps (front ++ cut.spelling) cut.rest
            (tokens ++ [⟨cut.token, byteLength front⟩]) (by omega) (by omega)
          rw [List.append_assoc, (first_eq hcut).2, Text.byteLength_append] at behind
          refine behind.trans ?_
          dsimp only
          cases scan fuel (byteLength front + byteLength cut.spelling) cut.rest with
          | error e => rfl
          | ok later => simp only [Except.map, List.append_assoc, List.singleton_append]

/-- The walk over the bytes comes to an end, cuts between characters only, and gives the tokens. -/
theorem bytewise?_eq (s : List Char) : bytewise? s = some (tokenize s) := by
  have time : s.length ≤ (octets s).length := by
    rw [Text.length_octets]
    exact Text.length_le_byteLength s
  have walked := walk?_eq _ [] s [] le_rfl time
  rw [List.nil_append, byteLength] at walked
  rw [bytewise?, walked, tokenize]
  cases scan s.length 0 s <;> rfl

/-- A fault is reported where a character starts. -/
theorem exists_eq_append_of_scan {fuel offset position : Nat} {s : List Char} {fault : Fault}
    (h : scan fuel offset s = .error (position, fault)) :
    ∃ front behind, s = front ++ behind ∧ position = offset + byteLength front := by
  induction fuel generalizing offset s with
  | zero => cases s <;> cases h
  | succ fuel ih =>
    cases s with
    | nil => cases h
    | cons c rest =>
      rw [scan] at h
      split at h
      case isTrue separates =>
        obtain ⟨front, behind, rfl, rfl⟩ := ih h
        refine ⟨c :: front, behind, rfl, ?_⟩
        rw [byteLength, utf8Size_of_isSpace separates, Nat.add_assoc]
      split at h
      case h_1 =>
        cases h
        exact ⟨[], c :: rest, rfl, rfl⟩
      case h_2 cut hcut =>
        split at h
        case h_2 => cases h
        case h_1 e deeper =>
          cases h
          obtain ⟨front, behind, hrest, rfl⟩ := ih deeper
          refine ⟨cut.spelling ++ front, behind, ?_, ?_⟩
          · rw [List.append_assoc, ← hrest, (first_eq hcut).2]
          · rw [Text.byteLength_append, Nat.add_assoc]

/-- Cutting a text into tokens is exact.  Words with blanks between them are read as their tokens,
each at the byte where it starts.  And the bytes of any text can be walked with every slice between
two characters, which gives the tokens of the text, or else a byte that is no further than its
end. -/
theorem tokenize_exact :
    (∀ row : Row, tokenize row.text = .ok row.tokens) ∧
      ∀ s : List Char, bytewise? s = some (tokenize s) ∧
        ∀ position fault, tokenize s = .error (position, fault) → position ≤ byteLength s := by
  refine ⟨fun row => tokenize_eq_ok_iff.mpr row.lexes, fun s => ⟨bytewise?_eq s, ?_⟩⟩
  intro position fault h
  obtain ⟨front, behind, rfl, rfl⟩ := exists_eq_append_of_scan h
  rw [Text.byteLength_append, Nat.zero_add]
  exact Nat.le_add_right _ _

/-! ### A comparison with a text -/

/-- A text with the other quote and two accents in it, an operator that starts like another one, a
name with a statistic, and a number. -/
def summer : Row where
  lead := ['\t']
  words :=
    [(.text '"' ['l', '\'', 'é', 't', 'é'] (.inr rfl) (by decide), [' ']),
     (.symbol .gtEq ['>', '='] (by decide), ['\n']),
     (.statistic 'g' ['o', 'l', 'd'] [':', 'm', 'a', 'x'] rfl (List.all_eq_true.mp (by decide))
       (by decide), [' ']),
     (.symbol .plus ['+'] (by decide), [' ', ' ']),
     (.number ['1', '2'] (some ['5']) (List.all_eq_true.mp (by decide)) (by decide), [])]
  lead_blank := List.all_eq_true.mp (by decide)
  blank := by
    simp only [List.forall_mem_cons, ← List.all_eq_true (p := isSpace)]
    decide
  apart := by decide

/-- The accents take two bytes each, and a letter with an accent is no name outside quotes. -/
theorem tokenize_exact_of_summer :
    tokenize "\t\"l'été\" >=\ngold:max +  12.5".toList =
        .ok [⟨.text "l'été", 1⟩, ⟨.gtEq, 11⟩, ⟨.name "gold:max", 14⟩, ⟨.plus, 23⟩,
          ⟨.number 12.5, 26⟩] ∧
      bytewise? "'é' é".toList = some (.error (5, .unexpectedCharacter 'é')) ∧
      5 ≤ byteLength "'é' é".toList := by
  obtain ⟨rows, texts⟩ := tokenize_exact
  obtain ⟨walked, inside⟩ := texts "'é' é".toList
  have fault : tokenize "'é' é".toList = .error (5, .unexpectedCharacter 'é') := by decide +kernel
  refine ⟨?_, walked.trans (congrArg some fault), inside 5 _ fault⟩
  have read := rows summer
  have spelled : summer.text = "\t\"l'été\" >=\ngold:max +  12.5".toList := by decide +kernel
  have tokens : summer.tokens = [⟨.text "l'été", 1⟩, ⟨.gtEq, 11⟩, ⟨.name "gold:max", 14⟩,
      ⟨.plus, 23⟩, ⟨.number 12.5, 26⟩] := by decide +kernel
  rwa [spelled, tokens] at read

end IncrementalGame.Formula.Token
