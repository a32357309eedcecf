import IncrementalGame.Proofs.Formula.Boundaries

/-!
# Names and the colons behind them

A colon behind a name may start a statistic of it: `gold:max` is one name.  A word behind the colon
that is no statistic leaves the colon alone, and so does a name that has a statistic already.

* `statisticOf_cons`: which statistic a text starts with is seen from its first character and the
  run behind it.
* `Lexeme.append_colon`, `Lexes.append_colon`: every token stands in front of a colon as it does
  without, unless it is a name at the end of the text that has no statistic (`endsInName`) and the
  colon starts one.
* `Lexes.swallow`: then the name is another one, and what is in front of it is as it was.
-/

namespace IncrementalGame.Formula.Token

/-! ## A colon behind a token -/

/-- Whether a text starts with a statistic is seen from its first character and the run behind
it. -/
theorem startsWith_colon_iff {s word : List Char} (parts : ∀ c ∈ word, isNameRest c = true) :
    startsWith s (':' :: word) = true ↔ ∃ t, s = ':' :: t ∧ t.takeWhile isNameRest = word := by
  rw [startsWith_iff]
  constructor
  · rintro ⟨rest, rfl, ends⟩
    exact ⟨word ++ rest, rfl, Text.takeWhile_run parts ends⟩
  · rintro ⟨t, rfl, rfl⟩
    exact ⟨t.dropWhile isNameRest, by rw [List.cons_append, List.takeWhile_append_dropWhile],
      Text.head?_any_dropWhile _ _⟩

theorem eq_colon_of_mem_statistics {word : List Char} (h : word ∈ statistics) :
    ∃ letters, word = ':' :: letters ∧ ∀ c ∈ letters, isNameRest c = true := by
  rw [statistics, List.mem_cons, List.mem_cons, List.mem_singleton] at h
  rcases h with rfl | rfl | rfl <;> exact ⟨_, rfl, List.all_eq_true.mp (by decide)⟩

theorem statisticOf_cons {s t : List Char} (c : Char)
    (h : s.takeWhile isNameRest = t.takeWhile isNameRest) :
    statisticOf (c :: s) = statisticOf (c :: t) := by
  have same : ∀ word ∈ statistics, startsWith (c :: s) word = startsWith (c :: t) word := by
    intro word hword
    obtain ⟨letters, rfl, parts⟩ := eq_colon_of_mem_statistics hword
    rw [Bool.eq_iff_iff, startsWith_colon_iff parts, startsWith_colon_iff parts]
    simp only [List.cons.injEq, and_assoc, exists_and_left, exists_eq_left', h]
  rw [statisticOf_eq, statisticOf_eq, List.find?_congr same]

theorem statisticOf_append_colon (c : Char) (s tail : List Char) :
    statisticOf (c :: (s ++ ':' :: tail)) = statisticOf (c :: s) :=
  statisticOf_cons c (Text.takeWhile_append_eq rfl)

/-- A statistic of its own sets a name apart from those that have none. -/
theorem statisticOf_eq_nil_of_forall {s : List Char}
    (h : ∀ c ∈ statisticOf s, isNameRest c = true) : statisticOf s = [] := by
  rw [statisticOf_eq] at h ⊢
  cases found : statistics.find? (startsWith s) with
  | none => rfl
  | some word =>
    obtain ⟨letters, rfl, -⟩ := eq_colon_of_mem_statistics (List.mem_of_find?_eq_some found)
    rw [found] at h
    exact absurd (h ':' List.mem_cons_self) (by decide)

/-- A token stands in front of a colon, unless it is a bare name and the colon starts a
statistic. -/
theorem Lexeme.append_colon {t : Token} {spelling rest tail : List Char}
    (h : Lexeme t spelling rest)
    (free : rest = [] → t = .name (String.ofList spelling) →
      (∀ c ∈ spelling, isNameRest c = true) → statisticOf (':' :: tail) = []) :
    Lexeme t spelling (rest ++ ':' :: tail) := by
  cases h with
  | number nonempty parts ends spelled =>
    exact .number nonempty parts (Text.head?_any_append ends rfl) spelled
  | text opens closes => exact .text opens closes
  | @name c word statistic _ starts parts ends longest =>
    refine .name starts parts ?_ ?_
    · rw [← List.append_assoc]
      exact Text.head?_any_append ends rfl
    rw [← List.append_assoc]
    cases whole : statistic ++ rest with
    | nil =>
      obtain ⟨rfl, rfl⟩ := List.append_eq_nil_iff.mp whole
      refine free rfl rfl ?_
      rw [List.append_nil]
      exact List.forall_mem_cons.mpr ⟨isNameRest_of_isNameStart starts, parts⟩
    | cons d behind =>
      rw [List.cons_append, statisticOf_append_colon, ← whole, longest]
  | symbol listed ends =>
    refine .symbol listed fun extended => ?_
    cases rest with
    | nil => simp
    | cons c rest => exact ends extended

/-- A colon goes on with a statistic as with a part of the name in front of it. -/
theorem Lexeme.with_statistic {spelling tail : List Char}
    (h : Lexeme (.name (String.ofList spelling)) spelling [])
    (bare : ∀ c ∈ spelling, isNameRest c = true) :
    Lexeme (.name (String.ofList (spelling ++ statisticOf (':' :: tail))))
      (spelling ++ statisticOf (':' :: tail))
      ((':' :: tail).drop (statisticOf (':' :: tail)).length) := by
  generalize same : Token.name (String.ofList spelling) = t at h
  cases h with
  | number => cases same
  | text => cases same
  | @name c word statistic _ starts parts ends longest =>
    rw [List.append_nil] at longest
    obtain rfl : statistic = [] := by
      rw [← longest]
      refine statisticOf_eq_nil_of_forall fun d hd => bare d ?_
      exact List.mem_cons_of_mem c (List.mem_append_right word (longest ▸ hd))
    rw [List.append_nil, List.cons_append]
    have whole := statisticOf_append_drop (':' :: tail)
    exact .name starts parts (by rw [whole]; rfl) (by rw [whole])
  | symbol listed =>
    subst same
    have all : ∀ entry ∈ symbols, entry.1 ≠ .name (String.ofList entry.2) := by decide
    exact absurd rfl (all _ listed)

/-! ## A colon behind a row of tokens -/

/-- Whether the last of some tokens, which end before byte `finish`, is a name without a statistic
that ends just there. -/
def endsInName (finish : Nat) (tokens : List Placed) : Bool :=
  match tokens.getLast? with
  | some ⟨.name s, offset⟩ =>
    s.toList.all isNameRest && offset + Text.byteLength s.toList == finish
  | _ => false

theorem endsInName_cons {finish : Nat} {t : Placed} {tokens : List Placed} (h : tokens ≠ []) :
    endsInName finish (t :: tokens) = endsInName finish tokens := by
  obtain ⟨u, more, rfl⟩ := List.exists_cons_of_ne_nil h
  rw [endsInName, endsInName, List.getLast?_cons_cons]

theorem endsInName_singleton {spelling : List Char} {offset : Nat} :
    endsInName (offset + Text.byteLength spelling) [⟨.name (String.ofList spelling), offset⟩] =
      spelling.all isNameRest := by
  simp [endsInName]

theorem Lexeme.of_name {s : String} {spelling rest : List Char}
    (h : Lexeme (.name s) spelling rest) : s = String.ofList spelling := by
  cases h with
  | name => rfl
  | symbol listed => simp [symbols] at listed

/-- The name with which a text ends. -/
theorem Lexeme.of_endsInName {t : Token} {spelling rest : List Char} {offset : Nat}
    (h : Lexeme t spelling rest)
    (ends : endsInName (offset + Text.byteLength spelling + Text.byteLength rest) [⟨t, offset⟩]) :
    (∀ c ∈ spelling, isNameRest c = true) ∧ t = .name (String.ofList spelling) ∧ rest = [] := by
  rw [endsInName, List.getLast?_singleton] at ends
  split at ends
  case h_2 => cases ends
  case h_1 s _ same =>
    cases same
    obtain rfl := h.of_name
    rw [String.toList_ofList, Bool.and_eq_true, List.all_eq_true, beq_iff_eq] at ends
    refine ⟨ends.1, rfl, ?_⟩
    have short : Text.byteLength rest = 0 := by omega
    cases rest with
    | nil => rfl
    | cons c rest =>
      rw [Text.byteLength] at short
      have := c.utf8Size_pos
      omega

/-- The first token of a text may be cut off. -/
theorem Lexes.of_token {offset : Nat} {t : Token} {spelling rest : List Char}
    {tokens : List Placed} (h : Lexes offset (spelling ++ rest) tokens)
    (front : Lexeme t spelling rest) :
    ∃ behind, tokens = ⟨t, offset⟩ :: behind ∧
      Lexes (offset + Text.byteLength spelling) rest behind := by
  have scanned := h.scan_eq (Nat.le_refl _)
  obtain ⟨c, more, rfl, visible⟩ := front.head
  have separates : ¬ isSpace c = true := fun hc => by
    rw [isBlank_of_isSpace hc] at visible
    cases visible
  rw [List.cons_append, List.length_cons, scan, if_neg separates, front.first_eq] at scanned
  simp only at scanned
  split at scanned
  case h_1 => cases scanned
  case h_2 behind hbehind =>
    cases scanned
    exact ⟨behind, rfl, lexes_of_scan (by rw [List.length_append]; omega) hbehind⟩

/-- The tokens of two texts with a colon between them, if the colon is left alone. -/
theorem Lexes.append_colon {offset : Nat} {s tail : List Char} {tokens more : List Placed}
    (h : Lexes offset s tokens)
    (free : endsInName (offset + Text.byteLength s) tokens = true →
      statisticOf (':' :: tail) = [])
    (behind : Lexes (offset + Text.byteLength s) (':' :: tail) more) :
    Lexes offset (s ++ ':' :: tail) (tokens ++ more) := by
  induction h with
  | nil => exact behind
  | space separates _ ih =>
    rw [Text.byteLength, utf8Size_of_isSpace separates, ← Nat.add_assoc] at behind free
    exact .space separates (ih free behind)
  | @token offset t spelling rest tokens front further ih =>
    rw [Text.byteLength_append, ← Nat.add_assoc] at behind free
    rw [List.append_assoc]
    refine .token (front.append_colon ?_) (ih ?_ behind)
    · rintro rfl rfl bare
      obtain rfl := further.eq_nil
      refine free ?_
      rw [Text.byteLength, Nat.add_zero, endsInName_singleton]
      exact List.all_eq_true.mpr bare
    · intro ends
      refine free ?_
      rwa [endsInName_cons]
      rintro rfl
      cases ends

/-- The name that a colon is swallowed by. -/
theorem Lexes.swallow {offset : Nat} {s tail : List Char} {tokens whole : List Placed}
    (h : Lexes offset s tokens) (ends : endsInName (offset + Text.byteLength s) tokens = true)
    (hwhole : Lexes offset (s ++ ':' :: tail) whole) :
    ∃ front name offset' behind, tokens = front ++ [⟨.name (String.ofList name), offset'⟩] ∧
      whole = front ++ ⟨.name (String.ofList (name ++ statisticOf (':' :: tail))), offset'⟩ ::
        behind := by
  induction h generalizing whole with
  | nil => cases ends
  | space separates _ ih =>
    rw [Text.byteLength, utf8Size_of_isSpace separates, ← Nat.add_assoc] at ends
    exact ih ends (hwhole.of_space separates)
  | @token offset t spelling rest tokens front further ih =>
    rw [Text.byteLength_append, ← Nat.add_assoc] at ends
    by_cases last : tokens = []
    · subst last
      obtain ⟨bare, rfl, rfl⟩ := front.of_endsInName ends
      rw [List.append_nil, ← statisticOf_append_drop (':' :: tail), ← List.append_assoc] at hwhole
      obtain ⟨behind, rfl, -⟩ := hwhole.of_token (front.with_statistic bare)
      exact ⟨[], spelling, offset, behind, rfl, rfl⟩
    · rw [endsInName_cons last] at ends
      rw [List.append_assoc] at hwhole
      have nonempty : rest ≠ [] := by
        rintro rfl
        exact last further.eq_nil
      obtain ⟨behind, rfl, hbehind⟩ :=
        hwhole.of_token (front.append_colon (absurd · nonempty))
      obtain ⟨before, name, offset', behind, rfl, rfl⟩ := ih ends hbehind
      exact ⟨⟨t, offset⟩ :: before, name, offset', behind, rfl, rfl⟩

end IncrementalGame.Formula.Token
