import Mathlib.Tactic.IntervalCases
import IncrementalGame.Proofs.Formula.Grammar

/-!
# The parser follows the grammar

The parser accepts a row of tokens just if the grammar has a tree for it, within the two limits, and
then it gives this tree (`parseTokens_eq_ok_iff`).

Both directions go level by level: `readerAt` is what the parser runs at a place of a level.  That
the parser takes nothing but what the grammar allows is `Sound`, by induction on the depth.  That it
takes all that the grammar allows is `Reads`, by induction on the grammar.  The operators of a level
need more than that: what spells a left operand is not read on its own, since the operator behind it
is of the same level, so it is shown to go on as a row of operands (`Reads.goesOn`).
-/

namespace IncrementalGame.Formula

/-- What the parser runs at a place of a level. -/
def readerAt (finish depth : Nat) : Nat → List Placed → Parsed Expr
  | 0 => ternary finish depth
  | 8 => primary finish (ternary finish depth)
  | level => (levels.drop (level - 1)).foldr chain (prefixed finish depth)

/-- At a level of operators the parser runs a row of what is tighter. -/
theorem readerAt_eq_chain {finish depth level : Nat} (lower : 1 ≤ level) (upper : level ≤ 6) :
    readerAt finish depth level =
      chain (operatorAt level) (readerAt finish depth (level + 1)) := by
  interval_cases level <;> simp [readerAt, levels_eq]

/-! ## What is accepted -/

/-- Whether a parser takes nothing but what spells its result. -/
def Sound (depth level : Nat) (read : List Placed → Parsed Expr) : Prop :=
  ∀ tokens e rest, read tokens = .ok (e, rest) →
    ∃ taken, tokens = taken ++ rest ∧ Spells depth level e (taken.map (·.token))

variable {finish depth level : Nat}

/-- A row that goes on behind a left side that is spelled already. -/
theorem chainRest_sound {operand : List Placed → Parsed Expr} (lower : 1 ≤ level)
    (upper : level ≤ 6) (hoperand : Sound depth (level + 1) operand) (fuel : Nat) :
    ∀ left before tokens e rest, Spells depth level left before →
      chainRest (operatorAt level) operand fuel left tokens = .ok (e, rest) →
      ∃ taken, tokens = taken ++ rest ∧
        Spells depth level e (before ++ taken.map (·.token)) := by
  -- what has been read before is all that the row needs to know when it stops
  have hstop : ∀ left before tokens e rest, Spells depth level left before →
      (.ok (left, tokens) : Parsed Expr) = .ok (e, rest) →
      ∃ taken, tokens = taken ++ rest ∧
        Spells depth level e (before ++ taken.map (·.token)) := by
    intro left before tokens e rest hleft h
    obtain ⟨rfl, rfl⟩ := Prod.mk.inj (Except.ok.inj h)
    exact ⟨[], rfl, by simpa using hleft⟩
  induction fuel with
  | zero =>
    intro left before tokens e rest hleft h
    rw [chainRest.eq_def] at h
    cases tokens <;> exact hstop _ _ _ _ _ hleft h
  | succ fuel ih =>
    intro left before tokens e rest hleft h
    cases tokens with
    | nil => exact hstop _ _ _ _ _ hleft h
    | cons t tokens =>
      rw [chainRest] at h
      cases hop : operatorAt level t.token with
      | none =>
        simp only [hop] at h
        exact hstop _ _ _ _ _ hleft h
      | some op =>
        simp only [hop] at h
        obtain ⟨htoken, rfl⟩ := operatorAt_eq_some_iff.mp hop
        cases hread : operand tokens with
        | error error =>
          rw [hread] at h
          exact absurd h (by simp)
        | ok result =>
          obtain ⟨right, others⟩ := result
          rw [hread] at h
          obtain ⟨taken, rfl, hright⟩ := hoperand _ _ _ hread
          obtain ⟨more, rfl, he⟩ := ih _ _ _ _ _ (.binary op hleft hright) h
          refine ⟨t :: (taken ++ more), by simp, ?_⟩
          simpa [htoken] using he

theorem chain_sound {operand : List Placed → Parsed Expr} (lower : 1 ≤ level) (upper : level ≤ 6)
    (hoperand : Sound depth (level + 1) operand) :
    Sound depth level (chain (operatorAt level) operand) := by
  intro tokens e rest h
  rw [chain] at h
  cases hread : operand tokens with
  | error error =>
    rw [hread] at h
    exact absurd h (by simp)
  | ok result =>
    obtain ⟨left, others⟩ := result
    rw [hread] at h
    obtain ⟨taken, rfl, hleft⟩ := hoperand _ _ _ hread
    obtain ⟨more, rfl, he⟩ :=
      chainRest_sound lower upper hoperand _ _ _ _ _ _ (.tighter lower upper hleft) h
    refine ⟨taken ++ more, by simp, ?_⟩
    simpa using he

/-- All levels of operators take what is spelled if the prefixes do. -/
theorem readerAt_sound (h : Sound depth 7 (prefixed finish depth)) (lower : 1 ≤ level)
    (upper : level ≤ 7) : Sound depth level (readerAt finish depth level) := by
  obtain ⟨height, rfl⟩ : ∃ height, level = 7 - height := ⟨7 - level, by omega⟩
  clear upper
  induction height with
  | zero => exact h
  | succ height ih =>
    rw [readerAt_eq_chain lower (by omega)]
    have hnext : 7 - (height + 1) + 1 = 7 - height := by omega
    refine chain_sound lower (by omega) ?_
    rw [hnext]
    exact ih (by omega)

/-- An expected token is taken off. -/
theorem expect_eq_ok_iff {token : Token} {what : Missing} {tokens rest : List Placed} :
    expect finish token what tokens = .ok rest ↔ ∃ offset, tokens = ⟨token, offset⟩ :: rest := by
  cases tokens with
  | nil => simp [expect]
  | cons t tokens =>
    obtain ⟨token', offset⟩ := t
    rw [expect]
    split
    next heq => simp_all
    next hne => simp_all

/-- The arguments of a call are spelled one by one, with commas between them. -/
theorem argumentsOf_sound {argument : List Placed → Parsed Expr} (h : Sound depth 0 argument)
    (fuel : Nat) :
    ∀ tokens es rest, argumentsOf finish argument fuel tokens = .ok (es, rest) →
      ∃ row : List (Expr × List Token), row ≠ [] ∧ es = row.map (·.1) ∧
        (∀ a ∈ row, Spells depth 0 a.1 a.2) ∧
        ∃ taken, tokens = taken ++ rest ∧
          taken.map (·.token) = [.comma].intercalate (row.map (·.2)) ++ [.rightParen] := by
  induction fuel with
  | zero =>
    intro tokens es rest hread
    exact absurd hread (by simp [argumentsOf])
  | succ fuel ih =>
    intro tokens es rest hread
    rw [argumentsOf] at hread
    split at hread
    next => exact absurd hread (by simp)
    next e offset others hfirst =>
      obtain ⟨rfl, rfl⟩ := Prod.mk.inj (Except.ok.inj hread)
      obtain ⟨taken, rfl, he⟩ := h _ _ _ hfirst
      refine ⟨[(e, taken.map (·.token))], by simp, rfl, by simpa using he, ?_⟩
      exact ⟨taken ++ [⟨.rightParen, offset⟩], by simp, by simp⟩
    next e offset others hfirst =>
      obtain ⟨taken, rfl, he⟩ := h _ _ _ hfirst
      cases hmore : argumentsOf finish argument fuel others with
      | error error =>
        simp only [hmore] at hread
        exact absurd hread (by simp)
      | ok result =>
        simp only [hmore] at hread
        obtain ⟨rfl, rfl⟩ := Prod.mk.inj (Except.ok.inj hread)
        obtain ⟨row, hrow, hes, hspells, more, rfl, hmap⟩ := ih _ _ _ hmore
        refine ⟨(e, taken.map (·.token)) :: row, by simp, by simp [hes], ?_, ?_⟩
        · exact List.forall_mem_cons.mpr ⟨he, hspells⟩
        · refine ⟨taken ++ ⟨.comma, offset⟩ :: more, by simp, ?_⟩
          obtain ⟨first, row, rfl⟩ := List.exists_cons_of_ne_nil hrow
          simp [hmap, List.intercalate]
    next => exact absurd hread (by simp)

theorem primary_sound {inner : List Placed → Parsed Expr} (h : Sound depth 0 inner) :
    Sound depth 8 (primary finish inner) := by
  intro tokens e rest hread
  unfold primary at hread
  split at hread
  next => exact absurd hread (by simp)
  next x offset others =>
    obtain ⟨rfl, rfl⟩ := Prod.mk.inj (Except.ok.inj hread)
    exact ⟨[⟨.number x, offset⟩], rfl, .number x⟩
  next s offset others =>
    obtain ⟨rfl, rfl⟩ := Prod.mk.inj (Except.ok.inj hread)
    exact ⟨[⟨.text s, offset⟩], rfl, .text s⟩
  next f offset offset' offset'' others =>
    obtain ⟨rfl, rfl⟩ := Prod.mk.inj (Except.ok.inj hread)
    exact ⟨[⟨.name f, offset⟩, ⟨.leftParen, offset'⟩, ⟨.rightParen, offset''⟩], rfl,
      .call f [] (by simp)⟩
  next f offset offset' others _ =>
    split at hread
    next => exact absurd hread (by simp)
    next es others' harguments =>
      obtain ⟨rfl, rfl⟩ := Prod.mk.inj (Except.ok.inj hread)
      obtain ⟨row, _, rfl, hspells, taken, rfl, hmap⟩ := argumentsOf_sound h _ _ _ _ harguments
      refine ⟨⟨.name f, offset⟩ :: ⟨.leftParen, offset'⟩ :: taken, rfl, ?_⟩
      simpa [hmap] using Spells.call f row hspells
  next s offset others _ _ =>
    obtain ⟨rfl, rfl⟩ := Prod.mk.inj (Except.ok.inj hread)
    exact ⟨[⟨.name s, offset⟩], rfl, .var s⟩
  next offset others =>
    split at hread
    next => exact absurd hread (by simp)
    next e' others' hinner =>
      split at hread
      next => exact absurd hread (by simp)
      next last hclose =>
        obtain ⟨rfl, rfl⟩ := Prod.mk.inj (Except.ok.inj hread)
        obtain ⟨taken, rfl, he⟩ := h _ _ _ hinner
        obtain ⟨offset', rfl⟩ := expect_eq_ok_iff.mp hclose
        refine ⟨⟨.leftParen, offset⟩ :: (taken ++ [⟨.rightParen, offset'⟩]), by simp, ?_⟩
        simpa using Spells.group he
  next => exact absurd hread (by simp)

theorem prefixed_sound (hprefixed : Sound depth 7 (prefixed finish depth))
    (hternary : Sound depth 0 (ternary finish depth)) :
    Sound (depth + 1) 7 (prefixed finish (depth + 1)) := by
  intro tokens e rest hread
  unfold prefixed at hread
  split at hread
  next offset others =>
    split at hread
    next => exact absurd hread (by simp)
    next e' others' hoperand =>
      obtain ⟨rfl, rfl⟩ := Prod.mk.inj (Except.ok.inj hread)
      obtain ⟨taken, rfl, he⟩ := hprefixed _ _ _ hoperand
      exact ⟨⟨.minus, offset⟩ :: taken, rfl, .unary .neg he⟩
  next offset others =>
    split at hread
    next => exact absurd hread (by simp)
    next e' others' hoperand =>
      obtain ⟨rfl, rfl⟩ := Prod.mk.inj (Except.ok.inj hread)
      obtain ⟨taken, rfl, he⟩ := hprefixed _ _ _ hoperand
      exact ⟨⟨.bang, offset⟩ :: taken, rfl, .unary .not he⟩
  next offset others =>
    obtain ⟨taken, rfl, he⟩ := hprefixed _ _ _ hread
    exact ⟨⟨.plus, offset⟩ :: taken, rfl, .plus he⟩
  next =>
    obtain ⟨taken, rfl, he⟩ := primary_sound hternary _ _ _ hread
    exact ⟨taken, rfl, .bare he⟩

theorem ternary_sound (hprefixed : Sound depth 7 (prefixed finish depth))
    (hternary : Sound depth 0 (ternary finish depth)) :
    Sound (depth + 1) 0 (ternary finish (depth + 1)) := by
  have hcondition : Sound depth 1 (readerAt finish depth 1) :=
    readerAt_sound hprefixed (by omega) (by omega)
  intro tokens e rest hread
  unfold ternary at hread
  split at hread
  next => exact absurd hread (by simp)
  next condition offset others hfirst =>
    obtain ⟨taken, rfl, hc⟩ := hcondition _ _ _ hfirst
    split at hread
    next => exact absurd hread (by simp)
    next yes others' hyes =>
      obtain ⟨takenYes, rfl, ha⟩ := hternary _ _ _ hyes
      split at hread
      next => exact absurd hread (by simp)
      next others'' hcolon =>
        obtain ⟨offset', rfl⟩ := expect_eq_ok_iff.mp hcolon
        split at hread
        next => exact absurd hread (by simp)
        next no others''' hno =>
          obtain ⟨rfl, rfl⟩ := Prod.mk.inj (Except.ok.inj hread)
          obtain ⟨takenNo, rfl, hb⟩ := hternary _ _ _ hno
          refine ⟨taken ++ ⟨.question, offset⟩ :: (takenYes ++ ⟨.colon, offset'⟩ :: takenNo),
            by simp, ?_⟩
          simpa using Spells.ternary hc ha hb
  next result _ hresult =>
    obtain ⟨taken, rfl, he⟩ := hcondition _ _ _ (hresult.trans hread)
    exact ⟨taken, rfl, .alone he⟩

/-- **The parser takes nothing but what spells its result.** -/
theorem sound (finish depth : Nat) :
    Sound depth 0 (ternary finish depth) ∧ Sound depth 7 (prefixed finish depth) := by
  induction depth with
  | zero =>
    constructor <;> intro tokens e rest hread
    · exact absurd hread (by simp [ternary])
    · exact absurd hread (by simp [prefixed])
  | succ depth ih => exact ⟨ternary_sound ih.2 ih.1, prefixed_sound ih.2 ih.1⟩

/-! ## What is taken -/

/-- Whether the parser reads a tree from what spells it: at each place where the tree stops, and, at
a level of operators, as the left side of what comes behind. -/
structure Reads (finish depth level : Nat) (e : Expr) (ts : List Token) : Prop where
  stops : ∀ tokens rest, tokens.map (·.token) = ts → Stops level rest →
    readerAt finish depth level (tokens ++ rest) = .ok (e, rest)
  goesOn : 1 ≤ level → level ≤ 6 → ∀ tokens rest, tokens.map (·.token) = ts →
    Stops (level + 1) rest → ∃ fuel, rest.length ≤ fuel ∧
      readerAt finish depth level (tokens ++ rest) =
        chainRest (operatorAt level) (readerAt finish depth (level + 1)) fuel e rest

/-- A row of operands ends where its level does. -/
theorem chainRest_of_stops {operand : List Placed → Parsed Expr} {rest : List Placed}
    (h : Stops level rest) (fuel : Nat) (e : Expr) :
    chainRest (operatorAt level) operand fuel e rest = .ok (e, rest) := by
  cases rest with
  | nil => rw [chainRest.eq_def]
  | cons t rest =>
    cases fuel with
    | zero => rw [chainRest.eq_def]
    | succ fuel =>
      rw [chainRest]
      simp only [h.operatorAt_eq_none]

theorem exists_of_map_token_eq_cons {tokens : List Placed} {t : Token} {ts : List Token}
    (h : tokens.map (·.token) = t :: ts) :
    ∃ offset others, tokens = ⟨t, offset⟩ :: others ∧ others.map (·.token) = ts := by
  obtain ⟨⟨_, offset⟩, others, rfl, rfl, rfl⟩ := List.map_eq_cons_iff.mp h
  exact ⟨offset, others, rfl, rfl⟩

/-- What does not close the parenthesis behind a name is an argument. -/
theorem primary_call {inner : List Placed → Parsed Expr} {f : String} {offset offset' : Nat}
    {t : Placed} {tokens : List Placed} (h : t.token ≠ .rightParen) {es : List Expr}
    {rest : List Placed}
    (harguments : argumentsOf finish inner ((t :: tokens).length + 1) (t :: tokens) =
      .ok (es, rest)) :
    primary finish inner (⟨.name f, offset⟩ :: ⟨.leftParen, offset'⟩ :: t :: tokens) =
      .ok (.call f es, rest) := by
  obtain ⟨token, offset''⟩ := t
  cases token with
  | rightParen => exact absurd rfl h
  | _ => simp only [primary, harguments]

namespace Reads

variable {e l r c a b : Expr} {ts us vs : List Token}

/-- Where there are no operators only the first half is to be shown. -/
theorem of_stops (hlevel : level = 0 ∨ 7 ≤ level)
    (h : ∀ tokens rest, tokens.map (·.token) = ts → Stops level rest →
      readerAt finish depth level (tokens ++ rest) = .ok (e, rest)) :
    Reads finish depth level e ts :=
  ⟨h, fun _ _ => absurd hlevel (by omega)⟩

/-- Where there are operators the second half is enough. -/
theorem of_goesOn
    (h : ∀ tokens rest, tokens.map (·.token) = ts → Stops (level + 1) rest →
      ∃ fuel, rest.length ≤ fuel ∧ readerAt finish depth level (tokens ++ rest) =
        chainRest (operatorAt level) (readerAt finish depth (level + 1)) fuel e rest) :
    Reads finish depth level e ts := by
  refine ⟨fun tokens rest htokens hrest => ?_, fun _ _ => h⟩
  obtain ⟨fuel, _, hread⟩ := h tokens rest htokens (hrest.mono (Nat.le_succ level))
  rw [hread, chainRest_of_stops hrest]

theorem tighter (lower : 1 ≤ level) (upper : level ≤ 6)
    (h : Reads finish depth (level + 1) e ts) : Reads finish depth level e ts := by
  refine of_goesOn fun tokens rest htokens hrest => ⟨rest.length, le_rfl, ?_⟩
  rw [readerAt_eq_chain lower upper, chain, h.stops tokens rest htokens hrest]

/-- An operator and its right side are one more step of the row that the left side has begun. -/
theorem binary (op : BinaryOp) (hleft : Reads finish depth op.level l ts)
    (hright : Reads finish depth (op.level + 1) r us) :
    Reads finish depth op.level (.binary op l r) (ts ++ op.token :: us) := by
  refine of_goesOn fun tokens rest htokens hrest => ?_
  obtain ⟨before, behind, rfl, hbefore, hbehind⟩ := List.map_eq_append_iff.mp htokens
  obtain ⟨offset, after, rfl, hafter⟩ := exists_of_map_token_eq_cons hbehind
  obtain ⟨fuel, hfuel, hread⟩ := hleft.goesOn op.one_le_level op.level_le_six before
    (⟨op.token, offset⟩ :: (after ++ rest)) hbefore (.operator op)
  obtain ⟨fuel, rfl⟩ : ∃ n, fuel = n + 1 := Nat.exists_eq_add_of_le' (by
    rw [List.length_cons] at hfuel
    omega)
  refine ⟨fuel, ?_, ?_⟩
  · simp only [List.length_cons, List.length_append] at hfuel
    omega
  · rw [List.append_assoc, List.cons_append, hread, chainRest]
    simp only [operatorAt_token, hright.stops after rest hafter hrest]

/-! ### Primaries -/

theorem number (x : Float) : Reads finish depth 8 (.number x) [.number x] := by
  refine of_stops (by omega) fun tokens rest htokens _ => ?_
  obtain ⟨offset, others, rfl, hothers⟩ := exists_of_map_token_eq_cons htokens
  obtain rfl := List.map_eq_nil_iff.mp hothers
  rfl

theorem text (s : String) : Reads finish depth 8 (.text s) [.text s] := by
  refine of_stops (by omega) fun tokens rest htokens _ => ?_
  obtain ⟨offset, others, rfl, hothers⟩ := exists_of_map_token_eq_cons htokens
  obtain rfl := List.map_eq_nil_iff.mp hothers
  rfl

/-- A name is no call unless a parenthesis comes behind it. -/
theorem var (s : String) : Reads finish depth 8 (.var s) [.name s] := by
  refine of_stops (by omega) fun tokens rest htokens hrest => ?_
  obtain ⟨offset, others, rfl, hothers⟩ := exists_of_map_token_eq_cons htokens
  obtain rfl := List.map_eq_nil_iff.mp hothers
  cases rest with
  | nil => rfl
  | cons t rest =>
    obtain ⟨token, offset'⟩ := t
    cases token with
    | leftParen => exact absurd (hrest _ rfl 8 rfl) (by omega)
    | _ => rfl

theorem group (h : Reads finish depth 0 e ts) :
    Reads finish depth 8 e (.leftParen :: (ts ++ [.rightParen])) := by
  refine of_stops (by omega) fun tokens rest htokens _ => ?_
  obtain ⟨offset, others, rfl, hothers⟩ := exists_of_map_token_eq_cons htokens
  obtain ⟨inside, behind, rfl, hinside, hbehind⟩ := List.map_eq_append_iff.mp hothers
  obtain ⟨offset', last, rfl, hlast⟩ := exists_of_map_token_eq_cons hbehind
  obtain rfl := List.map_eq_nil_iff.mp hlast
  have hread := h.stops inside (⟨.rightParen, offset'⟩ :: rest) hinside (.of_joins_eq_none rfl)
  show primary finish _ (⟨.leftParen, offset⟩ :: (inside ++ [⟨.rightParen, offset'⟩] ++ rest)) = _
  rw [readerAt] at hread
  rw [primary, List.append_assoc, List.singleton_append, hread]
  rfl

/-- The arguments of a call are read one by one. -/
theorem arguments (row : List (Expr × List Token)) (hrow : row ≠ [])
    (h : ∀ x ∈ row, Reads finish depth 0 x.1 x.2) (fuel : Nat) (hfuel : row.length ≤ fuel)
    (tokens rest : List Placed)
    (htokens : tokens.map (·.token) = [.comma].intercalate (row.map (·.2)) ++ [.rightParen]) :
    argumentsOf finish (ternary finish depth) fuel (tokens ++ rest) =
      .ok (row.map (·.1), rest) := by
  induction row generalizing fuel tokens with
  | nil => exact absurd rfl hrow
  | cons first row ih =>
    obtain ⟨fuel, rfl⟩ : ∃ n, fuel = n + 1 := Nat.exists_eq_add_of_le' (by
      rw [List.length_cons] at hfuel
      omega)
    obtain ⟨hfirst, hothers⟩ := List.forall_mem_cons.mp h
    cases row with
    | nil =>
      rw [List.map_singleton, List.intercalate_singleton] at htokens
      obtain ⟨taken, behind, rfl, htaken, hbehind⟩ := List.map_eq_append_iff.mp htokens
      obtain ⟨offset, last, rfl, hlast⟩ := exists_of_map_token_eq_cons hbehind
      obtain rfl := List.map_eq_nil_iff.mp hlast
      have hread := hfirst.stops taken (⟨.rightParen, offset⟩ :: rest) htaken
        (.of_joins_eq_none rfl)
      rw [readerAt] at hread
      rw [argumentsOf, List.append_assoc, List.singleton_append, hread]
      rfl
    | cons second row =>
      rw [List.map_cons, List.map_cons, List.intercalate_cons_cons, List.append_assoc,
        List.append_assoc] at htokens
      obtain ⟨taken, behind, rfl, htaken, hbehind⟩ := List.map_eq_append_iff.mp htokens
      obtain ⟨offset, more, rfl, hmore⟩ := exists_of_map_token_eq_cons hbehind
      have hread := hfirst.stops taken (⟨.comma, offset⟩ :: (more ++ rest)) htaken
        (.of_joins_eq_none rfl)
      rw [readerAt] at hread
      have hlater := ih (by simp) hothers fuel (by simpa using hfuel) more hmore
      rw [argumentsOf, List.append_assoc, List.cons_append, hread]
      simp only [hlater]
      rfl

theorem call (f : String) (row : List (Expr × List Token))
    (hspells : ∀ x ∈ row, Spells depth 0 x.1 x.2)
    (h : ∀ x ∈ row, Reads finish depth 0 x.1 x.2) :
    Reads finish depth 8 (.call f (row.map (·.1)))
      (.name f :: .leftParen :: ([.comma].intercalate (row.map (·.2)) ++ [.rightParen])) := by
  refine of_stops (by omega) fun tokens rest htokens _ => ?_
  obtain ⟨offset, others, rfl, hothers⟩ := exists_of_map_token_eq_cons htokens
  obtain ⟨offset', inside, rfl, hinside⟩ := exists_of_map_token_eq_cons hothers
  cases row with
  | nil =>
    obtain ⟨offset'', last, rfl, hlast⟩ := exists_of_map_token_eq_cons hinside
    obtain rfl := List.map_eq_nil_iff.mp hlast
    rfl
  | cons first row =>
    have hlength : (first :: row).length ≤ (inside ++ rest).length + 1 := by
      have hmap := congrArg List.length hinside
      simp only [List.length_map, List.length_append, length_intercalate_comma,
        List.length_cons] at hmap ⊢
      omega
    have hread := arguments (first :: row) (by simp) h _ hlength inside rest hinside
    -- the first argument does not start with a parenthesis that closes the call
    obtain ⟨t, us, hfirst, hstart, _⟩ := (hspells first List.mem_cons_self).head
    have hhead : ∃ vs, inside.map (·.token) = t :: vs := by
      rw [hinside, List.map_cons, hfirst]
      cases row with
      | nil => exact ⟨_, rfl⟩
      | cons second row => exact ⟨_, rfl⟩
    obtain ⟨vs, hvs⟩ := hhead
    obtain ⟨offset'', more, rfl, _⟩ := exists_of_map_token_eq_cons hvs
    refine primary_call ?_ hread
    rintro rfl
    exact absurd hstart (by decide)

/-! ### Prefixes and ternaries -/

theorem bare (hspells : Spells depth 8 e ts) (h : Reads finish depth 8 e ts) :
    Reads finish (depth + 1) 7 e ts := by
  refine of_stops (by omega) fun tokens rest htokens hrest => ?_
  obtain ⟨t, us, rfl, _, hstart⟩ := hspells.head
  have hread := h.stops tokens rest htokens (hrest.mono (by omega))
  obtain ⟨offset, others, rfl, hothers⟩ := exists_of_map_token_eq_cons htokens
  rw [readerAt] at hread
  show prefixed finish (depth + 1) (⟨t, offset⟩ :: (others ++ rest)) = _
  rw [← hread, List.cons_append]
  cases t <;> first | rfl | exact absurd (hstart rfl) (by decide)

theorem unary (op : UnaryOp) (h : Reads finish depth 7 e ts) :
    Reads finish (depth + 1) 7 (.unary op e) (op.token :: ts) := by
  refine of_stops (by omega) fun tokens rest htokens hrest => ?_
  obtain ⟨offset, others, rfl, hothers⟩ := exists_of_map_token_eq_cons htokens
  have hread : prefixed finish depth (others ++ rest) = .ok (e, rest) :=
    h.stops others rest hothers hrest
  show prefixed finish (depth + 1) (⟨op.token, offset⟩ :: (others ++ rest)) = _
  cases op <;> simp only [UnaryOp.token, prefixed, hread]

theorem plus (h : Reads finish depth 7 e ts) : Reads finish (depth + 1) 7 e (.plus :: ts) := by
  refine of_stops (by omega) fun tokens rest htokens hrest => ?_
  obtain ⟨offset, others, rfl, hothers⟩ := exists_of_map_token_eq_cons htokens
  have hread : prefixed finish depth (others ++ rest) = .ok (e, rest) :=
    h.stops others rest hothers hrest
  show prefixed finish (depth + 1) (⟨.plus, offset⟩ :: (others ++ rest)) = _
  rw [prefixed, hread]

theorem alone (h : Reads finish depth 1 e ts) : Reads finish (depth + 1) 0 e ts := by
  refine of_stops (by omega) fun tokens rest htokens hrest => ?_
  have hread : binaryLevels (prefixed finish depth) (tokens ++ rest) = .ok (e, rest) :=
    h.stops tokens rest htokens (hrest.mono (by omega))
  show ternary finish (depth + 1) (tokens ++ rest) = _
  unfold ternary
  rw [hread]
  split
  next heq => exact absurd heq (by simp)
  next heq =>
    obtain ⟨-, rfl⟩ := Prod.mk.inj (Except.ok.inj heq)
    exact absurd (hrest _ rfl 0 rfl) (by omega)
  next heq => exact heq.symm

theorem ternary (hc : Reads finish depth 1 c ts) (ha : Reads finish depth 0 a us)
    (hb : Reads finish depth 0 b vs) :
    Reads finish (depth + 1) 0 (.ternary c a b) (ts ++ .question :: (us ++ .colon :: vs)) := by
  refine of_stops (by omega) fun tokens rest htokens hrest => ?_
  obtain ⟨condition, behind, rfl, hcondition, hbehind⟩ := List.map_eq_append_iff.mp htokens
  obtain ⟨offset, sides, rfl, hsides⟩ := exists_of_map_token_eq_cons hbehind
  obtain ⟨yes, behind, rfl, hyes, hbehind⟩ := List.map_eq_append_iff.mp hsides
  obtain ⟨offset', no, rfl, hno⟩ := exists_of_map_token_eq_cons hbehind
  have hreadCondition : binaryLevels (prefixed finish depth)
      (condition ++ ⟨.question, offset⟩ :: (yes ++ ⟨.colon, offset'⟩ :: (no ++ rest))) = _ :=
    hc.stops condition _ hcondition .question
  have hreadYes : Formula.ternary finish depth (yes ++ ⟨.colon, offset'⟩ :: (no ++ rest)) = _ :=
    ha.stops yes _ hyes (.of_joins_eq_none rfl)
  have hreadNo : Formula.ternary finish depth (no ++ rest) = _ := hb.stops no rest hno hrest
  show Formula.ternary finish (depth + 1) _ = _
  simp only [List.append_assoc, List.cons_append]
  rw [Formula.ternary, hreadCondition]
  simp only [hreadYes, expect, if_true, hreadNo]

end Reads

/-- **The parser takes all that the grammar allows.** -/
theorem Spells.reads {e : Expr} {ts : List Token} (h : Spells depth level e ts) :
    Reads finish depth level e ts := by
  induction h with
  | number x => exact .number x
  | text s => exact .text s
  | var s => exact .var s
  | call f row harguments ih => exact .call f row harguments ih
  | group _ ih => exact ih.group
  | bare operand ih => exact .bare operand ih
  | unary op _ ih => exact .unary op ih
  | plus _ ih => exact ih.plus
  | tighter lower upper _ ih => exact ih.tighter lower upper
  | binary op _ _ ihl ihr => exact .binary op ihl ihr
  | alone _ ih => exact ih.alone
  | ternary _ _ _ ihc iha ihb => exact .ternary ihc iha ihb

/-! ## The whole parser -/

/-- **The parser accepts a row of tokens just if it is not too long and spells a tree without too
many levels open at once**, and then it gives this tree. -/
theorem parseTokens_eq_ok_iff {tokens : List Placed} {e : Expr} :
    parseTokens finish tokens = .ok e ↔
      tokens.length ≤ maxTokens ∧ Spells maxDepth 0 e (tokens.map (·.token)) := by
  rw [parseTokens]
  cases hlong : tokens[maxTokens]? with
  | some t =>
    have hlt := (List.getElem?_eq_some_iff.mp hlong).1
    simp only [reduceCtorEq, false_iff, not_and]
    intro hle
    omega
  | none =>
    have hle := List.getElem?_eq_none_iff.mp hlong
    constructor
    · intro h
      refine ⟨hle, ?_⟩
      simp only at h
      split at h
      next => exact absurd h (by simp)
      next e' hread =>
        obtain rfl := Except.ok.inj h
        obtain ⟨taken, htokens, he⟩ := (sound finish maxDepth).1 _ _ _ hread
        rw [htokens, List.append_nil]
        exact he
      next => exact absurd h (by simp)
    · rintro ⟨-, he⟩
      have hreads : Reads finish maxDepth 0 e (tokens.map (·.token)) := he.reads
      have hread := hreads.stops tokens [] rfl .nil
      rw [List.append_nil, readerAt] at hread
      simp only [hread]

end IncrementalGame.Formula
