import IncrementalGame.Proofs.Json.Numbers
import IncrementalGame.Proofs.Json.Strings

/-!
# What is written is read

The compact text of a value is read as the document that lists its parts (`Json.document`), whatever
stands behind it that does not go on with a number (`readValue_render`), and as a whole
(`read_render`).  All that is asked of the numbers in it is that their own texts are read to the end
(`Json.Legible`); a number that is not finite is written as null and read as null.

The bound that reading takes is the length of what it reads: a value is at least as long as the
steps that lead through it.
-/

namespace IncrementalGame

open Document

/-! ## The document of a value -/

/-- The document that the text of a number is read as. -/
def Number.document (n : Number) : Document :=
  match readNumber n.render.toList with
  | some (literal, _) => .number literal
  | none => .null

/-- Whether the text of a number is read to its end. -/
def Number.Legible (n : Number) : Prop :=
  n.render = "null" ∨ ∃ literal, readNumber n.render.toList = some (literal, [])

namespace Json

mutual

/-- The document that the text of a value is read as. -/
def document : Json → Document
  | .null => .null
  | .bool b => .bool b
  | .num n => n.document
  | .str s => .text (some s)
  | .arr items => .array (itemDocuments items)
  | .obj fields => .object (fieldDocuments fields)

/-- The documents of the items of an array. -/
def itemDocuments : List Json → List Document
  | [] => []
  | item :: items => item.document :: itemDocuments items

/-- The documents of the fields of an object. -/
def fieldDocuments : List (String × Json) → List (Option String × Document)
  | [] => []
  | (key, value) :: fields => (some key, value.document) :: fieldDocuments fields

end

mutual

/-- Whether the texts of all numbers in a value are read to their ends. -/
def Legible : Json → Prop
  | .null => True
  | .bool _ => True
  | .num n => n.Legible
  | .str _ => True
  | .arr items => ItemsLegible items
  | .obj fields => FieldsLegible fields

/-- Whether all items of an array are legible. -/
def ItemsLegible : List Json → Prop
  | [] => True
  | item :: items => item.Legible ∧ ItemsLegible items

/-- Whether all fields of an object are legible. -/
def FieldsLegible : List (String × Json) → Prop
  | [] => True
  | (_, value) :: fields => value.Legible ∧ FieldsLegible fields

end

theorem legible_bool (b : Bool) : (Json.bool b).Legible := by
  rw [Legible]
  trivial

theorem legible_str (s : String) : (Json.str s).Legible := by
  rw [Legible]
  trivial

end Json

/-! ## First characters -/

namespace Document

theorem skip_of_head {c : Char} (h : isSpace c = false) (s : List Char) :
    skip (c :: s) = c :: s := by
  rw [skip, List.dropWhile_cons, h, if_neg Bool.false_ne_true]

/-- Whether a value may start with a character. -/
def StartsValue (c : Char) : Prop := isSpace c = false ∧ c ≠ ']'

instance (c : Char) : Decidable (StartsValue c) := inferInstanceAs (Decidable (_ ∧ _))

/-- Whether a number may start with a character. -/
def StartsNumber (c : Char) : Prop := isDigit c = true ∨ c = '-'

instance (c : Char) : Decidable (StartsNumber c) := inferInstanceAs (Decidable (_ ∨ _))

theorem StartsNumber.ne {c d : Char} (h : StartsNumber c) (hd : ¬ StartsNumber d) : c ≠ d := by
  rintro rfl
  exact hd h

theorem StartsNumber.not_isSpace {c : Char} (h : StartsNumber c) : isSpace c = false := by
  have hspace : c ≠ ' ' := h.ne (by decide)
  have htab : c ≠ '\t' := h.ne (by decide)
  have hnewline : c ≠ '\n' := h.ne (by decide)
  have hreturn : c ≠ '\r' := h.ne (by decide)
  simp [isSpace, hspace, htab, hnewline, hreturn]

theorem readValue_number {c : Char} (h : StartsNumber c) (fuel : Nat) (s : List Char) :
    readValue (fuel + 1) (c :: s) =
      (readNumber (c :: s)).map fun found => (.number found.1, found.2) := by
  unfold readValue
  rw [skip_of_head h.not_isSpace]
  split
  next hc => exact absurd (List.cons.inj hc).1 (h.ne (by decide))
  next hc => exact absurd (List.cons.inj hc).1 (h.ne (by decide))
  next hc => exact absurd (List.cons.inj hc).1 (h.ne (by decide))
  next hc => exact absurd (List.cons.inj hc).1 (h.ne (by decide))
  next hc => exact absurd (List.cons.inj hc).1 (h.ne (by decide))
  next hc => exact absurd (List.cons.inj hc).1 (h.ne (by decide))
  next => rfl

theorem readValue_array {c : Char} (h : StartsValue c) (fuel : Nat) (s : List Char) :
    readValue (fuel + 1) ('[' :: c :: s) =
      (readItems fuel (c :: s)).map fun found => (.array found.1, found.2) := by
  have hopen : isSpace '[' = false := rfl
  have hskip := skip_of_head h.1 s
  unfold readValue
  rw [skip_of_head hopen]
  split
  next hc => exact absurd (List.cons.inj hc).1 (by decide)
  next hc => exact absurd (List.cons.inj hc).1 (by decide)
  next hc => exact absurd (List.cons.inj hc).1 (by decide)
  next hc => exact absurd (List.cons.inj hc).1 (by decide)
  next hc =>
    rw [← (List.cons.inj hc).2, hskip]
    split
    next hc => exact absurd (List.cons.inj hc).1 h.2
    next => rfl
  next hc => exact absurd (List.cons.inj hc).1 (by decide)
  next hno _ => exact absurd rfl (hno (c :: s))

theorem readValue_object (fuel : Nat) (s : List Char) :
    readValue (fuel + 1) ('\x7b' :: '"' :: s) =
      (readFields fuel ('"' :: s)).map fun found => (.object found.1, found.2) := rfl

end Document

/-! ## Texts as characters -/

namespace Json

theorem toList_literal (s : String) :
    (literal s).toList = '"' :: (s.toList.flatMap escapeChar ++ ['"']) := by
  rw [literal, String.toList_ofList]
  rfl

theorem toList_render_arr (items : List Json) :
    (render (.arr items)).toList = '[' :: ((renderItems items).toList ++ [']']) := by
  rw [render, String.toList_append, String.toList_append]
  rfl

theorem toList_render_obj (fields : List (String × Json)) :
    (render (.obj fields)).toList = '\x7b' :: ((renderFields fields).toList ++ ['\x7d']) := by
  rw [render, String.toList_append, String.toList_append]
  rfl

theorem toList_renderItems_cons (item next : Json) (items : List Json) :
    (renderItems (item :: next :: items)).toList =
      item.render.toList ++ ',' :: (renderItems (next :: items)).toList := by
  rw [renderItems, String.toList_append, String.toList_append, List.append_assoc]
  · rfl
  · simp

theorem toList_renderFields_singleton (key : String) (value : Json) :
    (renderFields [(key, value)]).toList = (literal key).toList ++ ':' :: value.render.toList := by
  rw [renderFields, String.toList_append, String.toList_append, List.append_assoc]
  rfl

theorem toList_renderFields_cons (key : String) (value : Json) (next : String × Json)
    (fields : List (String × Json)) :
    (renderFields ((key, value) :: next :: fields)).toList =
      (literal key).toList ++ ':' :: (value.render.toList ++
        ',' :: (renderFields (next :: fields)).toList) := by
  rw [renderFields]
  · simp only [String.toList_append, List.append_assoc]
    rfl
  · simp

/-- The text of a value starts with a character that a value may start with. -/
theorem exists_head_render {j : Json} (h : j.Legible) :
    ∃ c s, j.render.toList = c :: s ∧ StartsValue c := by
  cases j with
  | null => exact ⟨'n', _, rfl, by decide⟩
  | bool b => cases b with
    | true => exact ⟨'t', _, rfl, by decide⟩
    | false => exact ⟨'f', _, rfl, by decide⟩
  | num n =>
    rw [Legible] at h
    rcases h with h | ⟨l, h⟩
    · exact ⟨'n', _, by rw [render, h]; rfl, by decide⟩
    · obtain ⟨c, s, hs, hc⟩ := exists_head_of_readNumber h
      exact ⟨c, s, hs, StartsNumber.not_isSpace hc, StartsNumber.ne hc (by decide)⟩
  | str s => exact ⟨'"', _, toList_literal s, by decide⟩
  | arr items => exact ⟨'[', _, toList_render_arr items, by decide⟩
  | obj fields => exact ⟨'\x7b', _, toList_render_obj fields, by decide⟩

end Json

/-! ## Reading -/

namespace Json

theorem endsNumber_comma (rest : List Char) : EndsNumber (',' :: rest) :=
  endsNumber_cons (by decide) (by decide) (by decide) (by decide) rest

theorem endsNumber_bracket (rest : List Char) : EndsNumber (']' :: rest) :=
  endsNumber_cons (by decide) (by decide) (by decide) (by decide) rest

theorem endsNumber_brace (rest : List Char) : EndsNumber ('\x7d' :: rest) :=
  endsNumber_cons (by decide) (by decide) (by decide) (by decide) rest

theorem readValue_num {n : Number} (h : n.Legible) {rest : List Char} (hrest : EndsNumber rest)
    {fuel : Nat} (hfuel : 0 < fuel) :
    readValue fuel (n.render.toList ++ rest) = some (n.document, rest) := by
  obtain ⟨fuel, rfl⟩ := Nat.exists_eq_add_one_of_ne_zero hfuel.ne'
  unfold Number.document
  rcases h with h | ⟨l, h⟩
  · rw [h]
    rfl
  · obtain ⟨c, s, hs, hc⟩ := exists_head_of_readNumber h
    have happend := readNumber_append h hrest
    rw [hs, List.cons_append] at happend
    rw [h, hs, List.cons_append, readValue_number hc, happend]
    rfl

theorem exists_head_renderItems {items : List Json} (hne : items ≠ []) (h : ItemsLegible items) :
    ∃ c s, (renderItems items).toList = c :: s ∧ StartsValue c := by
  match items with
  | [] => exact absurd rfl hne
  | [item] =>
    rw [ItemsLegible] at h
    exact exists_head_render (j := item) h.1
  | item :: next :: items =>
    rw [ItemsLegible] at h
    obtain ⟨c, s, hs, hc⟩ := exists_head_render (j := item) h.1
    rw [toList_renderItems_cons, hs]
    exact ⟨c, _, rfl, hc⟩

theorem exists_head_renderFields {fields : List (String × Json)} (hne : fields ≠ []) :
    ∃ s, (renderFields fields).toList = '"' :: s := by
  match fields with
  | [] => exact absurd rfl hne
  | [(key, value)] =>
    rw [toList_renderFields_singleton, toList_literal]
    exact ⟨_, rfl⟩
  | (key, value) :: next :: fields =>
    rw [toList_renderFields_cons, toList_literal]
    exact ⟨_, rfl⟩

/-- A field is read as its key first. -/
theorem toList_field (key : String) (s : List Char) :
    (literal key).toList ++ ':' :: s =
      '"' :: (key.toList.flatMap escapeChar ++ '"' :: ':' :: s) := by
  rw [toList_literal, List.cons_append, List.append_assoc]
  rfl

theorem skip_colon (s : List Char) : skip (':' :: s) = ':' :: s := skip_of_head (by decide) s

/-- The last field of an object. -/
theorem readFields_last (key : String) {value : Document} {s rest : List Char} {fuel : Nat}
    (hvalue : readValue fuel s = some (value, '\x7d' :: rest)) :
    readFields (fuel + 1) ((literal key).toList ++ ':' :: s) =
      some ([(some key, value)], rest) := by
  rw [toList_field]
  simp only [readFields, skip_of_head (show isSpace '"' = false by decide), readString_literal,
    skip_colon, hvalue, skip_of_head (show isSpace '\x7d' = false by decide)]

/-- A field that others follow. -/
theorem readFields_more (key : String) {value : Document} {s rest behind : List Char} {fuel : Nat}
    {others : List (Option String × Document)}
    (hvalue : readValue fuel s = some (value, ',' :: rest))
    (hothers : readFields fuel rest = some (others, behind)) :
    readFields (fuel + 1) ((literal key).toList ++ ':' :: s) =
      some ((some key, value) :: others, behind) := by
  rw [toList_field]
  simp only [readFields, skip_of_head (show isSpace '"' = false by decide), readString_literal,
    skip_colon, hvalue, skip_of_head (show isSpace ',' = false by decide), hothers,
    Option.map_some]

/-- What is read with a bound on the steps: values, and items and fields up to the closing bracket.
Whatever is written in no more characters than the bound is read. -/
structure Reads (fuel : Nat) : Prop where
  value : ∀ (j : Json), j.Legible → ∀ (rest : List Char), EndsNumber rest →
    j.render.toList.length ≤ fuel →
    readValue fuel (j.render.toList ++ rest) = some (j.document, rest)
  items : ∀ (items : List Json), items ≠ [] → ItemsLegible items → ∀ (rest : List Char),
    (renderItems items).toList.length + 1 ≤ fuel →
    readItems fuel ((renderItems items).toList ++ ']' :: rest) = some (itemDocuments items, rest)
  fields : ∀ (fields : List (String × Json)), fields ≠ [] → FieldsLegible fields →
    ∀ (rest : List Char), (renderFields fields).toList.length + 1 ≤ fuel →
    readFields fuel ((renderFields fields).toList ++ '\x7d' :: rest) =
      some (fieldDocuments fields, rest)

namespace Reads

variable {fuel : Nat}

theorem value_succ (ih : Reads fuel) (j : Json) (h : j.Legible) (rest : List Char)
    (hrest : EndsNumber rest) (hfuel : j.render.toList.length ≤ fuel + 1) :
    readValue (fuel + 1) (j.render.toList ++ rest) = some (j.document, rest) := by
  cases j with
  | num n =>
    rw [Legible] at h
    exact readValue_num h hrest (Nat.succ_pos fuel)
  | null => rfl
  | bool b => cases b <;> rfl
  | str written =>
    have hliteral : (render (.str written)).toList ++ rest =
        '"' :: (written.toList.flatMap escapeChar ++ '"' :: rest) := by
      rw [render, toList_literal, List.cons_append, List.append_assoc]
      rfl
    rw [hliteral]
    show (readString (written.toList.flatMap escapeChar ++ '"' :: rest)).map _ = _
    rw [readString_literal]
    rfl
  | arr items =>
    rw [Legible] at h
    rw [toList_render_arr] at hfuel ⊢
    rw [List.length_cons, List.length_append, List.length_singleton] at hfuel
    by_cases hne : items = []
    · rw [hne]
      rfl
    · have hread := ih.items items hne h rest (by omega)
      obtain ⟨c, s, hs, hc⟩ := exists_head_renderItems hne h
      rw [hs, List.cons_append] at hread
      rw [hs, List.cons_append, List.cons_append, List.cons_append, List.append_assoc,
        readValue_array hc]
      show (readItems fuel (c :: (s ++ ']' :: rest))).map _ = _
      rw [hread]
      rfl
  | obj fields =>
    rw [Legible] at h
    rw [toList_render_obj] at hfuel ⊢
    rw [List.length_cons, List.length_append, List.length_singleton] at hfuel
    by_cases hne : fields = []
    · rw [hne]
      rfl
    · have hread := ih.fields fields hne h rest (by omega)
      obtain ⟨s, hs⟩ := exists_head_renderFields hne
      rw [hs, List.cons_append] at hread
      rw [hs, List.cons_append, List.cons_append, List.cons_append, List.append_assoc,
        readValue_object]
      show (readFields fuel ('"' :: (s ++ '\x7d' :: rest))).map _ = _
      rw [hread]
      rfl

theorem items_succ (ih : Reads fuel) (items : List Json) (hne : items ≠ [])
    (h : ItemsLegible items) (rest : List Char)
    (hfuel : (renderItems items).toList.length + 1 ≤ fuel + 1) :
    readItems (fuel + 1) ((renderItems items).toList ++ ']' :: rest) =
      some (itemDocuments items, rest) := by
  match items with
  | [] => exact absurd rfl hne
  | [item] =>
    rw [ItemsLegible] at h
    rw [renderItems] at hfuel ⊢
    have hread := ih.value item h.1 _ (endsNumber_bracket rest) (by omega)
    simp only [readItems, hread, skip_of_head (show isSpace ']' = false by decide)]
    rfl
  | item :: next :: items =>
    rw [ItemsLegible] at h
    rw [toList_renderItems_cons, List.length_append, List.length_cons] at hfuel
    have hread := ih.value item h.1 _
      (endsNumber_comma ((renderItems (next :: items)).toList ++ ']' :: rest)) (by omega)
    have hothers := ih.items (next :: items) (List.cons_ne_nil _ _) h.2 rest (by omega)
    rw [toList_renderItems_cons, List.append_assoc, List.cons_append]
    simp only [readItems, hread, skip_of_head (show isSpace ',' = false by decide), hothers,
      Option.map_some]
    rfl

theorem fields_succ (ih : Reads fuel) (fields : List (String × Json)) (hne : fields ≠ [])
    (h : FieldsLegible fields) (rest : List Char)
    (hfuel : (renderFields fields).toList.length + 1 ≤ fuel + 1) :
    readFields (fuel + 1) ((renderFields fields).toList ++ '\x7d' :: rest) =
      some (fieldDocuments fields, rest) := by
  cases fields with
  | nil => exact absurd rfl hne
  | cons field fields =>
    obtain ⟨key, value⟩ := field
    rw [FieldsLegible] at h
    cases fields with
    | nil =>
      rw [toList_renderFields_singleton, List.length_append, List.length_cons] at hfuel
      have hread := ih.value value h.1 _ (endsNumber_brace rest) (by omega)
      rw [toList_renderFields_singleton, List.append_assoc, List.cons_append,
        readFields_last key hread]
      rfl
    | cons next fields =>
      rw [toList_renderFields_cons, List.length_append, List.length_cons, List.length_append,
        List.length_cons] at hfuel
      have hread := ih.value value h.1 _
        (endsNumber_comma ((renderFields (next :: fields)).toList ++ '\x7d' :: rest)) (by omega)
      have hothers := ih.fields (next :: fields) (List.cons_ne_nil _ _) h.2 rest (by omega)
      rw [toList_renderFields_cons, List.append_assoc, List.cons_append, List.append_assoc,
        List.cons_append, readFields_more key hread hothers]
      rfl

end Reads

/-- **The text of a value is read as its document**, whatever stands behind it. -/
theorem reads (fuel : Nat) : Reads fuel := by
  induction fuel with
  | zero =>
    refine ⟨fun j h rest _ hfuel => ?_, fun _ _ _ _ hfuel => absurd hfuel (by omega),
      fun _ _ _ _ hfuel => absurd hfuel (by omega)⟩
    obtain ⟨c, s, hs, _⟩ := exists_head_render h
    rw [hs, List.length_cons] at hfuel
    omega
  | succ fuel ih => exact ⟨ih.value_succ, ih.items_succ, ih.fields_succ⟩

/-- The text of a value as a whole is read as its document. -/
theorem read_render {j : Json} (h : j.Legible) : Document.read j.render = some j.document := by
  have hread := (reads (2 * j.render.toList.length + 2)).value j h [] endsNumber_nil (by omega)
  rw [List.append_nil] at hread
  rw [Document.read, hread]
  rfl

end Json

end IncrementalGame
