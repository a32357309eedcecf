import IncrementalGame.Json.Value
import IncrementalGame.Proofs.Binary64.Overflow

/-!
# Proper values

A value that stands for a JSON document is narrower than its type: an integer lies in one of the two
64-bit ranges, any other number is finite, and an object lists its fields in key order, each key
once.  A value is `Proper` if all of this holds throughout, and then so it is for what is found in
it.
-/

namespace IncrementalGame

/-- Whether a number is one that a document can write. -/
def Number.Proper : Number → Prop
  | .int n => -2 ^ 63 ≤ n ∧ n < 2 ^ 64
  | .real x => x.isFinite = true

instance : DecidablePred Number.Proper
  | .int n => inferInstanceAs (Decidable (-2 ^ 63 ≤ n ∧ n < 2 ^ 64))
  | .real x => inferInstanceAs (Decidable (x.isFinite = true))

theorem Number.Proper.natAbs_lt {n : Int} (h : (Number.int n).Proper) : n.natAbs < 2 ^ 64 := by
  obtain ⟨hlow, hhigh⟩ := h
  omega

/-- A proper number has a nearest binary64 number, which is finite. -/
theorem Number.Proper.isFinite_toFloat {n : Number} (h : n.Proper) :
    n.toFloat.isFinite = true := by
  cases n with
  | int n => exact (Binary64.nearest_ofInt h.natAbs_lt).1
  | real x => exact h

namespace Json

mutual

/-- Whether a value stands for a document. -/
def Proper : Json → Prop
  | .null => True
  | .bool _ => True
  | .num n => n.Proper
  | .str _ => True
  | .arr items => ItemsProper items
  | .obj fields => fields.Pairwise (fun a b => a.1 < b.1) ∧ FieldsProper fields

/-- Whether the items of an array stand for documents. -/
def ItemsProper : List Json → Prop
  | [] => True
  | item :: items => item.Proper ∧ ItemsProper items

/-- Whether the values of some fields stand for documents. -/
def FieldsProper : List (String × Json) → Prop
  | [] => True
  | (_, value) :: fields => value.Proper ∧ FieldsProper fields

end

mutual

/-- Whether a value stands for a document can be found out. -/
def decideProper : (value : Json) → Decidable value.Proper
  | .null => .isTrue trivial
  | .bool _ => .isTrue trivial
  | .num n => inferInstanceAs (Decidable n.Proper)
  | .str _ => .isTrue trivial
  | .arr items => decideItemsProper items
  | .obj fields =>
    have := decideFieldsProper fields
    inferInstanceAs (Decidable (fields.Pairwise (fun a b => a.1 < b.1) ∧ FieldsProper fields))

/-- The same for the items of an array. -/
def decideItemsProper : (items : List Json) → Decidable (ItemsProper items)
  | [] => .isTrue trivial
  | item :: items =>
    have := decideProper item
    have := decideItemsProper items
    inferInstanceAs (Decidable (item.Proper ∧ ItemsProper items))

/-- The same for the values of some fields. -/
def decideFieldsProper : (fields : List (String × Json)) → Decidable (FieldsProper fields)
  | [] => .isTrue trivial
  | (_, value) :: fields =>
    have := decideProper value
    have := decideFieldsProper fields
    inferInstanceAs (Decidable (value.Proper ∧ FieldsProper fields))

end

instance : DecidablePred Proper := decideProper

theorem itemsProper_iff {items : List Json} :
    ItemsProper items ↔ ∀ item ∈ items, item.Proper := by
  induction items with
  | nil => simp [ItemsProper]
  | cons item items ih => simp [ItemsProper, ih]

theorem fieldsProper_iff {fields : List (String × Json)} :
    FieldsProper fields ↔ ∀ field ∈ fields, field.2.Proper := by
  induction fields with
  | nil => simp [FieldsProper]
  | cons field fields ih => simp [FieldsProper, ih]

/-! ## What is found in a proper value -/

theorem Proper.number {n : Number} (h : (num n).Proper) : n.Proper := by
  rwa [Proper] at h

theorem Proper.of_mem_items {items : List Json} (h : (arr items).Proper) {item : Json}
    (hitem : item ∈ items) : item.Proper := by
  rw [Proper] at h
  exact itemsProper_iff.mp h item hitem

variable {fields : List (String × Json)}

theorem Proper.ascending (h : (obj fields).Proper) :
    fields.Pairwise fun a b => a.1 < b.1 := by
  rw [Proper] at h
  exact h.1

theorem Proper.of_mem (h : (obj fields).Proper) {field : String × Json}
    (hfield : field ∈ fields) : field.2.Proper := by
  rw [Proper] at h
  exact fieldsProper_iff.mp h.2 field hfield

theorem Proper.of_lookup (h : (obj fields).Proper) {key : String} {value : Json}
    (hvalue : KeyMap.lookup key fields = some value) : value.Proper :=
  h.of_mem (KeyMap.mem_of_lookup_eq_some hvalue)

theorem Proper.isFinite_of_lookup (h : (obj fields).Proper) {key : String} {n : Number}
    (hn : KeyMap.lookup key fields = some (.num n)) : n.toFloat.isFinite = true :=
  (h.of_lookup hn).number.isFinite_toFloat

end Json

end IncrementalGame
