import IncrementalGame.Proofs.Text.Runs

/-!
# The bytes of a text

In UTF-8 a character below 128 is one byte, its own number, and every other character is a row of
bytes from 128 on.  Something that walks the bytes of a text sees each of them as the character of
that number (`octets`).

* `octets_cons`: the first byte of a text is its first character, or both are beyond ASCII.  A test
  that tells no two characters beyond ASCII apart (`Coarse`) gives the same runs in the bytes as in
  the characters (`takeWhile_octets`), so a walk over such a run ends where a character does
  (`runEnd_octets`).
* `slice?` is the part of a text between two bytes.  There is one just if a character starts or the
  text ends at both of them (`slice?_eq_some_iff`, `isSome_splitBytes?_iff`).
-/

namespace IncrementalGame.Text

/-- The bytes of a text in UTF-8, each as the character with its number. -/
def octets (s : List Char) : List Char := (s.flatMap String.utf8EncodeChar).map Char.ofUInt8

theorem octets_append (s t : List Char) : octets (s ++ t) = octets s ++ octets t := by
  rw [octets, octets, octets, List.flatMap_append, List.map_append]

theorem length_octets (s : List Char) : (octets s).length = byteLength s := by
  induction s with
  | nil => rfl
  | cons c s ih =>
    rw [octets, List.length_map] at ih
    rw [octets, List.length_map, List.flatMap_cons, List.length_append, ih,
      String.length_utf8EncodeChar, byteLength]

theorem drop_octets (front s : List Char) :
    (octets (front ++ s)).drop (byteLength front) = octets s := by
  rw [octets_append, ← length_octets, List.drop_left]

theorem getElem?_octets (front s : List Char) :
    (octets (front ++ s))[byteLength front]? = (octets s).head? := by
  rw [← drop_octets front s, List.head?_drop]

theorem length_le_byteLength (s : List Char) : s.length ≤ byteLength s := by
  induction s with
  | nil => exact le_rfl
  | cons c s ih =>
    have := c.utf8Size_pos
    rw [List.length_cons, byteLength]
    omega

/-! ## Characters beyond ASCII -/

theorem utf8EncodeChar_of_lt {c : Char} (h : c.toNat < 128) :
    String.utf8EncodeChar c = [UInt8.ofNat c.toNat] :=
  if_pos (Nat.le_of_lt_succ h)

theorem utf8Size_of_lt {c : Char} (h : c.toNat < 128) : c.utf8Size = 1 := by
  rw [← String.length_utf8EncodeChar, utf8EncodeChar_of_lt h, List.length_singleton]

theorem le_of_mem_utf8EncodeChar {c : Char} (h : 128 ≤ c.toNat) {b : UInt8}
    (hb : b ∈ String.utf8EncodeChar c) : 128 ≤ b.toNat := by
  have beyond : ¬ c.val.toNat ≤ 127 := Nat.not_le.mpr h
  simp only [String.utf8EncodeChar, if_neg beyond] at hb
  -- Every byte carries a mark of at least 128 and, above it, less than 64 of the number.
  split at hb <;> [skip; split at hb] <;>
    simp only [List.mem_cons, List.not_mem_nil, or_false] at hb <;>
    rcases hb with rfl | rfl | rfl | rfl <;> simp only [UInt8.toNat_ofNat'] <;> omega

theorem toNat_ofUInt8 (b : UInt8) : (Char.ofUInt8 b).toNat = b.toNat := UInt8.toNat_toUInt32 b

/-- A text starts as its bytes do: with the same character, or with one beyond ASCII. -/
theorem octets_cons (c : Char) (s : List Char) :
    ∃ d more, octets (c :: s) = d :: more ∧
      ((d = c ∧ c.toNat < 128 ∧ more = octets s) ∨ (128 ≤ c.toNat ∧ 128 ≤ d.toNat)) := by
  rcases Nat.lt_or_ge c.toNat 128 with h | h
  · refine ⟨c, octets s, ?_, .inl ⟨rfl, h, rfl⟩⟩
    have same : Char.ofUInt8 (UInt8.ofNat c.toNat) = c := by
      rw [← Char.toNat_inj, toNat_ofUInt8, UInt8.toNat_ofNat']
      omega
    rw [octets, List.flatMap_cons, utf8EncodeChar_of_lt h, List.map_append, List.map_singleton,
      same, List.singleton_append, octets]
  · obtain ⟨b, more, encoded⟩ := List.exists_cons_of_ne_nil (l := String.utf8EncodeChar c) (by
      rw [← List.length_pos_iff, String.length_utf8EncodeChar]
      exact c.utf8Size_pos)
    refine ⟨Char.ofUInt8 b, more.map Char.ofUInt8 ++ octets s, ?_, .inr ⟨h, ?_⟩⟩
    · rw [octets, List.flatMap_cons, encoded, List.map_append, List.map_cons, List.cons_append,
        octets]
    · rw [toNat_ofUInt8]
      exact le_of_mem_utf8EncodeChar h (encoded ▸ List.mem_cons_self)

theorem octets_eq_self {s : List Char} (h : ∀ c ∈ s, c.toNat < 128) : octets s = s := by
  induction s with
  | nil => rfl
  | cons c s ih =>
    obtain ⟨hc, hs⟩ := List.forall_mem_cons.mp h
    obtain ⟨d, more, whole, ⟨rfl, -, rfl⟩ | ⟨beyond, -⟩⟩ := octets_cons c s
    · rw [whole, ih hs]
    · omega

theorem byteLength_of_ascii {s : List Char} (h : ∀ c ∈ s, c.toNat < 128) :
    byteLength s = s.length := by
  rw [← length_octets, octets_eq_self h]

/-! ## Runs -/

/-- Whether a test tells no two characters beyond ASCII apart. -/
def Coarse (p : Char → Bool) : Prop := ∀ c d : Char, 128 ≤ c.toNat → 128 ≤ d.toNat → p c = p d

theorem coarse_of_ascii {p : Char → Bool} (h : ∀ c, p c = true → c.toNat < 128) : Coarse p := by
  have beyond : ∀ c : Char, 128 ≤ c.toNat → p c = false := fun c hc =>
    Bool.eq_false_iff.mpr fun pc => absurd (h c pc) (by omega)
  exact fun c d hc hd => (beyond c hc).trans (beyond d hd).symm

variable {p : Char → Bool}

/-- A coarse test cannot tell a text from its bytes. -/
theorem Coarse.octets_cons (coarse : Coarse p) (c : Char) (s : List Char) :
    ∃ d more, octets (c :: s) = d :: more ∧ p d = p c := by
  obtain ⟨d, more, whole, ⟨rfl, -, -⟩ | ⟨hc, hd⟩⟩ := Text.octets_cons c s
  · exact ⟨d, more, whole, rfl⟩
  · exact ⟨d, more, whole, coarse d c hd hc⟩

theorem Coarse.apply_of_mem (coarse : Coarse p) {c d : Char} (hd : d ∈ octets [c]) : p d = p c := by
  rcases Nat.lt_or_ge c.toNat 128 with h | h
  · rw [octets_eq_self (List.forall_mem_singleton.mpr h), List.mem_singleton] at hd
    rw [hd]
  · rw [octets, List.flatMap_singleton] at hd
    obtain ⟨b, hb, rfl⟩ := List.mem_map.mp hd
    exact coarse _ c (by rw [toNat_ofUInt8]; exact le_of_mem_utf8EncodeChar h hb) h

theorem Coarse.head?_octets (coarse : Coarse p) (s : List Char) :
    (octets s).head?.any p = s.head?.any p := by
  cases s with
  | nil => rfl
  | cons c s =>
    obtain ⟨d, more, whole, same⟩ := coarse.octets_cons c s
    rw [whole, List.head?_cons, List.head?_cons, Option.any_some, Option.any_some, same]

theorem Coarse.takeWhile_octets (coarse : Coarse p) (s : List Char) :
    (octets s).takeWhile p = octets (s.takeWhile p) := by
  -- All bytes of a run pass the test, and the first byte behind it does not.
  have inside : ∀ d ∈ octets (s.takeWhile p), p d = true := by
    intro d hd
    obtain ⟨b, hb, rfl⟩ := List.mem_map.mp hd
    obtain ⟨c, hc, hbc⟩ := List.mem_flatMap.mp hb
    rw [coarse.apply_of_mem (c := c) (by
      rw [octets, List.flatMap_singleton]
      exact List.mem_map_of_mem hbc)]
    exact List.mem_takeWhile_imp hc
  have ends : (octets (s.dropWhile p)).head?.any p = false := by
    rw [coarse.head?_octets, head?_any_dropWhile]
  calc (octets s).takeWhile p
      = (octets (s.takeWhile p) ++ octets (s.dropWhile p)).takeWhile p := by
        rw [← octets_append, List.takeWhile_append_dropWhile]
    _ = octets (s.takeWhile p) := takeWhile_run inside ends

/-- Where a run of bytes that pass a test ends, if it is walked from a position on. -/
def runEnd (p : Char → Bool) (octets : List Char) (pos : Nat) : Nat :=
  if h : pos < octets.length then
    if p octets[pos] then runEnd p octets (pos + 1) else pos
  else pos
termination_by octets.length - pos

theorem runEnd_eq_add (p : Char → Bool) (octets : List Char) (pos : Nat) :
    runEnd p octets pos = pos + ((octets.drop pos).takeWhile p).length := by
  fun_induction runEnd p octets pos with
  | case1 pos h passes ih =>
    rw [ih, List.drop_eq_getElem_cons h, List.takeWhile_cons_of_pos passes, List.length_cons]
    omega
  | case2 pos h fails =>
    rw [List.drop_eq_getElem_cons h, List.takeWhile_cons_of_neg fails, List.length_nil,
      Nat.add_zero]
  | case3 pos h => rw [List.drop_eq_nil_of_le (Nat.not_lt.mp h), List.takeWhile_nil]; rfl

/-- The walk over the bytes of a run ends behind the last character of it. -/
theorem Coarse.runEnd_octets (coarse : Coarse p) (front s : List Char) :
    runEnd p (octets (front ++ s)) (byteLength front) = byteLength (front ++ s.takeWhile p) := by
  rw [runEnd_eq_add, drop_octets, coarse.takeWhile_octets, length_octets, byteLength_append]

/-! ## Slices -/

/-- A text in two at a byte, unless the byte is inside a character or behind the text. -/
def splitBytes? : Nat → List Char → Option (List Char × List Char)
  | 0, s => some ([], s)
  | _ + 1, [] => none
  | n + 1, c :: s =>
    if c.utf8Size ≤ n + 1 then
      (splitBytes? (n + 1 - c.utf8Size) s).map fun (front, behind) => (c :: front, behind)
    else none

theorem splitBytes?_append (front behind : List Char) :
    splitBytes? (byteLength front) (front ++ behind) = some (front, behind) := by
  induction front with
  | nil => rw [List.nil_append, byteLength, splitBytes?]
  | cons c front ih =>
    obtain ⟨n, hn⟩ := Nat.exists_eq_add_one_of_ne_zero (n := byteLength (c :: front)) (by
      have := c.utf8Size_pos
      rw [byteLength]
      omega)
    have rest : n + 1 - c.utf8Size = byteLength front := by
      rw [← hn, byteLength, Nat.add_sub_cancel_left]
    have fits : c.utf8Size ≤ n + 1 := by
      rw [← hn, byteLength]
      exact Nat.le_add_right _ _
    rw [hn, List.cons_append, splitBytes?, if_pos fits, rest, ih, Option.map_some]

theorem eq_of_splitBytes? {n : Nat} {s front behind : List Char}
    (h : splitBytes? n s = some (front, behind)) : s = front ++ behind ∧ byteLength front = n := by
  fun_induction splitBytes? n s generalizing front with
  | case1 s =>
    cases h
    exact ⟨rfl, rfl⟩
  | case2 => cases h
  | case3 n c s fits ih =>
    obtain ⟨⟨front', behind'⟩, found, same⟩ := Option.map_eq_some_iff.mp h
    cases same
    obtain ⟨rfl, hn⟩ := ih found
    exact ⟨rfl, by rw [byteLength, hn]; omega⟩
  | case4 => cases h

theorem splitBytes?_eq_some_iff {n : Nat} {s front behind : List Char} :
    splitBytes? n s = some (front, behind) ↔ s = front ++ behind ∧ byteLength front = n := by
  refine ⟨eq_of_splitBytes?, ?_⟩
  rintro ⟨rfl, rfl⟩
  exact splitBytes?_append front behind

theorem utf8ByteSize_ofList (s : List Char) : (String.ofList s).utf8ByteSize = byteLength s := by
  induction s with
  | nil => rfl
  | cons c s ih =>
    rw [String.ofList_cons, String.utf8ByteSize_append, ih, String.utf8ByteSize_singleton,
      byteLength]

/-- A text splits just where a character starts or the text ends. -/
theorem isSome_splitBytes?_iff {n : Nat} {s : List Char} :
    (splitBytes? n s).isSome ↔ (String.Pos.Raw.mk n).IsValid (String.ofList s) := by
  rw [String.Pos.Raw.isValid_iff_exists_append, Option.isSome_iff_exists]
  constructor
  · rintro ⟨⟨front, behind⟩, h⟩
    obtain ⟨rfl, rfl⟩ := eq_of_splitBytes? h
    refine ⟨String.ofList front, String.ofList behind, String.ofList_append, ?_⟩
    rw [String.Pos.Raw.ext_iff, String.byteIdx_rawEndPos, utf8ByteSize_ofList]
  · rintro ⟨front, behind, whole, hn⟩
    refine ⟨(front.toList, behind.toList), splitBytes?_eq_some_iff.mpr ⟨?_, ?_⟩⟩
    · rw [← String.toList_append, ← whole, String.toList_ofList]
    · rw [← utf8ByteSize_ofList, String.ofList_toList, ← String.byteIdx_rawEndPos, ← hn]

/-- The part of a text between two bytes, unless one of them is inside a character or behind the
text. -/
def slice? (s : List Char) (start stop : Nat) : Option (List Char) :=
  if start ≤ stop then do
    let (_, behind) ← splitBytes? start s
    let (part, _) ← splitBytes? (stop - start) behind
    some part
  else none

theorem slice?_append (front part behind : List Char) :
    slice? (front ++ (part ++ behind)) (byteLength front) (byteLength (front ++ part)) =
      some part := by
  have length : byteLength (front ++ part) - byteLength front = byteLength part := by
    rw [byteLength_append, Nat.add_sub_cancel_left]
  have order : byteLength front ≤ byteLength (front ++ part) := by
    rw [byteLength_append]
    exact Nat.le_add_right _ _
  simp only [slice?, if_pos order, length, splitBytes?_append, Option.bind_eq_bind,
    Option.bind_some]

theorem slice?_eq_some_iff {s part : List Char} {start stop : Nat} :
    slice? s start stop = some part ↔
      ∃ front behind, s = front ++ (part ++ behind) ∧ byteLength front = start ∧
        byteLength (front ++ part) = stop := by
  constructor
  · intro h
    unfold slice? at h
    split at h
    case isFalse => cases h
    case isTrue order =>
      obtain ⟨⟨front, rest⟩, first, h⟩ := Option.bind_eq_some_iff.mp h
      obtain ⟨⟨part', behind⟩, second, h⟩ := Option.bind_eq_some_iff.mp h
      cases h
      obtain ⟨rfl, hfront⟩ := eq_of_splitBytes? first
      obtain ⟨rfl, hpart⟩ := eq_of_splitBytes? second
      refine ⟨front, behind, rfl, hfront, ?_⟩
      rw [byteLength_append, hfront, hpart, Nat.add_sub_cancel' order]
  · rintro ⟨front, behind, rfl, rfl, rfl⟩
    exact slice?_append front part behind

/-- Both bytes of a character are one slice, and there is none of one of them. -/
example : slice? ['é', '!'] 0 2 = some ['é'] ∧ slice? ['é', '!'] 1 2 = none := by decide

end IncrementalGame.Text
