import IncrementalGame.Proofs.Catalog.Listed

/-!
# The numbers of achievement levels

A level may state its number, which is any whole number from one on, and is kept in 32 bits.  A
number with more digits is not refused but cut off at the greatest one (`Number.toNat_toUInt32`).

So of two levels that state numbers the one with the lower number is kept below the other unless
both numbers are cut off (`KeepsNumbers`), and then they are one level.
-/

namespace IncrementalGame

/-! ## Numbers in 32 bits -/

/-- What a number is exactly, before it is rounded. -/
def Number.value : Number → ℚ
  | .int n => n
  | .real x => Binary64.toRat x

/-- The greatest number in 32 bits. -/
def greatestCount : Nat := UInt32.size - 1

namespace Binary64

variable {x : Float} {k : Nat}

theorem scaled_wordSize : scaled 4294967296.0 = (2 ^ 32 : Nat) * one := by decide +kernel

theorem toNat_toUInt32_of_scaled (hx : x.isFinite = true) (h : scaled x = k * one) :
    x.toUInt32.toNat = min k greatestCount := by
  have hmagnitude : magnitude x / one = k := by
    rw [← scaled_natAbs, h, Int.natAbs_mul, Int.natAbs_natCast, Int.natAbs_natCast,
      Nat.mul_div_cancel _ one_pos]
  have hnonneg : 0 ≤ scaled x := by
    rw [h]
    exact Int.mul_nonneg (Int.natCast_nonneg k) (Int.natCast_nonneg one)
  rw [toNat_toUInt32 hx hnonneg, hmagnitude]
  rfl

/-- Rounding before makes no difference: what has to be rounded is cut off. -/
theorem Nearest.toNat_toUInt32 (h : Nearest x (k * one)) (hx : x.isFinite = true) :
    x.toUInt32.toNat = min k greatestCount := by
  rcases Nat.le_total k (2 * binade) with hle | hge
  · exact toNat_toUInt32_of_scaled hx (h.scaled_eq_mul_one hle).2
  · obtain ⟨z, hz⟩ := h.exists_scaled_eq_mul_one hx
    rw [binade] at hge
    have hle : scaled 4294967296.0 ≤ scaled x := by
      refine h.le_scaled hx ?_
      rw [scaled_wordSize]
      exact Int.mul_le_mul_of_nonneg_right (by omega) (Int.natCast_nonneg one)
    rw [hz, scaled_wordSize] at hle
    have hlow := Int.le_of_mul_le_mul_right hle natCast_one_pos
    obtain ⟨m, rfl⟩ := Int.eq_ofNat_of_zero_le (show 0 ≤ z by omega)
    rw [toNat_toUInt32_of_scaled hx hz, greatestCount, UInt32.size]
    omega

/-- What is not positive is not rounded to a positive number. -/
theorem Nearest.one_le {z : Int} (h : Nearest x (z * one)) (hx : x.isFinite = true)
    (hone : (one : Int) ≤ scaled x) : 1 ≤ z := by
  by_contra hneg
  have hzero : scaled 0.0 = 0 := by decide +kernel
  have hle : scaled x ≤ scaled 0.0 := by
    refine h.scaled_le hx ?_
    rw [hzero]
    exact Int.mul_nonpos_of_nonpos_of_nonneg (by omega) (Int.natCast_nonneg one)
  have hpos := natCast_one_pos
  omega

end Binary64

/-- **A positive whole number in 32 bits** is cut off at the greatest one. -/
theorem Number.toNat_toUInt32 {n : Number} (proper : n.Proper) (hone : 1.0 ≤ n.toFloat)
    (hwhole : Binary64.isWhole n.toFloat = true) :
    ∃ k : Nat, 1 ≤ k ∧ n.value = k ∧ n.toFloat.toUInt32.toNat = min k greatestCount := by
  have hfinite := proper.isFinite_toFloat
  rw [Binary64.le_iff_scaled Binary64.isFinite_one hfinite, Binary64.scaled_one] at hone
  cases n with
  | int z =>
    obtain ⟨-, hnearest⟩ := Binary64.nearest_ofInt proper.natAbs_lt
    have hpos := hnearest.one_le hfinite hone
    obtain ⟨k, rfl⟩ := Int.eq_ofNat_of_zero_le (show 0 ≤ z by omega)
    exact ⟨k, by omega, by simp [value], hnearest.toNat_toUInt32 hfinite⟩
  | real x =>
    obtain ⟨-, z, hz⟩ := Binary64.isWhole_iff.mp hwhole
    rw [Number.toFloat] at hone hz hfinite
    have hpos : 1 ≤ z := by
      rw [hz] at hone
      exact Int.le_of_mul_le_mul_right (by rwa [Int.one_mul]) Binary64.natCast_one_pos
    obtain ⟨k, rfl⟩ := Int.eq_ofNat_of_zero_le (show 0 ≤ z by omega)
    exact ⟨k, by omega, by simpa [value] using Binary64.toRat_of_scaled hz,
      Binary64.toNat_toUInt32_of_scaled hfinite hz⟩

namespace Catalog

/-! ## Levels that state their numbers -/

/-- The number that an entry states for its level. -/
def statedNumber : Json → Option ℚ
  | .obj fields =>
    match get? fields "level" with
    | some (.num n) => some n.value
    | _ => none
  | _ => none

theorem toNat_of_readsLevel {entry : Json} (proper : entry.Proper) {found : AchievementLevel}
    (h : ReadsLevel entry found) {stated : ℚ} (hstated : statedNumber entry = some stated) :
    ∃ k : Nat, 1 ≤ k ∧ stated = k ∧ found.level.toNat = min k greatestCount := by
  obtain ⟨fields, rfl, ⟨fallback, hlevel⟩, -, -⟩ := h
  rw [statedNumber] at hstated
  split at hstated
  next n hn =>
    obtain rfl := Option.some_inj.mp hstated
    rw [levelNumber, numberField, hn] at hlevel
    obtain ⟨_, hnumber, hlevel⟩ := Fallible.exists_of_bind_eq_ok hlevel
    obtain rfl := Except.ok.inj hnumber
    simp only at hlevel
    split at hlevel
    next accepted =>
      rw [← Except.ok.inj hlevel]
      exact Number.toNat_toUInt32 (proper.of_lookup hn).number accepted.1 accepted.2
    next => exact absurd hlevel (by simp)
  next => exact absurd hstated (by simp)

/-- Whether levels are kept with the numbers that their entries state, so far as 32 bits
suffice. -/
structure KeepsNumbers (entries : List Json) (found : List AchievementLevel) : Prop where
  /-- Every entry is a level. -/
  length : found.length = entries.length
  /-- A stated number is positive and whole, and cut off at the greatest one. -/
  number : ∀ p ∈ entries.zip found, ∀ stated, statedNumber p.1 = some stated →
    ∃ k : Nat, 1 ≤ k ∧ stated = k ∧ p.2.level.toNat = min k greatestCount
  /-- So it is kept just if it is no greater. -/
  exact : ∀ p ∈ entries.zip found, ∀ stated, statedNumber p.1 = some stated →
    (p.2.level.toNat = stated ↔ stated ≤ greatestCount)
  /-- Two levels are in the order of their stated numbers, unless both are cut off. -/
  order : ∀ p ∈ entries.zip found, ∀ q ∈ entries.zip found, ∀ low high,
    statedNumber p.1 = some low → statedNumber q.1 = some high →
      (p.2.level < q.2.level ↔ low < high ∧ low < greatestCount)

theorem keepsNumbers_of_forall₂ {entries : List Json} {found : List AchievementLevel}
    (proper : ∀ entry ∈ entries, entry.Proper) (h : List.Forall₂ ReadsLevel entries found) :
    KeepsNumbers entries found := by
  have number : ∀ p ∈ entries.zip found, ∀ stated, statedNumber p.1 = some stated →
      ∃ k : Nat, 1 ≤ k ∧ stated = k ∧ p.2.level.toNat = min k greatestCount := fun p hp _ =>
    toNat_of_readsLevel (proper p.1 (List.of_mem_zip hp).1) (List.forall₂_zip h hp)
  refine ⟨h.length_eq.symm, number, fun p hp stated hstated => ?_,
    fun p hp q hq low high hlow hhigh => ?_⟩
  · obtain ⟨k, -, rfl, hk⟩ := number p hp stated hstated
    rw [hk, Nat.cast_inj, Nat.cast_le, min_eq_left_iff]
  · obtain ⟨k, -, rfl, hk⟩ := number p hp low hlow
    obtain ⟨l, -, rfl, hl⟩ := number q hq high hhigh
    rw [UInt32.lt_iff_toNat_lt, hk, hl, Nat.cast_lt, Nat.cast_lt]
    omega

/-- **The levels of a loaded achievement** are kept with the numbers that they state, and a number
that is too great is cut off. -/
theorem keepsNumbers_of_load {document : Json} {catalog : Catalog} (proper : document.Proper)
    (h : load document = .ok catalog) {key : String} {fields : Fields}
    (hlisted : Listed document achievementsCategory key fields) :
    ∃ item, (catalog.category achievementsCategory).get? key = some item ∧
      KeepsNumbers (writtenLevels fields) item.levels := by
  obtain ⟨item, hitem, hreads⟩ := hlisted.exists_get? proper h
  rcases gate_or_levels hreads with ⟨-, -, hlevels⟩ | ⟨hother, -⟩
  · exact ⟨item, hitem, keepsNumbers_of_forall₂
      (fun entry => proper_of_mem_writtenLevels (hlisted.proper proper))
      (forall₂_of_levelsField hlevels)⟩
  · exact absurd rfl hother

/-- A camp of a climb. -/
def camp (number : Int) : Json := .obj [("condition", .str "1"), ("level", .num (.int number))]

/-- A climb with two camps. -/
def climbDocument (first second : Int) : Json := .obj [
  ("achievements", .obj [("climb", .obj [("levels", .arr [camp first, camp second])])])]

/-- Low camps are kept with their numbers. -/
theorem keepsNumbers_of_climb :
    ∃ catalog item first second, load (climbDocument 3 7) = .ok catalog ∧
      (catalog.category achievementsCategory).get? "climb" = some item ∧
      item.levels = [first, second] ∧ first.level.toNat = (3 : ℚ) ∧
      second.level.toNat = (7 : ℚ) := by
  have hload : load (climbDocument 3 7) = .ok (Economy.ofDocument (climbDocument 3 7)).catalog :=
    Economy.load_eq_ofDocument (by decide +kernel)
  have hlisted : Listed (climbDocument 3 7) achievementsCategory "climb"
      [("levels", .arr [camp 3, camp 7])] := ⟨_, _, rfl, rfl, rfl⟩
  obtain ⟨item, hitem, keeps⟩ := keepsNumbers_of_load (by decide) hload hlisted
  have hwritten : writtenLevels [("levels", .arr [camp 3, camp 7])] = [camp 3, camp 7] := rfl
  rw [hwritten] at keeps
  obtain ⟨first, second, hlevels⟩ := List.length_eq_two.mp keeps.length
  rw [hlevels] at keeps
  refine ⟨_, item, first, second, hload, hitem, hlevels, ?_, ?_⟩
  · exact (keeps.exact (camp 3, first) (by simp) 3 rfl).mpr (by norm_num [greatestCount])
  · exact (keeps.exact (camp 7, second) (by simp) 7 rfl).mpr (by norm_num [greatestCount])

/-- Two camps above the greatest number become one. -/
theorem exists_merged_levels :
    (climbDocument 4294967296 4294967297).Proper ∧
      ∃ catalog item, load (climbDocument 4294967296 4294967297) = .ok catalog ∧
        (catalog.category achievementsCategory).get? "climb" = some item ∧
        item.levels.map (·.level) = [4294967295, 4294967295] := by
  have hlevels : ((Economy.ofDocument (climbDocument 4294967296 4294967297)).catalog.find?
      achievementsCategory "climb").map (fun item => item.levels.map (·.level)) =
      some [4294967295, 4294967295] := by decide +kernel
  obtain ⟨item, hitem, hmerged⟩ := Option.map_eq_some_iff.mp hlevels
  exact ⟨by decide, _, item, Economy.load_eq_ofDocument (by decide +kernel), hitem, hmerged⟩

end Catalog

end IncrementalGame
