import IncrementalGame.Text.Blank
import Mathlib.Data.List.TakeWhile

/-!
# Runs of characters

A scanner takes the longest run of characters that pass a test, and goes on behind it.  A text that
ends such a run is one whose first character fails the test, or one that is empty: for a test `p` and
a text `s` this is `s.head?.any p = false`.

* `takeWhile_run`, `dropWhile_run`: the run in front of a text that ends it.
* `head?_any_dropWhile`: what is left behind a run ends it.
* `head?_any_of_takeWhile_eq`: texts with the same run start alike.
-/

namespace IncrementalGame.Text

variable {p : Char → Bool} {run rest s t : List Char}

theorem head?_any_dropWhile (p : Char → Bool) (s : List Char) :
    (s.dropWhile p).head?.any p = false := by
  have h := List.head?_dropWhile_not p s
  cases hs : (s.dropWhile p).head? with
  | none => rfl
  | some c =>
    rw [hs] at h
    rwa [Option.any_some]

theorem takeWhile_eq_nil (ends : rest.head?.any p = false) : rest.takeWhile p = [] := by
  cases rest with
  | nil => rfl
  | cons c rest =>
    have hc : p c = false := ends
    rw [List.takeWhile_cons, hc, if_neg Bool.false_ne_true]

theorem takeWhile_ne_nil (starts : s.head?.any p = true) : s.takeWhile p ≠ [] := by
  cases s with
  | nil => cases starts
  | cons c s =>
    have hc : p c = true := starts
    rw [List.takeWhile_cons_of_pos hc]
    exact List.cons_ne_nil c _

theorem dropWhile_eq_self (ends : rest.head?.any p = false) : rest.dropWhile p = rest := by
  cases rest with
  | nil => rfl
  | cons c rest =>
    have hc : p c = false := ends
    rw [List.dropWhile_cons, hc, if_neg Bool.false_ne_true]

theorem takeWhile_run (parts : ∀ c ∈ run, p c = true) (ends : rest.head?.any p = false) :
    (run ++ rest).takeWhile p = run := by
  rw [List.takeWhile_append_of_pos parts, takeWhile_eq_nil ends, List.append_nil]

theorem dropWhile_run (parts : ∀ c ∈ run, p c = true) (ends : rest.head?.any p = false) :
    (run ++ rest).dropWhile p = rest := by
  rw [List.dropWhile_append_of_pos parts, dropWhile_eq_self ends]

theorem head?_any_append (hs : s.head?.any p = false) (ht : t.head?.any p = false) :
    (s ++ t).head?.any p = false := by
  cases s with
  | nil => exact ht
  | cons c s => exact hs

theorem takeWhile_append_eq (ht : t.head?.any p = false) :
    (s ++ t).takeWhile p = s.takeWhile p := by
  have ends := head?_any_append (head?_any_dropWhile p s) ht
  calc (s ++ t).takeWhile p
      = (s.takeWhile p ++ (s.dropWhile p ++ t)).takeWhile p := by
        rw [← List.append_assoc, List.takeWhile_append_dropWhile]
    _ = s.takeWhile p := takeWhile_run (fun c => List.mem_takeWhile_imp) ends

/-- Texts that start with the same run start alike as far as a stricter test can tell. -/
theorem head?_any_of_takeWhile_eq {q : Char → Bool} (stricter : ∀ c, q c = true → p c = true)
    (h : s.takeWhile p = t.takeWhile p) : s.head?.any q = t.head?.any q := by
  have front : ∀ u : List Char, u.head?.any q = (u.takeWhile p).head?.any q := by
    intro u
    cases u with
    | nil => rfl
    | cons c u =>
      rw [List.takeWhile_cons]
      by_cases hc : p c = true
      · rw [if_pos hc]
        rfl
      · rw [if_neg hc]
        exact Bool.eq_false_iff.mpr fun hq => hc (stricter c hq)
  rw [front s, front t, h]

theorem head?_ne_iff {c : Char} : s.head? ≠ some c ↔ ∀ tail, s = c :: tail → False := by
  rw [ne_eq, List.head?_eq_some_iff, not_exists]

/-! ## Bytes -/

theorem byteLength_append (s t : List Char) :
    byteLength (s ++ t) = byteLength s + byteLength t := by
  induction s with
  | nil => rw [List.nil_append, byteLength, Nat.zero_add]
  | cons c s ih => rw [List.cons_append, byteLength, ih, byteLength, Nat.add_assoc]

end IncrementalGame.Text
