import Mathlib.Tactic
import IncrementalGame.Cache

/-!
# Which entries a cache has

No operation of a cache makes an entry up: what is stored afterwards was stored before
(`Cache.Within`), except for the one entry that `set` writes (`mem_set`).  Whatever holds of every
entry that is written therefore holds of every entry that is ever read, however entries are dropped
in between and whatever the clock does.
-/

namespace IncrementalGame.Cache

variable {α : Type} {c d e : Cache α}

/-- Whether every entry of one cache is an entry of another. -/
def Within (c d : Cache α) : Prop :=
  ∀ (key : String) (entry : CacheEntry α), c.entries[key]? = some entry →
    d.entries[key]? = some entry

theorem Within.refl (c : Cache α) : Within c c := fun _ _ h => h

theorem getElem?_live (c : Cache α) (now : Nat) (key : String) :
    (c.live now)[key]? = c.entries[key]?.filter fun e => !e.isStale now := by
  rw [live, Std.TreeMap.getElem?_filter']

/-- A cache of live entries of another one lies within it. -/
theorem within_live (c : Cache α) (now sweepAt : Nat) : Within ⟨c.live now, sweepAt⟩ c := by
  intro key entry h
  rw [getElem?_live] at h
  exact (Option.filter_eq_some_iff.mp h).1

theorem within_sweep (c : Cache α) (now : Nat) : Within (c.sweep now) c := by
  rw [sweep]
  split
  · exact within_live c now _
  · exact Within.refl c

/-- A cache without the entry of one key lies within it. -/
theorem within_erase (c : Cache α) (key : String) :
    Within { c with entries := c.entries.erase key } c := by
  intro other entry h
  rw [Std.TreeMap.getElem?_erase] at h
  split at h
  · exact absurd h (by simp)
  · exact h

theorem within_remove (c : Cache α) (now : Nat) (key : String) :
    Within (c.remove now key).2 c := within_erase c key

theorem within_purge (c : Cache α) (now : Nat) : Within (c.purge now).2 c :=
  within_live c now c.sweepAt

theorem within_clear (c : Cache α) : Within c.clear c := by
  intro key entry h
  rw [clear] at h
  exact absurd h (by simp [Std.TreeMap.empty_eq_emptyc])

theorem within_get (c : Cache α) (now : Nat) (key : String) : Within (c.get now key).2 c := by
  rw [get]
  split
  · exact Within.refl c
  · split
    · exact within_erase c key
    · exact Within.refl c

/-- What is read was stored. -/
theorem exists_entry_of_get {now : Nat} {key : String} {x : α} (h : (c.get now key).1 = some x) :
    ∃ entry, c.entries[key]? = some entry ∧ entry.value = x := by
  rw [get] at h
  split at h
  · exact absurd h (by simp)
  next entry hentry =>
    split at h
    · exact absurd h (by simp)
    · exact ⟨entry, hentry, Option.some_inj.mp h⟩

/-- **Writing adds one entry and no other.** -/
theorem mem_set {now lifetime : Nat} {key other : String} {value : α} {entry : CacheEntry α}
    (h : (c.set now key value lifetime).entries[other]? = some entry) :
    key = other ∧ entry.value = value ∨ c.entries[other]? = some entry := by
  rw [set, Std.TreeMap.getElem?_insert] at h
  split at h
  next heq =>
    refine .inl ⟨Std.LawfulEqCmp.eq_of_compare heq, ?_⟩
    rw [← Option.some_inj.mp h]
  next => exact .inr (within_sweep c now _ _ h)

end IncrementalGame.Cache
