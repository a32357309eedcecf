/-!
# Tables keyed by names

Balances, buildings, achievement levels, variable snapshots and catalog categories are all finite
tables from names to values, and every one of them is read out in key order.  A `KeyMap α` is such a
table: a list of entries whose keys strictly ascend.

The order is part of the type, so a table has exactly one representation and two tables that answer
every look-up alike are equal (`KeyMap.ext_get?`).  The key order is the order of code points, which
is also the order of the UTF-8 bytes.

* `get?_insert_self`, `get?_insert_of_ne` --- what a write changes, and what it leaves alone;
* `get?_erase_self`, `get?_erase_of_ne` --- the same for a removal;
* `get?_map` --- a change of the values keeps the keys.
-/

namespace IncrementalGame

/-- A finite table from names to values, its entries in strictly ascending key order. -/
structure KeyMap (α : Type) where
  entries : List (String × α)
  /-- No key occurs twice, and the keys ascend. -/
  ascending : entries.Pairwise (fun a b => a.1 < b.1)

namespace KeyMap

variable {α β : Type}

/-- Two tables with the same entries are the same table. -/
theorem ext_entries {s t : KeyMap α} (h : s.entries = t.entries) : s = t := by
  cases s; cases t; cases h; rfl

instance [DecidableEq α] : DecidableEq (KeyMap α) := fun s t =>
  if h : s.entries = t.entries then isTrue (ext_entries h)
  else isFalse (fun he => h (he ▸ rfl))

/-- The table without entries. -/
def empty : KeyMap α := ⟨[], List.Pairwise.nil⟩

instance : Inhabited (KeyMap α) := ⟨empty⟩

/-- The value listed under `key`. -/
def lookup (key : String) : List (String × α) → Option α
  | [] => none
  | (k, v) :: rest => if k = key then some v else lookup key rest

/-- The value stored under `key`, if there is one. -/
def get? (t : KeyMap α) (key : String) : Option α := lookup key t.entries

/-- The value stored under `key`, or `fallback`. -/
def getD (t : KeyMap α) (key : String) (fallback : α) : α := (t.get? key).getD fallback

/-- Whether something is stored under `key`. -/
def contains (t : KeyMap α) (key : String) : Bool := (t.get? key).isSome

/-- The keys, ascending. -/
def keys (t : KeyMap α) : List String := t.entries.map (·.1)

/-- The number of entries. -/
def size (t : KeyMap α) : Nat := t.entries.length

/-- Puts an entry at its place in an ascending list, replacing the one of the same key. -/
def place (key : String) (value : α) : List (String × α) → List (String × α)
  | [] => [(key, value)]
  | (k, v) :: rest =>
    if key < k then (key, value) :: (k, v) :: rest
    else if key = k then (key, value) :: rest
    else (k, v) :: place key value rest

theorem mem_place {key : String} {value : α} {a : String × α} {l : List (String × α)}
    (h : a ∈ place key value l) : a = (key, value) ∨ a ∈ l := by
  induction l with
  | nil => simpa [place] using h
  | cons b rest ih =>
    obtain ⟨k, v⟩ := b
    rw [place] at h
    split at h
    · simpa using h
    · split at h
      · rcases List.mem_cons.1 h with h | h
        · exact .inl h
        · exact .inr (List.mem_cons_of_mem _ h)
      · rcases List.mem_cons.1 h with h | h
        · exact .inr (h ▸ List.mem_cons_self)
        · exact (ih h).imp id (List.mem_cons_of_mem _)

theorem ascending_place (key : String) (value : α) {l : List (String × α)}
    (h : l.Pairwise (fun a b => a.1 < b.1)) :
    (place key value l).Pairwise (fun a b => a.1 < b.1) := by
  induction l with
  | nil => simp [place]
  | cons b rest ih =>
    obtain ⟨k, v⟩ := b
    rw [place]
    have hrest : ∀ {a}, a ∈ rest → k < a.1 := fun ha => List.rel_of_pairwise_cons h ha
    split
    next hlt =>
      refine .cons (fun a ha => ?_) h
      rcases List.mem_cons.1 ha with rfl | ha
      · exact hlt
      · exact String.lt_trans hlt (hrest ha)
    next hlt =>
      split
      next heq => subst heq; exact .cons (fun a ha => hrest ha) h.of_cons
      next hne =>
        refine .cons (fun a ha => ?_) (ih h.of_cons)
        rcases mem_place ha with rfl | ha
        · exact Std.lt_of_le_of_ne hlt (Ne.symm hne)
        · exact hrest ha

/-- Stores `value` under `key`, replacing what was there. -/
def insert (t : KeyMap α) (key : String) (value : α) : KeyMap α :=
  ⟨place key value t.entries, ascending_place key value t.ascending⟩

/-- Removes the entry of `key`. -/
def erase (t : KeyMap α) (key : String) : KeyMap α :=
  ⟨t.entries.filter (·.1 ≠ key), t.ascending.filter _⟩

/-- Keeps the entries that satisfy `keep`. -/
def filter (t : KeyMap α) (keep : String → α → Bool) : KeyMap α :=
  ⟨t.entries.filter (fun e => keep e.1 e.2), t.ascending.filter _⟩

/-- Changes every value, keeping the keys. -/
def map (t : KeyMap α) (f : String → α → β) : KeyMap β :=
  ⟨t.entries.map (fun e => (e.1, f e.1 e.2)), List.pairwise_map.2 t.ascending⟩

/-- Replaces the value under `key`, seen from `fallback` where there is none. -/
def update (t : KeyMap α) (key : String) (fallback : α) (f : α → α) : KeyMap α :=
  t.insert key (f (t.getD key fallback))

/-- The table of a list of entries; of two entries with one key the later one stands. -/
def ofList (l : List (String × α)) : KeyMap α := l.foldl (fun t e => t.insert e.1 e.2) empty

/-- Combines the entries in key order. -/
def foldl {γ : Type} (t : KeyMap α) (f : γ → String → α → γ) (start : γ) : γ :=
  t.entries.foldl (fun acc e => f acc e.1 e.2) start

/-- The entries of both tables; where both have a key, that of `upper` stands. -/
def overlay (t upper : KeyMap α) : KeyMap α := upper.foldl (fun t key v => t.insert key v) t

/-! ## Look-ups -/

theorem lookup_place_self (key : String) (value : α) (l : List (String × α)) :
    lookup key (place key value l) = some value := by
  induction l with
  | nil => simp [place, lookup]
  | cons b rest ih =>
    obtain ⟨k, v⟩ := b
    rw [place]
    split
    · simp [lookup]
    · split
      · simp [lookup]
      next hne => simp [lookup, Ne.symm hne, ih]

theorem lookup_place_of_ne {key other : String} (h : other ≠ key) (value : α)
    (l : List (String × α)) : lookup other (place key value l) = lookup other l := by
  induction l with
  | nil => simp [place, lookup, Ne.symm h]
  | cons b rest ih =>
    obtain ⟨k, v⟩ := b
    rw [place]
    split
    · simp [lookup, Ne.symm h]
    · split
      next heq => subst heq; simp [lookup, Ne.symm h]
      next => by_cases hk : k = other <;> simp [lookup, hk, ih]

@[simp] theorem get?_empty (key : String) : (empty : KeyMap α).get? key = none := rfl

@[simp] theorem get?_insert_self (t : KeyMap α) (key : String) (value : α) :
    (t.insert key value).get? key = some value := lookup_place_self key value t.entries

theorem get?_insert_of_ne (t : KeyMap α) {key other : String} (h : other ≠ key) (value : α) :
    (t.insert key value).get? other = t.get? other := lookup_place_of_ne h value t.entries

theorem lookup_eq_none_of_lt {key : String} {l : List (String × α)} (h : ∀ e ∈ l, key < e.1) :
    lookup key l = none := by
  induction l with
  | nil => rfl
  | cons b rest ih =>
    have hb : b.1 ≠ key := fun hk => String.lt_irrefl key (hk ▸ h b List.mem_cons_self)
    obtain ⟨k, v⟩ := b
    rw [lookup, if_neg hb, ih fun e he => h e (List.mem_cons_of_mem _ he)]

theorem lookup_eq_some_of_mem {key : String} {value : α} {l : List (String × α)}
    (hl : l.Pairwise (fun a b => a.1 < b.1)) (h : (key, value) ∈ l) :
    lookup key l = some value := by
  induction l with
  | nil => simp at h
  | cons b rest ih =>
    obtain ⟨k, v⟩ := b
    rcases List.mem_cons.1 h with h | h
    · cases h; simp [lookup]
    · have hk : k ≠ key := fun he => by
        have := List.rel_of_pairwise_cons hl h
        exact String.lt_irrefl key (he ▸ this)
      rw [lookup, if_neg hk, ih hl.of_cons h]

theorem mem_of_lookup_eq_some {key : String} {value : α} {l : List (String × α)}
    (h : lookup key l = some value) : (key, value) ∈ l := by
  induction l with
  | nil => simp [lookup] at h
  | cons b rest ih =>
    obtain ⟨k, v⟩ := b
    rw [lookup] at h
    split at h
    next hk => cases h; subst hk; exact List.mem_cons_self
    next => exact List.mem_cons_of_mem _ (ih h)

/-- An entry is listed exactly when the look-up of its key finds its value. -/
theorem mem_entries_iff {t : KeyMap α} {key : String} {value : α} :
    (key, value) ∈ t.entries ↔ t.get? key = some value :=
  ⟨lookup_eq_some_of_mem t.ascending, mem_of_lookup_eq_some⟩

theorem lookup_filter_ne_self (key : String) (l : List (String × α)) :
    lookup key (l.filter (·.1 ≠ key)) = none := by
  induction l with
  | nil => rfl
  | cons b rest ih =>
    obtain ⟨k, v⟩ := b
    by_cases hk : k = key
    · subst hk; simpa using ih
    · simpa [hk, lookup] using ih

theorem lookup_filter_ne_of_ne {key other : String} (h : other ≠ key) (l : List (String × α)) :
    lookup other (l.filter (·.1 ≠ key)) = lookup other l := by
  induction l with
  | nil => rfl
  | cons b rest ih =>
    obtain ⟨k, v⟩ := b
    by_cases hk : k = key
    · subst hk; simpa [lookup, Ne.symm h] using ih
    · by_cases ho : k = other
      · subst ho; simp [hk, lookup]
      · simpa [hk, ho, lookup] using ih

@[simp] theorem get?_erase_self (t : KeyMap α) (key : String) : (t.erase key).get? key = none :=
  lookup_filter_ne_self key t.entries

theorem get?_erase_of_ne (t : KeyMap α) {key other : String} (h : other ≠ key) :
    (t.erase key).get? other = t.get? other := lookup_filter_ne_of_ne h t.entries

theorem lookup_map (f : String → α → β) (key : String) (l : List (String × α)) :
    lookup key (l.map (fun e => (e.1, f e.1 e.2))) = (lookup key l).map (f key) := by
  induction l with
  | nil => rfl
  | cons b rest ih =>
    obtain ⟨k, v⟩ := b
    by_cases hk : k = key
    · subst hk; simp [lookup]
    · simpa [lookup, hk] using ih

@[simp] theorem get?_map (t : KeyMap α) (f : String → α → β) (key : String) :
    (t.map f).get? key = (t.get? key).map (f key) := lookup_map f key t.entries

/-! ## Extensionality -/

theorem entries_eq_of_lookup_eq {l m : List (String × α)}
    (hl : l.Pairwise (fun a b => a.1 < b.1)) (hm : m.Pairwise (fun a b => a.1 < b.1))
    (h : ∀ key, lookup key l = lookup key m) : l = m := by
  induction l generalizing m with
  | nil =>
    cases m with
    | nil => rfl
    | cons b rest => have := h b.1; simp [lookup] at this
  | cons a rest ih =>
    cases m with
    | nil => have := h a.1; simp [lookup] at this
    | cons b rest' =>
      have below : ∀ {x : String × α} {r : List (String × α)},
          (x :: r).Pairwise (fun a b => a.1 < b.1) → ∀ k, k < x.1 → lookup k (x :: r) = none :=
        fun hx k hk => lookup_eq_none_of_lt fun e he => by
          rcases List.mem_cons.1 he with rfl | he
          · exact hk
          · exact String.lt_trans hk (List.rel_of_pairwise_cons hx he)
      have hkey : a.1 = b.1 := by
        by_cases hab : a.1 < b.1
        · have := h a.1; rw [below hm _ hab] at this; simp [lookup] at this
        · by_cases hba : b.1 < a.1
          · have := h b.1; rw [below hl _ hba] at this; simp [lookup] at this
          · exact String.le_antisymm hba hab
      obtain ⟨k, v⟩ := a
      obtain ⟨k', v'⟩ := b
      subst hkey
      have hv : v = v' := by simpa [lookup] using h k
      subst hv
      congr 1
      refine ih hl.of_cons hm.of_cons fun key => ?_
      by_cases hk : k = key
      · subst hk
        rw [lookup_eq_none_of_lt fun e he => List.rel_of_pairwise_cons hl he,
          lookup_eq_none_of_lt fun e he => List.rel_of_pairwise_cons hm he]
      · simpa [lookup, hk] using h key

/-- Two tables that answer every look-up alike are equal. -/
theorem ext_get? {s t : KeyMap α} (h : ∀ key, s.get? key = t.get? key) : s = t :=
  ext_entries (entries_eq_of_lookup_eq s.ascending t.ascending h)

end KeyMap

end IncrementalGame
