import IncrementalGame.KeyMap

/-!
# Tables with a fallback

What a write changes and what it leaves alone, for look-ups with a fallback and for whether a key is
listed; of two writes to one key only the later one counts; and which keys there are says all about
a table whose values are all the same.
-/

namespace IncrementalGame.KeyMap

variable {α : Type} (t : KeyMap α)

theorem getD_insert_self (key : String) (value fallback : α) :
    (t.insert key value).getD key fallback = value := by
  rw [getD, get?_insert_self, Option.getD_some]

theorem getD_insert_of_ne {key other : String} (h : other ≠ key) (value fallback : α) :
    (t.insert key value).getD other fallback = t.getD other fallback := by
  rw [getD, get?_insert_of_ne t h, getD]

/-- The later of two writes to one key counts. -/
theorem insert_insert (key : String) (value later : α) :
    (t.insert key value).insert key later = t.insert key later := by
  apply ext_get?
  intro other
  by_cases h : other = key
  · rw [h, get?_insert_self, get?_insert_self]
  · rw [get?_insert_of_ne _ h, get?_insert_of_ne _ h, get?_insert_of_ne _ h]

/-- Two writes to different keys may be made in either order. -/
theorem insert_comm {key other : String} (h : key ≠ other) (value value' : α) :
    (t.insert key value).insert other value' = (t.insert other value').insert key value := by
  apply ext_get?
  intro looked
  by_cases hkey : looked = key
  · rw [hkey, get?_insert_of_ne _ h, get?_insert_self, get?_insert_self]
  · by_cases hother : looked = other
    · rw [hother, get?_insert_self, get?_insert_of_ne _ h.symm, get?_insert_self]
    · rw [get?_insert_of_ne _ hother, get?_insert_of_ne _ hkey, get?_insert_of_ne _ hkey,
        get?_insert_of_ne _ hother]

/-- No key is listed twice. -/
theorem nodup_keys : t.keys.Nodup := by
  rw [keys, List.Nodup, List.pairwise_map]
  refine t.ascending.imp ?_
  intro a b hlt heq
  exact String.lt_irrefl b.1 (heq ▸ hlt)

/-- What is left of a table of which only some keys are kept. -/
theorem get?_filter_key (keep : String → Bool) (key : String) :
    (t.filter fun key _ => keep key).get? key = if keep key then t.get? key else none := by
  obtain ⟨entries, hascending⟩ := t
  show lookup key (entries.filter fun e => keep e.1) = if keep key then lookup key entries else none
  induction entries with
  | nil => simp [lookup]
  | cons e rest ih =>
    obtain ⟨k, v⟩ := e
    rw [List.filter_cons]
    by_cases heq : k = key
    · subst heq
      by_cases hkeep : keep k = true
      · simp [hkeep, lookup]
      · simp [hkeep, ih hascending.of_cons]
    · by_cases hkeep : keep k = true
      · simp [hkeep, lookup, heq, ih hascending.of_cons]
      · simp [hkeep, lookup, heq, ih hascending.of_cons]

variable {t}

/-- What holds of a value but not of the fallback holds of a value that is listed. -/
theorem getD_iff_exists {key : String} {fallback : α} {holds : α → Prop}
    (h : ¬holds fallback) :
    holds (t.getD key fallback) ↔ ∃ value, t.get? key = some value ∧ holds value := by
  rw [getD]
  cases t.get? key with
  | none => simp [h]
  | some value => simp

/-- What is found under a key is found since the key is listed. -/
theorem isSome_get?_iff {key : String} : (t.get? key).isSome = true ↔ key ∈ t.keys := by
  rw [keys, List.mem_map, Option.isSome_iff_exists]
  constructor
  · rintro ⟨value, hvalue⟩
    exact ⟨(key, value), mem_entries_iff.mpr hvalue, rfl⟩
  · rintro ⟨⟨_, value⟩, hentry, rfl⟩
    exact ⟨value, mem_entries_iff.mp hentry⟩

theorem get?_eq_none_of_not_mem {key : String} (h : key ∉ t.keys) : t.get? key = none := by
  rw [← isSome_get?_iff] at h
  simpa using h

/-- Tables in which the same keys are listed become equal when all values become one. -/
theorem map_const_eq_of_isSome {β : Type} {s : KeyMap α}
    (h : ∀ key, (s.get? key).isSome = (t.get? key).isSome) (value : β) :
    s.map (fun _ _ => value) = t.map fun _ _ => value := by
  apply ext_get?
  intro key
  have hkey := h key
  rw [get?_map, get?_map]
  cases hs : s.get? key <;> cases ht : t.get? key <;> simp_all

theorem map_const_eq_of_keys {β : Type} {s : KeyMap α} (h : s.keys = t.keys) (value : β) :
    s.map (fun _ _ => value) = t.map fun _ _ => value := by
  refine map_const_eq_of_isSome (fun key => ?_) value
  rw [Bool.eq_iff_iff, isSome_get?_iff, isSome_get?_iff, h]

/-- The keys are the ones under which something is found. -/
theorem keys_eq_of_isSome {s : KeyMap α} (h : ∀ key, (s.get? key).isSome = (t.get? key).isSome) :
    s.keys = t.keys := by
  have hpairs := congrArg keys (map_const_eq_of_isSome h ())
  simpa [keys, map, Function.comp_def] using hpairs

/-- What is listed stays listed when more is. -/
theorem isSome_get?_insert {other : String} (h : (t.get? other).isSome = true) (key : String)
    (value : α) : ((t.insert key value).get? other).isSome = true := by
  by_cases heq : other = key
  · rw [heq, get?_insert_self]
    rfl
  · rw [get?_insert_of_ne t heq]
    exact h

/-- A write to a key that is listed replaces its entry in place. -/
theorem entries_insert_of_isSome {key : String} (h : (t.get? key).isSome = true) (value : α) :
    (t.insert key value).entries =
      t.entries.map fun e => if e.1 = key then (key, value) else e := by
  obtain ⟨entries, hascending⟩ := t
  change (lookup key entries).isSome = true at h
  show place key value entries = entries.map fun e => if e.1 = key then (key, value) else e
  induction entries with
  | nil => exact absurd h (by simp [lookup])
  | cons e rest ih =>
    obtain ⟨k, v⟩ := e
    rw [place, List.map_cons]
    by_cases heq : k = key
    · subst heq
      -- the keys ascend, so the key is not listed again
      have hrest : ∀ e ∈ rest, e.1 ≠ k := by
        intro e he hkey
        have hlt : k < e.1 := List.rel_of_pairwise_cons hascending he
        exact String.lt_irrefl k (hkey ▸ hlt)
      have hsame : (rest.map fun e => if e.1 = k then (k, value) else e) = rest := by
        refine (List.map_congr_left fun e he => ?_).trans (List.map_id rest)
        exact if_neg (hrest e he)
      rw [if_neg (String.lt_irrefl k), if_pos rfl, if_pos rfl, hsame]
    · rw [lookup, if_neg heq] at h
      have hlisted := ih hascending.of_cons h
      have hbelow : ¬key < k := by
        intro hlt
        obtain ⟨old, hold⟩ := Option.isSome_iff_exists.mp h
        have habove : k < key := List.rel_of_pairwise_cons hascending (mem_of_lookup_eq_some hold)
        exact String.lt_irrefl k (String.lt_trans habove hlt)
      rw [if_neg hbelow, if_neg (Ne.symm heq), if_neg heq, hlisted]

/-- What the table of a list holds was in the list. -/
theorem mem_of_get?_ofList {l : List (String × α)} {key : String} {value : α}
    (h : (ofList l).get? key = some value) : (key, value) ∈ l := by
  have hfold : ∀ (l : List (String × α)) (t : KeyMap α),
      (l.foldl (fun t e => t.insert e.1 e.2) t).get? key = some value →
        (key, value) ∈ l ∨ t.get? key = some value := by
    intro l
    induction l with
    | nil =>
      intro t h
      exact .inr h
    | cons e rest ih =>
      intro t h
      rcases ih _ h with hrest | hfirst
      · exact .inl (List.mem_cons_of_mem e hrest)
      · by_cases heq : key = e.1
        · rw [heq, get?_insert_self] at hfirst
          have hvalue : e.2 = value := Option.some_inj.mp hfirst
          rw [heq, ← hvalue]
          exact .inl List.mem_cons_self
        · rw [get?_insert_of_ne t heq] at hfirst
          exact .inr hfirst
  rcases hfold l empty h with hmem | hempty
  · exact hmem
  · exact absurd hempty (by simp)

/-- The table of an ascending list is the list. -/
theorem get?_foldl_insert {l : List (String × α)} (h : l.Pairwise (fun a b => a.1 < b.1))
    (t : KeyMap α) (key : String) :
    (l.foldl (fun t e => t.insert e.1 e.2) t).get? key = (lookup key l).or (t.get? key) := by
  induction l generalizing t with
  | nil => rfl
  | cons e rest ih =>
    rw [List.foldl_cons, ih h.of_cons]
    by_cases heq : e.1 = key
    · subst heq
      have hnone : lookup e.1 rest = none :=
        lookup_eq_none_of_lt fun other hother => List.rel_of_pairwise_cons h hother
      rw [hnone, get?_insert_self, lookup, if_pos rfl]
      rfl
    · rw [get?_insert_of_ne t (Ne.symm heq), lookup, if_neg heq]

theorem get?_ofList {l : List (String × α)} (h : l.Pairwise (fun a b => a.1 < b.1))
    (key : String) : (ofList l).get? key = lookup key l := by
  rw [ofList, get?_foldl_insert h, get?_empty, Option.or_none]

/-- A list with the keys of an ascending one is ascending. -/
theorem ascending_of_keys_eq {β : Type} {l : List (String × α)} {m : List (String × β)}
    (h : l.map Prod.fst = m.map Prod.fst) (hm : m.Pairwise fun a b => a.1 < b.1) :
    l.Pairwise fun a b => a.1 < b.1 := by
  have hkeys := List.pairwise_map.mpr hm
  rw [← h] at hkeys
  exact List.pairwise_map.mp hkeys

/-- The table of the entries of a table is the table. -/
theorem ofList_entries (t : KeyMap α) : ofList t.entries = t :=
  ext_get? fun key => get?_ofList t.ascending key

end IncrementalGame.KeyMap
