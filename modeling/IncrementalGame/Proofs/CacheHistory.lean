import Mathlib.Tactic
import IncrementalGame.Proofs.CacheEntries

/-!
# What a cache answers, and how large it grows

A history is a list of requests to a cache, each with the instant at which it is made, and the
instants do not go back.  Entries leave the cache at different times: a read drops the stale entry
it meets, a write now and then drops all of them, and so does a purge.  Still two things hold.

* None of this can be seen.  The answers to a history are those of a `TimedMap`, which drops nothing
  by itself (`serveAll_eq_timedMap`).  What a cache and a timed map have in common is what is live
  in them from now on (`Agrees`), and each request keeps that (`Agrees.serve`).
* The cache is not much larger than what is live in it.  Its size never passes `sweepAt`, which in
  turn was set to twice what some write has found live, or to 64 (`Bounded`); so 64 entries or twice
  the most that any write has found live are enough for every history (`size_serveAll_le`).
-/

namespace IncrementalGame

namespace Cache

variable {α : Type}

/-! ## Histories -/

/-- What may be asked of a cache. -/
inductive Request (α : Type) where
  | set (key : String) (value : α) (lifetime : Nat)
  | get (key : String)
  | remove (key : String)
  | purge
  | clear

/-- Serves a request, and gives the value that was read or removed. -/
def serve (c : Cache α) (now : Nat) : Request α → Option α × Cache α
  | .set key value lifetime => (none, c.set now key value lifetime)
  | .get key => c.get now key
  | .remove key => c.remove now key
  | .purge => (none, (c.purge now).2)
  | .clear => (none, c.clear)

/-- Serves a history, and lists the answers. -/
def serveAll (c : Cache α) : List (Nat × Request α) → List (Option α) × Cache α
  | [] => ([], c)
  | (now, request) :: rest =>
    let (answer, c) := c.serve now request
    let (answers, c) := serveAll c rest
    (answer :: answers, c)

theorem serveAll_cons (c : Cache α) (first : Nat × Request α) (rest : List (Nat × Request α)) :
    c.serveAll (first :: rest) =
      ((c.serve first.1 first.2).1 :: ((c.serve first.1 first.2).2.serveAll rest).1,
        ((c.serve first.1 first.2).2.serveAll rest).2) := rfl

end Cache

/-! ## Timed maps -/

/-- What was set under each key, and when it becomes stale. -/
abbrev TimedMap (α : Type) := String → Option (CacheEntry α)

namespace TimedMap

variable {α : Type}

open Cache (Request)

/-- The map under whose keys nothing was set. -/
def empty : TimedMap α := fun _ => none

/-- The value under a key, as long as its time is not over. -/
def read (m : TimedMap α) (now : Nat) (key : String) : Option α :=
  match m key with
  | some e => if now < e.staleAt then some e.value else none
  | none => none

/-- Serves a request.  Only what is asked to go goes. -/
def serve (m : TimedMap α) (now : Nat) : Request α → Option α × TimedMap α
  | .set key value lifetime => (none, Function.update m key (some ⟨value, now + lifetime⟩))
  | .get key => (m.read now key, m)
  | .remove key => (m.read now key, Function.update m key none)
  | .purge => (none, m)
  | .clear => (none, empty)

/-- Serves a history, and lists the answers. -/
def serveAll (m : TimedMap α) : List (Nat × Request α) → List (Option α) × TimedMap α
  | [] => ([], m)
  | (now, request) :: rest =>
    let (answer, m) := m.serve now request
    let (answers, m) := serveAll m rest
    (answer :: answers, m)

theorem serveAll_cons (m : TimedMap α) (first : Nat × Request α) (rest : List (Nat × Request α)) :
    m.serveAll (first :: rest) =
      ((m.serve first.1 first.2).1 :: ((m.serve first.1 first.2).2.serveAll rest).1,
        ((m.serve first.1 first.2).2.serveAll rest).2) := rfl

/-- What a request makes of a key: nothing, or an entry, or that there is none. -/
def settled (key : String) : Nat × Request α → Option (Option (CacheEntry α))
  | (now, .set other value lifetime) =>
    if other = key then some (some ⟨value, now + lifetime⟩) else none
  | (_, .remove other) => if other = key then some none else none
  | (_, .clear) => some none
  | (_, .get _) | (_, .purge) => none

/-- What was set last under a key and has not been removed or cleared since. -/
def lastSet (key : String) (requests : List (Nat × Request α)) : Option (CacheEntry α) :=
  (requests.reverse.findSome? (settled key)).getD none

theorem serve_snd (m : TimedMap α) (now : Nat) (request : Request α) (key : String) :
    (m.serve now request).2 key = (settled key (now, request)).getD (m key) := by
  cases request with
  | set other value lifetime =>
    by_cases h : other = key
    · subst h
      simp [serve, settled]
    · simp [serve, settled, h, Function.update_of_ne (Ne.symm h)]
  | remove other =>
    by_cases h : other = key
    · subst h
      simp [serve, settled]
    · simp [serve, settled, h, Function.update_of_ne (Ne.symm h)]
  | get other => rfl
  | purge => rfl
  | clear => rfl

/-- After a history a timed map holds under a key what the latest request about this key says. -/
theorem serveAll_snd (requests : List (Nat × Request α)) (m : TimedMap α) (key : String) :
    (m.serveAll requests).2 key = (requests.reverse.findSome? (settled key)).getD (m key) := by
  induction requests generalizing m with
  | nil => rfl
  | cons first rest ih =>
    have hrest := ih (m.serve first.1 first.2).2
    rw [serve_snd] at hrest
    rw [serveAll_cons, hrest, List.reverse_cons, List.findSome?_append]
    cases rest.reverse.findSome? (settled key) with
    | none => cases h : settled key first <;> simp [h]
    | some entry => rfl

end TimedMap

namespace Cache

variable {α : Type} {c d : Cache α} {m : TimedMap α} {now later : Nat}

/-! ## What is live -/

/-- What is stale stays stale. -/
theorem isStale_mono {e : CacheEntry α} (h : now ≤ later) (hstale : e.isStale now = true) :
    e.isStale later = true := by
  rw [CacheEntry.isStale, decide_eq_true_eq] at hstale ⊢
  exact hstale.trans h

/-- To drop what is stale changes nothing that is live later. -/
theorem filter_filter_live (h : now ≤ later) (found : Option (CacheEntry α)) :
    (found.filter fun e => !e.isStale now).filter (fun e => !e.isStale later) =
      found.filter fun e => !e.isStale later := by
  cases found with
  | none => rfl
  | some e =>
    cases hstale : e.isStale now with
    | false => simp [Option.filter, hstale]
    | true => simp [Option.filter, hstale, isStale_mono h hstale]

theorem getElem?_live_live (h : now ≤ later) (sweepAt : Nat) (key : String) :
    ((⟨c.live now, sweepAt⟩ : Cache α).live later)[key]? = (c.live later)[key]? := by
  rw [getElem?_live, getElem?_live, getElem?_live, filter_filter_live h]

theorem getElem?_live_sweep (h : now ≤ later) (key : String) :
    ((c.sweep now).live later)[key]? = (c.live later)[key]? := by
  rw [sweep]
  split
  · exact getElem?_live_live h _ key
  · rfl

theorem getElem?_live_set (h : now ≤ later) (key other : String) (value : α) (lifetime : Nat) :
    ((c.set now key value lifetime).live later)[other]? =
      if key = other then
        (some (⟨value, now + lifetime⟩ : CacheEntry α)).filter fun e => !e.isStale later
      else (c.live later)[other]? := by
  rw [getElem?_live, set, Std.TreeMap.getElem?_insert]
  by_cases hkey : key = other
  · rw [if_pos (Std.ReflCmp.cmp_eq_of_eq hkey), if_pos hkey]
  · rw [if_neg fun heq => hkey (Std.LawfulEqCmp.eq_of_compare heq), if_neg hkey,
      ← getElem?_live_sweep h, getElem?_live]

theorem getElem?_live_erase (key other : String) :
    (({ c with entries := c.entries.erase key } : Cache α).live later)[other]? =
      if key = other then none else (c.live later)[other]? := by
  rw [getElem?_live, Std.TreeMap.getElem?_erase]
  by_cases hkey : key = other
  · rw [if_pos (Std.ReflCmp.cmp_eq_of_eq hkey), if_pos hkey, Option.filter_none]
  · rw [if_neg fun heq => hkey (Std.LawfulEqCmp.eq_of_compare heq), if_neg hkey, getElem?_live]

/-- A read drops nothing that is live. -/
theorem getElem?_live_get (h : now ≤ later) (key other : String) :
    ((c.get now key).2.live later)[other]? = (c.live later)[other]? := by
  rw [get]
  split
  · rfl
  next e hfound =>
    split
    next hstale =>
      rw [getElem?_live_erase]
      split
      next hkey =>
        subst hkey
        rw [getElem?_live, hfound, Option.filter_some, isStale_mono h hstale]
        rfl
      next => rfl
    next => rfl

/-! ## Answers -/

/-- What a read finds is what is live. -/
theorem get_fst (c : Cache α) (now : Nat) (key : String) :
    (c.get now key).1 = ((c.live now)[key]?).map (·.value) := by
  rw [get, getElem?_live]
  cases c.entries[key]? with
  | none => rfl
  | some e => cases hstale : e.isStale now <;> simp [hstale]

theorem remove_fst (c : Cache α) (now : Nat) (key : String) :
    (c.remove now key).1 = ((c.live now)[key]?).map (·.value) := by
  rw [remove, getElem?_live]
  cases c.entries[key]? with
  | none => rfl
  | some e => cases hstale : e.isStale now <;> simp [hstale]

/-- Whether a cache and a timed map have the same live entries from some instant on. -/
def Agrees (c : Cache α) (m : TimedMap α) (now : Nat) : Prop :=
  ∀ later, now ≤ later → ∀ key,
    (c.live later)[key]? = (m key).filter fun e => !e.isStale later

theorem agrees_empty (now : Nat) : Agrees (empty : Cache α) .empty now := by
  intro later _ key
  rw [getElem?_live, empty, Std.TreeMap.empty_eq_emptyc, Std.TreeMap.getElem?_emptyc]
  rfl

namespace Agrees

theorem mono (h : Agrees c m now) (hle : now ≤ later) : Agrees c m later :=
  fun t ht => h t (hle.trans ht)

theorem read_eq (h : Agrees c m now) (key : String) :
    ((c.live now)[key]?).map (·.value) = m.read now key := by
  rw [h now le_rfl key, TimedMap.read]
  cases m key with
  | none => rfl
  | some e =>
    by_cases hlive : now < e.staleAt
    · simp [CacheEntry.isStale, hlive]
    · simp [CacheEntry.isStale, hlive, Nat.le_of_not_lt hlive]

/-- **A request is answered alike**, and leaves the same live entries. -/
theorem serve (h : Agrees c m now) (request : Request α) :
    (c.serve now request).1 = (m.serve now request).1 ∧
      Agrees (c.serve now request).2 (m.serve now request).2 now := by
  cases request with
  | set key value lifetime =>
    refine ⟨rfl, fun later hle other => ?_⟩
    rw [TimedMap.serve_snd, TimedMap.settled, Cache.serve, getElem?_live_set hle, h later hle other]
    by_cases hkey : key = other
    · rw [if_pos hkey, if_pos hkey, Option.getD_some]
    · rw [if_neg hkey, if_neg hkey, Option.getD_none]
  | get key =>
    refine ⟨(get_fst c now key).trans (h.read_eq key), fun later hle other => ?_⟩
    rw [Cache.serve, getElem?_live_get hle, h later hle other]
    rfl
  | remove key =>
    refine ⟨(remove_fst c now key).trans (h.read_eq key), fun later hle other => ?_⟩
    rw [TimedMap.serve_snd, TimedMap.settled, Cache.serve, remove, getElem?_live_erase,
      h later hle other]
    by_cases hkey : key = other
    · rw [if_pos hkey, if_pos hkey, Option.getD_some, Option.filter_none]
    · rw [if_neg hkey, if_neg hkey, Option.getD_none]
  | purge =>
    refine ⟨rfl, fun later hle other => ?_⟩
    rw [Cache.serve, purge, getElem?_live_live hle, h later hle other]
    rfl
  | clear => exact ⟨rfl, agrees_empty now⟩

theorem serveAll (h : Agrees c m now) {requests : List (Nat × Request α)}
    (hnow : ∀ r ∈ requests, now ≤ r.1) (hclock : requests.Pairwise fun a b => a.1 ≤ b.1) :
    (c.serveAll requests).1 = (m.serveAll requests).1 := by
  induction requests generalizing c m now with
  | nil => rfl
  | cons first rest ih =>
    obtain ⟨hfirst, hrest⟩ := List.pairwise_cons.mp hclock
    obtain ⟨hanswer, hagrees⟩ := (h.mono (hnow first List.mem_cons_self)).serve first.2
    have hanswers := ih hagrees hfirst hrest
    rw [Cache.serveAll_cons, TimedMap.serveAll_cons, hanswer, hanswers]

end Agrees

/-- **A cache answers as a timed map does**, in which a read or a removal finds what was set last
under the key and has not been removed or cleared since, unless its time is over.  The clock must
not go back. -/
theorem serveAll_eq_timedMap (requests : List (Nat × Request α))
    (hclock : requests.Pairwise fun a b => a.1 ≤ b.1) :
    (serveAll .empty requests).1 = (TimedMap.serveAll .empty requests).1 ∧
      ∀ key, (TimedMap.serveAll .empty requests).2 key = TimedMap.lastSet key requests :=
  ⟨(agrees_empty 0).serveAll (fun r _ => Nat.zero_le r.1) hclock,
    TimedMap.serveAll_snd requests .empty⟩

/-- A value is read until its time is over, a write with no lifetime hides it, and a removal gives
what was written after that. -/
theorem serveAll_eq_timedMap_of_rewrites :
    let requests : List (Nat × Request Nat) :=
      [(0, .set "a" 1 5), (4, .get "a"), (4, .purge), (5, .get "a"), (6, .set "a" 2 9),
        (7, .set "a" 3 0), (7, .get "a"), (8, .set "a" 4 1), (8, .remove "a"), (8, .get "a")]
    (requests.Pairwise fun a b => a.1 ≤ b.1) ∧
      (serveAll .empty requests).1 =
        [none, some 1, none, none, none, none, none, none, some 4, none] ∧
      (serveAll .empty requests).1 = (TimedMap.serveAll .empty requests).1 ∧
      ∀ key, (TimedMap.serveAll .empty requests).2 key = TimedMap.lastSet key requests :=
  ⟨by decide, by decide +kernel, serveAll_eq_timedMap _ (by decide)⟩

/-! ## Sizes -/

/-- How many live entries a write finds. -/
def liveFound (c : Cache α) (now : Nat) : Request α → Nat
  | .set _ _ _ => (c.live now).size
  | .get _ | .remove _ | .purge | .clear => 0

/-- How many live entries there are when a write is done, the new one included. -/
def liveLeft (c : Cache α) (now : Nat) : Request α → Nat
  | .set key value lifetime => ((c.set now key value lifetime).live now).size
  | .get _ | .remove _ | .purge | .clear => 0

/-- The largest count along a history. -/
def peak (count : Cache α → Nat → Request α → Nat) (c : Cache α) : List (Nat × Request α) → Nat
  | [] => 0
  | (now, request) :: rest =>
    max (count c now request) (peak count (c.serve now request).2 rest)

theorem peak_cons (count : Cache α → Nat → Request α → Nat) (c : Cache α)
    (first : Nat × Request α) (rest : List (Nat × Request α)) :
    peak count c (first :: rest) =
      max (count c first.1 first.2) (peak count (c.serve first.1 first.2).2 rest) := rfl

/-- Entries that are all found among others are not more than these. -/
theorem size_le_of_getElem? {entries others : Std.TreeMap String (CacheEntry α)}
    (h : ∀ (key : String) (entry : CacheEntry α),
      entries[key]? = some entry → others[key]? = some entry) :
    entries.size ≤ others.size := by
  rw [← Std.TreeMap.length_keys, ← Std.TreeMap.length_keys]
  refine Std.TreeMap.nodup_keys.length_le_of_subset fun key hkey => ?_
  rw [Std.TreeMap.mem_keys, Std.TreeMap.mem_iff_isSome_getElem?] at hkey ⊢
  obtain ⟨entry, hentry⟩ := Option.isSome_iff_exists.mp hkey
  rw [h key entry hentry]
  rfl

/-- Every request but a write leaves entries that were there. -/
theorem within_serve (c : Cache α) (now : Nat) {request : Request α}
    (h : ∀ key value lifetime, request ≠ .set key value lifetime) :
    Within (c.serve now request).2 c := by
  cases request with
  | set key value lifetime => exact absurd rfl (h key value lifetime)
  | get key => exact within_get c now key
  | remove key => exact within_remove c now key
  | purge => exact within_purge c now
  | clear => exact within_clear c

/-! ### The bound -/

/-- Whether a cache has not outgrown `sweepAt`, nor `sweepAt` twice a count of live entries. -/
structure Bounded (c : Cache α) (count : Nat) : Prop where
  size_le : c.size ≤ c.sweepAt
  sweepAt_le : c.sweepAt ≤ max 64 (2 * count)

namespace Bounded

variable {count : Nat}

theorem of_within (h : Bounded d count) (hwithin : Within c d) (hsweep : c.sweepAt = d.sweepAt) :
    Bounded c count :=
  ⟨(size_le_of_getElem? hwithin).trans (h.size_le.trans_eq hsweep.symm),
    hsweep.trans_le h.sweepAt_le⟩

/-- To sweep makes room for an entry: a cache that has reached `sweepAt` keeps what is live, and may
then grow to twice that. -/
theorem sweep (h : Bounded c count) (now : Nat) :
    (c.sweep now).size + 1 ≤ (c.sweep now).sweepAt ∧
      (c.sweep now).sweepAt ≤ max 64 (2 * max count (c.live now).size) := by
  have hle := h.sweepAt_le
  rw [Cache.sweep]
  split
  · simp only [size, minSweep]
    omega
  next hroom => exact ⟨Nat.lt_of_not_le hroom, by omega⟩

/-- **A write keeps the bound**, of what it finds live. -/
theorem set (h : Bounded c count) (now : Nat) (key : String) (value : α) (lifetime : Nat) :
    Bounded (c.set now key value lifetime) (max count (c.live now).size) := by
  obtain ⟨hroom, hle⟩ := h.sweep now
  have hinsert : (c.set now key value lifetime).size ≤ (c.sweep now).size + 1 :=
    Std.TreeMap.size_insert_le
  exact ⟨hinsert.trans hroom, hle⟩

theorem sweepAt_get (c : Cache α) (now : Nat) (key : String) :
    (c.get now key).2.sweepAt = c.sweepAt := by
  rw [get]
  split
  · rfl
  · split <;> rfl

theorem serve (h : Bounded c count) (now : Nat) (request : Request α) :
    Bounded (c.serve now request).2 (max count (liveFound c now request)) := by
  cases request with
  | set key value lifetime => exact h.set now key value lifetime
  | get key =>
    rw [liveFound, Nat.max_zero]
    exact h.of_within (within_get c now key) (sweepAt_get c now key)
  | remove key =>
    rw [liveFound, Nat.max_zero]
    exact h.of_within (within_remove c now key) rfl
  | purge =>
    rw [liveFound, Nat.max_zero]
    exact h.of_within (within_purge c now) rfl
  | clear =>
    rw [liveFound, Nat.max_zero]
    exact h.of_within (within_clear c) rfl

theorem serveAll (h : Bounded c count) (requests : List (Nat × Request α)) :
    Bounded (c.serveAll requests).2 (max count (peak liveFound c requests)) := by
  induction requests generalizing c count with
  | nil =>
    rw [peak, Nat.max_zero]
    exact h
  | cons first rest ih =>
    have hrest := ih (h.serve first.1 first.2)
    rw [Nat.max_assoc] at hrest
    exact hrest

end Bounded

/-! ### What a write finds and leaves -/

theorem size_live_anti (c : Cache α) (h : now ≤ later) :
    (c.live later).size ≤ (c.live now).size := by
  refine size_le_of_getElem? fun key entry hentry => ?_
  simp only [getElem?_live, Option.filter_eq_some_iff] at hentry ⊢
  refine ⟨hentry.1, ?_⟩
  cases hstale : entry.isStale now with
  | false => rfl
  | true => simp [isStale_mono h hstale] at hentry

theorem Within.size_live_le (h : Within c d) (now : Nat) :
    (c.live now).size ≤ (d.live now).size := by
  refine size_le_of_getElem? fun key entry hentry => ?_
  simp only [getElem?_live, Option.filter_eq_some_iff] at hentry ⊢
  exact ⟨h key entry hentry.1, hentry.2⟩

/-- What is live after a request was live before it, or when the write was done. -/
theorem size_live_serve_le {count : Nat} (h : (c.live now).size ≤ count) (request : Request α) :
    ((c.serve now request).2.live now).size ≤ max count (liveLeft c now request) := by
  by_cases hset : ∀ key value lifetime, request ≠ .set key value lifetime
  · exact ((within_serve c now hset).size_live_le now).trans (h.trans (Nat.le_max_left _ _))
  · push Not at hset
    obtain ⟨key, value, lifetime, rfl⟩ := hset
    exact Nat.le_max_right _ _

/-- No write finds more than some earlier write has left. -/
theorem peak_liveFound_le {requests : List (Nat × Request α)} {count : Nat}
    (hcount : (c.live now).size ≤ count) (hnow : ∀ r ∈ requests, now ≤ r.1)
    (hclock : requests.Pairwise fun a b => a.1 ≤ b.1) :
    peak liveFound c requests ≤ max count (peak liveLeft c requests) := by
  induction requests generalizing c now count with
  | nil => exact Nat.zero_le _
  | cons first rest ih =>
    obtain ⟨hfirst, hrest⟩ := List.pairwise_cons.mp hclock
    have hlive : (c.live first.1).size ≤ count :=
      (c.size_live_anti (hnow first List.mem_cons_self)).trans hcount
    have hfound : liveFound c first.1 first.2 ≤ count := by
      cases first.2 with
      | set => exact hlive
      | _ => exact Nat.zero_le _
    have hpeak := ih (size_live_serve_le hlive first.2) hfirst hrest
    rw [peak_cons, peak_cons]
    omega

/-- **The cache is bounded by what is live**: whatever the history, stale entries included there are
at most 64, or twice as many as some write has found live; and no write finds more live entries than
some write has left. -/
theorem size_serveAll_le (requests : List (Nat × Request α))
    (hclock : requests.Pairwise fun a b => a.1 ≤ b.1) :
    (serveAll .empty requests).2.size ≤ max 64 (2 * peak liveFound .empty requests) ∧
      peak liveFound .empty requests ≤ peak liveLeft .empty requests := by
  have hempty : Bounded (empty : Cache α) 0 := ⟨Nat.zero_le 64, Nat.le_max_left 64 0⟩
  have hbounded := hempty.serveAll requests
  rw [Nat.zero_max] at hbounded
  refine ⟨hbounded.size_le.trans hbounded.sweepAt_le, ?_⟩
  have hlive : ((empty : Cache α).live 0).size ≤ 0 := Nat.le_of_eq rfl
  have hpeak := peak_liveFound_le hlive (fun r _ => Nat.zero_le r.1) hclock
  rwa [Nat.zero_max] at hpeak

/-- So many writes, each under the number of its instant. -/
def writes (start number lifetime : Nat) : List (Nat × Request Nat) :=
  (List.range' start number).map fun i => (i, .set (toString i) i lifetime)

/-- The bound is reached: when 64 entries are live, as many stale ones may join them. -/
theorem size_serveAll_le_of_crowd :
    let requests := writes 0 64 1000 ++ writes 64 64 0
    (requests.Pairwise fun a b => a.1 ≤ b.1) ∧ (serveAll .empty requests).2.size = 128 ∧
      (serveAll .empty requests).2.size ≤ max 64 (2 * peak liveFound .empty requests) ∧
      peak liveFound .empty requests ≤ peak liveLeft .empty requests :=
  ⟨by decide +kernel, by decide +kernel, size_serveAll_le _ (by decide +kernel)⟩

end Cache

end IncrementalGame
