import Mathlib.Tactic
import IncrementalGame.Event.Bus

/-!
# Where events go

Receivers come and go, fill and are emptied, each on its own, and an event that finds a receiver
full is lost to this receiver only.  So the fate of an event hangs on the bus that it finds, and that
is how the account is kept: an `Emission` is an event together with the bus as it was just then, and
`emissions` lists those of a whole run, in order.

* What a receiver was given so far and what it still holds are, put together, the events emitted
  since it was opened, but for those that found it full (`waiting_run`).
* What was counted as dropped are the pairs of an event and a held receiver that it found full
  (`dropped_run`).
* Handlers are called in the order in which they were registered, each once for every event of its
  kind (`pairwise_handlersOf`, `mem_handlersOf_iff`).

`delivery_accounts` puts this together, and says "full" by what can be seen from outside: as many
events pending as room was asked for at the subscription.
-/

namespace IncrementalGame

namespace EventBus

/-! ## Runs -/

/-- What may be asked of a bus. -/
inductive Request where
  | on (kind : EventKind)
  | subscribe (capacity : Nat)
  | emit (event : Event)
  | publish (events : List Event)
  | drain (number : Nat)
  | take (number : Nat)
  | release (number : Nat)

/-- The events that a request emits, in order. -/
def Request.events : Request → List Event
  | .emit event => [event]
  | .publish events => events
  | .on _ | .subscribe _ | .drain _ | .take _ | .release _ => []

/-- The bus after a request. -/
def after (bus : EventBus) : Request → EventBus
  | .on kind => bus.on kind
  | .subscribe capacity => bus.subscribe capacity
  | .emit event => (bus.emit event).2
  | .publish events => (bus.publish events).2
  | .drain number => (bus.drain number).2
  | .take number => (bus.take number).2
  | .release number => bus.release number

/-- The bus after requests. -/
def run (bus : EventBus) : List Request → EventBus
  | [] => bus
  | request :: rest => run (bus.after request) rest

/-- The kinds that handlers were registered for, in order. -/
def kindsOf (requests : List Request) : List EventKind :=
  requests.filterMap fun
    | .on kind => some kind
    | _ => none

/-- The room that each subscription has asked for; there is room for one event at least. -/
def roomsOf (requests : List Request) : List Nat :=
  requests.filterMap fun
    | .subscribe capacity => some (max capacity 1)
    | _ => none

/-- What a receiver gives out on a request. -/
def given (bus : EventBus) (number : Nat) : Request → List Event
  | .drain other => if other = number then (bus.drain number).1.getD [] else []
  | .take other => if other = number then (bus.take number).1.toList else []
  | .on _ | .subscribe _ | .emit _ | .publish _ | .release _ => []

/-- What a receiver gives out along requests. -/
def taken (number : Nat) (bus : EventBus) : List Request → List Event
  | [] => []
  | request :: rest => bus.given number request ++ taken number (bus.after request) rest

/-- An event that is emitted, and the bus that it finds. -/
structure Emission where
  event : Event
  /-- The bus just before. -/
  found : EventBus

/-- Events that are emitted one after the other. -/
def emitting (bus : EventBus) : List Event → List Emission
  | [] => []
  | event :: rest => ⟨event, bus⟩ :: emitting (bus.emit event).2 rest

/-- All that is emitted along requests. -/
def emissions (bus : EventBus) : List Request → List Emission
  | [] => []
  | request :: rest => bus.emitting request.events ++ emissions (bus.after request) rest

/-- Whether a receiver of this number was ever opened. -/
def hasOpened (bus : EventBus) (number : Nat) : Bool := decide (number < bus.receivers.length)

/-- Whether a receiver is held, and as many events are pending as there is room for. -/
def isFilled (rooms : List Nat) (number : Nat) (bus : EventBus) : Bool :=
  rooms[number]?.any fun room => bus.pending number == some room

/-- The events that a receiver was sent since it was opened, but for those that found it full. -/
def accepted (full : EventBus → Bool) (number : Nat) (sent : List Emission) : List Event :=
  (sent.filter fun x => x.found.hasOpened number && !full x.found).map (·.event)

theorem accepted_append (full : EventBus → Bool) (number : Nat) (sent others : List Emission) :
    accepted full number (sent ++ others) =
      accepted full number sent ++ accepted full number others := by
  rw [accepted, List.filter_append, List.map_append]
  rfl

/-! ## Order among receivers -/

end EventBus

/-- Whether a receiver is listed as long as it is held, and holds no more than it has room for. -/
structure Receiver.Sound (r : Receiver) : Prop where
  listed : r.held = true → r.listed = true
  length_le : r.pending.length ≤ r.capacity

namespace Receiver

theorem sound_ofCapacity (capacity : Nat) : (ofCapacity capacity).Sound :=
  ⟨fun _ => rfl, Nat.zero_le _⟩

@[simp] theorem held_send (r : Receiver) (event : Event) : (r.send event).held = r.held := by
  unfold send
  split
  · rfl
  · split
    · rfl
    · split <;> rfl

@[simp] theorem capacity_send (r : Receiver) (event : Event) :
    (r.send event).capacity = r.capacity := by
  unfold send
  split
  · rfl
  · split
    · rfl
    · split <;> rfl

/-- A held receiver takes an event in if there is room. -/
theorem send_of_held {r : Receiver} (h : r.Sound) (hheld : r.held = true) (event : Event) :
    r.send event = if r.isFull then r else { r with pending := r.pending ++ [event] } := by
  rw [send, h.listed hheld, hheld]
  rfl

theorem Sound.send {r : Receiver} (h : r.Sound) (event : Event) : (r.send event).Sound := by
  by_cases hheld : r.held = true
  · rw [send_of_held h hheld]
    cases hfull : r.isFull with
    | true => exact h
    | false =>
      have hroom : r.pending.length < r.capacity := by simpa [isFull] using hfull
      exact ⟨h.listed, by simpa using hroom⟩
  · refine ⟨fun hsent => absurd (r.held_send event ▸ hsent) hheld, ?_⟩
    unfold Receiver.send
    split
    · exact h.length_le
    · simpa [hheld] using h.length_le

theorem loses_eq {r : Receiver} (h : r.Sound) : r.loses = (r.held && r.isFull) := by
  cases hheld : r.held with
  | false => simp [loses, hheld]
  | true => simp [loses, hheld, h.listed hheld]

end Receiver

namespace EventBus

variable {bus : EventBus} {number : Nat}

/-- Whether all receivers are in order. -/
def Sound (bus : EventBus) : Prop := ∀ r ∈ bus.receivers, r.Sound

theorem receiver?_eq_some_iff {r : Receiver} :
    bus.receiver? number = some r ↔ bus.receivers[number]? = some r ∧ r.held = true :=
  Option.filter_eq_some_iff

theorem Sound.receiver (h : Sound bus) {r : Receiver} (hr : bus.receivers[number]? = some r) :
    r.Sound := h r (List.mem_of_getElem? hr)

/-- Whether two buses differ at most in one receiver, which was held and holds no more than it
did. -/
inductive Eased (bus : EventBus) : EventBus → Prop where
  | same : Eased bus bus
  | set {number : Nat} {r s : Receiver} (held : bus.receiver? number = some r)
    (capacity : s.capacity = r.capacity) (listed : s.listed = r.listed)
    (length_le : s.pending.length ≤ r.pending.length) : Eased bus (bus.setReceiver number s)

theorem eased_drain (bus : EventBus) (number : Nat) : Eased bus (bus.drain number).2 := by
  rw [drain]
  cases hr : bus.receiver? number with
  | none => exact .same
  | some r => exact .set hr rfl rfl (Nat.zero_le _)

theorem eased_take (bus : EventBus) (number : Nat) : Eased bus (bus.take number).2 := by
  rw [take]
  cases hr : bus.receiver? number with
  | none => exact .same
  | some r =>
    cases hpending : r.pending with
    | nil =>
      simp only [hpending]
      exact .same
    | cons event rest =>
      simp only [hpending]
      exact .set hr rfl rfl (by rw [hpending]; exact Nat.le_succ _)

theorem eased_release (bus : EventBus) (number : Nat) : Eased bus (bus.release number) := by
  rw [release]
  cases hr : bus.receiver? number with
  | none => exact .same
  | some r => exact .set hr rfl rfl le_rfl

theorem Eased.sound {other : EventBus} (h : Eased bus other) (hsound : Sound bus) :
    Sound other := by
  cases h with
  | same => exact hsound
  | @set number r s hr hcapacity hlisted hlength =>
    obtain ⟨hget, hheld⟩ := receiver?_eq_some_iff.mp hr
    have hr := hsound.receiver hget
    intro t ht
    rcases List.mem_or_eq_of_mem_set ht with ht | rfl
    · exact hsound t ht
    · exact ⟨fun _ => hlisted.trans (hr.listed hheld), hcapacity ▸ hlength.trans hr.length_le⟩

namespace Sound

theorem emit (h : Sound bus) (event : Event) : Sound (bus.emit event).2 := by
  intro r hr
  obtain ⟨s, hs, rfl⟩ := List.mem_map.mp hr
  exact (h s hs).send event

theorem publish (h : Sound bus) (events : List Event) : Sound (bus.publish events).2 := by
  induction events generalizing bus with
  | nil => exact h
  | cons event events ih => exact ih (h.emit event)

theorem after (h : Sound bus) (request : Request) : Sound (bus.after request) := by
  cases request with
  | on kind => exact h
  | subscribe capacity =>
    intro r hr
    rcases List.mem_append.mp hr with hr | hr
    · exact h r hr
    · rw [List.mem_singleton.mp hr]
      exact Receiver.sound_ofCapacity capacity
  | emit event => exact h.emit event
  | publish events => exact h.publish events
  | drain other => exact (eased_drain bus other).sound h
  | take other => exact (eased_take bus other).sound h
  | release other => exact (eased_release bus other).sound h

end Sound

/-! ## The account of a receiver -/

/-- The events that are pending for a number, none if there is no such receiver. -/
def waiting (number : Nat) (bus : EventBus) : List Event :=
  (bus.receivers[number]?.map (·.pending)).getD []

/-- Whether a receiver is held by nobody any longer. -/
def Released (number : Nat) (bus : EventBus) : Prop :=
  ∃ r, bus.receivers[number]? = some r ∧ r.held = false

/-- Whether a receiver is held and has no room left. -/
def isFull (number : Nat) (bus : EventBus) : Bool :=
  bus.receivers[number]?.any fun r => r.held && r.isFull

/-- What one event does to the account. -/
theorem waiting_emit (h : Sound bus) (hkept : ¬ Released number bus) (event : Event) :
    waiting number (bus.emit event).2 =
      waiting number bus ++ accepted (isFull number) number [⟨event, bus⟩] := by
  rw [waiting, waiting, emit, List.getElem?_map]
  cases hr : bus.receivers[number]? with
  | none =>
    have hunknown : bus.hasOpened number = false :=
      decide_eq_false (Nat.not_lt.mpr (List.getElem?_eq_none_iff.mp hr))
    simp [accepted, hunknown]
  | some r =>
    have hopened : bus.hasOpened number = true :=
      decide_eq_true (List.getElem?_eq_some_iff.mp hr).1
    have hheld : r.held = true := by
      cases hheld : r.held with
      | true => rfl
      | false => exact absurd ⟨r, hr, hheld⟩ hkept
    have hsent := Receiver.send_of_held (h.receiver hr) hheld event
    cases hfull : r.isFull <;> simp [accepted, isFull, hopened, hr, hheld, hsent, hfull]

theorem Released.emit (h : Released number bus) (event : Event) :
    Released number (bus.emit event).2 := by
  obtain ⟨r, hr, hheld⟩ := h
  refine ⟨r.send event, ?_, (r.held_send event).trans hheld⟩
  rw [EventBus.emit, List.getElem?_map, hr]
  rfl

theorem Released.publish (h : Released number bus) (events : List Event) :
    Released number (bus.publish events).2 := by
  induction events generalizing bus with
  | nil => exact h
  | cons event events ih => exact ih (h.emit event)

/-- What events that are published do to the account. -/
theorem waiting_publish (h : Sound bus) (events : List Event)
    (hkept : ¬ Released number (bus.publish events).2) :
    waiting number (bus.publish events).2 =
      waiting number bus ++ accepted (isFull number) number (bus.emitting events) := by
  induction events generalizing bus with
  | nil => simp [publish, emitting, accepted]
  | cons event events ih =>
    have hbefore : ¬ Released number bus := fun hgone => hkept (hgone.publish (event :: events))
    have hemit := waiting_emit h hbefore event
    rw [publish_cons, ih (h.emit event) hkept, hemit, List.append_assoc, ← accepted_append]
    rfl

/-- A receiver that is set is the one of its number. -/
theorem waiting_setReceiver {other : Nat} {r s : Receiver} (hr : bus.receivers[other]? = some r) :
    waiting number (bus.setReceiver other s) =
      if other = number then s.pending else waiting number bus := by
  rw [waiting, setReceiver, List.getElem?_set]
  split
  next heq =>
    rw [if_pos (heq ▸ (List.getElem?_eq_some_iff.mp hr).1)]
    rfl
  next => rfl

theorem Eased.released {other : EventBus} (h : Eased bus other) (hgone : Released number bus) :
    Released number other := by
  obtain ⟨t, ht, hreleased⟩ := hgone
  cases h with
  | same => exact ⟨t, ht, hreleased⟩
  | @set setAt r s hr =>
    obtain ⟨hget, hheld⟩ := receiver?_eq_some_iff.mp hr
    refine ⟨t, ?_, hreleased⟩
    rw [setReceiver, List.getElem?_set_ne, ht]
    rintro rfl
    rw [Option.some_inj.mp (hget.symm.trans ht), hreleased] at hheld
    exact Bool.false_ne_true hheld

/-- Who was let go is not held again. -/
theorem Released.after (h : Released number bus) (request : Request) :
    Released number (bus.after request) := by
  cases request with
  | on kind => exact h
  | subscribe capacity =>
    obtain ⟨r, hr, hheld⟩ := h
    have hlt := (List.getElem?_eq_some_iff.mp hr).1
    exact ⟨r, (List.getElem?_append_left hlt).trans hr, hheld⟩
  | emit event => exact h.emit event
  | publish events => exact h.publish events
  | drain other => exact (eased_drain bus other).released h
  | take other => exact (eased_take bus other).released h
  | release other => exact (eased_release bus other).released h

theorem waiting_of_receiver? {r : Receiver} (hr : bus.receiver? number = some r) :
    waiting number bus = r.pending := by
  rw [waiting, (receiver?_eq_some_iff.mp hr).1]
  rfl

/-- What a drain does to the account. -/
theorem waiting_drain (other : Nat) :
    waiting number bus = bus.given number (.drain other) ++ waiting number (bus.drain other).2 := by
  rw [given, drain, drain]
  cases hr : bus.receiver? other with
  | none =>
    split
    next heq => rw [← heq, hr]; rfl
    next => rfl
  | some r =>
    simp only
    rw [waiting_setReceiver (receiver?_eq_some_iff.mp hr).1]
    split
    next heq =>
      subst heq
      rw [hr, waiting_of_receiver? hr, List.append_nil]
      rfl
    next => rfl

/-- What it does to the account to take one event. -/
theorem waiting_take (other : Nat) :
    waiting number bus = bus.given number (.take other) ++ waiting number (bus.take other).2 := by
  rw [given, take, take]
  cases hr : bus.receiver? other with
  | none =>
    split
    next heq => rw [← heq, hr]; rfl
    next => rfl
  | some r =>
    cases hpending : r.pending with
    | nil =>
      simp only [hpending]
      split
      next heq => rw [← heq, hr]; simp only [hpending]; rfl
      next => rfl
    | cons event rest =>
      simp only [hpending]
      rw [waiting_setReceiver (receiver?_eq_some_iff.mp hr).1]
      split
      next heq =>
        subst heq
        rw [hr, waiting_of_receiver? hr]
        simp only [hpending]
        rfl
      next => rfl

/-- **One request keeps the account**, as long as the receiver is not let go. -/
theorem waiting_after (h : Sound bus) (request : Request)
    (hkept : ¬ Released number (bus.after request)) :
    waiting number bus ++ accepted (isFull number) number (bus.emitting request.events) =
      bus.given number request ++ waiting number (bus.after request) := by
  cases request with
  | on kind => exact List.append_nil _
  | subscribe capacity =>
    refine (List.append_nil _).trans ?_
    rw [after, waiting, waiting, subscribe, List.getElem?_append]
    split
    · rfl
    next hlt =>
      rw [List.getElem?_eq_none (Nat.not_lt.mp hlt), List.getElem?_singleton]
      split <;> rfl
  | emit event => exact (waiting_publish h [event] hkept).symm
  | publish events => exact (waiting_publish h events hkept).symm
  | drain other => exact (List.append_nil _).trans (waiting_drain other)
  | take other => exact (List.append_nil _).trans (waiting_take other)
  | release other =>
    refine (List.append_nil _).trans ?_
    rw [after, release] at hkept ⊢
    cases hr : bus.receiver? other with
    | none => rfl
    | some r =>
      simp only [hr] at hkept ⊢
      have hother := (receiver?_eq_some_iff.mp hr).1
      have hne : other ≠ number := by
        rintro rfl
        refine hkept ⟨{ r with held := false }, ?_, rfl⟩
        rw [setReceiver, List.getElem?_set_self (List.getElem?_eq_some_iff.mp hother).1]
      rw [waiting_setReceiver hother, if_neg hne]
      rfl

theorem Released.run (h : Released number bus) (requests : List Request) :
    Released number (bus.run requests) := by
  induction requests generalizing bus with
  | nil => exact h
  | cons request rest ih => exact ih (h.after request)

/-- **The account of a receiver**: what it held, and what it was sent since and had room for, is
what it gave out and what it holds. -/
theorem waiting_run (h : Sound bus) (requests : List Request)
    (hkept : ¬ Released number (bus.run requests)) :
    waiting number bus ++ accepted (isFull number) number (bus.emissions requests) =
      taken number bus requests ++ waiting number (bus.run requests) := by
  induction requests generalizing bus with
  | nil => simp [emissions, accepted, taken, run]
  | cons request rest ih =>
    have hstep := waiting_after h request fun hgone => hkept (hgone.run rest)
    have hrest := ih (h.after request) hkept
    calc waiting number bus ++ accepted (isFull number) number (bus.emissions (request :: rest))
        = waiting number bus ++ accepted (isFull number) number (bus.emitting request.events) ++
            accepted (isFull number) number ((bus.after request).emissions rest) := by
          rw [emissions, accepted_append, List.append_assoc]
      _ = bus.given number request ++ (waiting number (bus.after request) ++
            accepted (isFull number) number ((bus.after request).emissions rest)) := by
          rw [hstep, List.append_assoc]
      _ = taken number bus (request :: rest) ++ waiting number (bus.run (request :: rest)) := by
          rw [hrest, taken, run, List.append_assoc]

/-! ## The account of losses -/

/-- How many held receivers have no room left. -/
def fullCount (bus : EventBus) : Nat := bus.receivers.countP fun r => r.held && r.isFull

/-- What events that are published add to the count of losses. -/
theorem dropped_publish (h : Sound bus) (events : List Event) :
    (bus.publish events).2.dropped =
      bus.dropped + ((bus.emitting events).map fun x => x.found.fullCount).sum := by
  induction events generalizing bus with
  | nil => rfl
  | cons event events ih =>
    have hloses : bus.receivers.countP (·.loses) = bus.fullCount :=
      List.countP_congr fun r hr => by rw [Receiver.loses_eq (h r hr)]
    have hemit : (bus.emit event).2.dropped = bus.dropped + bus.fullCount := by
      rw [emit, ← hloses]
    rw [publish_cons, ih (h.emit event), hemit, emitting, List.map_cons, List.sum_cons,
      Nat.add_assoc]

theorem Eased.dropped_eq {other : EventBus} (h : Eased bus other) :
    other.dropped = bus.dropped := by
  cases h <;> rfl

theorem dropped_after (h : Sound bus) (request : Request) :
    (bus.after request).dropped =
      bus.dropped + ((bus.emitting request.events).map fun x => x.found.fullCount).sum := by
  cases request with
  | on kind => rfl
  | subscribe capacity => rfl
  | emit event => exact dropped_publish h [event]
  | publish events => exact dropped_publish h events
  | drain other => exact (eased_drain bus other).dropped_eq
  | take other => exact (eased_take bus other).dropped_eq
  | release other => exact (eased_release bus other).dropped_eq

/-- **The account of losses**: the count goes up by the held receivers that an event finds full. -/
theorem dropped_run (h : Sound bus) (requests : List Request) :
    (bus.run requests).dropped =
      bus.dropped + ((bus.emissions requests).map fun x => x.found.fullCount).sum := by
  induction requests generalizing bus with
  | nil => rfl
  | cons request rest ih =>
    rw [run, ih (h.after request), dropped_after h request, emissions, List.map_append,
      List.sum_append, Nat.add_assoc]

/-! ## Rooms -/

/-- The room of each receiver. -/
def rooms (bus : EventBus) : List Nat := bus.receivers.map (·.capacity)

theorem rooms_emit (bus : EventBus) (event : Event) : (bus.emit event).2.rooms = bus.rooms := by
  rw [rooms, emit, List.map_map]
  exact List.map_congr_left fun r _ => r.capacity_send event

theorem rooms_publish (bus : EventBus) (events : List Event) :
    (bus.publish events).2.rooms = bus.rooms := by
  induction events generalizing bus with
  | nil => rfl
  | cons event events ih => rw [publish_cons, ih, rooms_emit]

theorem Eased.rooms_eq {other : EventBus} (h : Eased bus other) : other.rooms = bus.rooms := by
  cases h with
  | same => rfl
  | @set setAt r s hr hcapacity =>
    obtain ⟨hlt, hget⟩ := List.getElem?_eq_some_iff.mp (receiver?_eq_some_iff.mp hr).1
    have hopened : setAt < bus.rooms.length := by rwa [rooms, List.length_map]
    have hroom : bus.rooms[setAt] = s.capacity := by
      simp only [rooms, List.getElem_map, hget, hcapacity]
    show (bus.receivers.set setAt s).map (·.capacity) = bus.rooms
    rw [List.map_set, ← hroom]
    exact List.set_getElem_self _

/-- A receiver's room is what its subscription has asked for. -/
theorem rooms_after (bus : EventBus) (request : Request) :
    (bus.after request).rooms = bus.rooms ++ roomsOf [request] := by
  cases request with
  | on kind => exact (List.append_nil _).symm
  | subscribe capacity => exact List.map_append
  | emit event => exact (rooms_emit bus event).trans (List.append_nil _).symm
  | publish events => exact (rooms_publish bus events).trans (List.append_nil _).symm
  | drain other => exact (eased_drain bus other).rooms_eq.trans (List.append_nil _).symm
  | take other => exact (eased_take bus other).rooms_eq.trans (List.append_nil _).symm
  | release other => exact (eased_release bus other).rooms_eq.trans (List.append_nil _).symm

theorem roomsOf_cons (request : Request) (rest : List Request) :
    roomsOf (request :: rest) = roomsOf [request] ++ roomsOf rest :=
  List.filterMap_append (l := [request])

theorem emitting_sound (h : Sound bus) {events : List Event} {x : Emission}
    (hx : x ∈ bus.emitting events) : Sound x.found ∧ x.found.rooms = bus.rooms := by
  induction events generalizing bus with
  | nil => exact absurd hx List.not_mem_nil
  | cons event rest ih =>
    rcases List.mem_cons.mp hx with rfl | hx
    · exact ⟨h, rfl⟩
    · obtain ⟨hsound, hrooms⟩ := ih (h.emit event) hx
      exact ⟨hsound, hrooms.trans (rooms_emit bus event)⟩

/-- Each bus that an event finds is in order, and has some of the receivers that are opened. -/
theorem emissions_sound (h : Sound bus) {requests : List Request} {x : Emission}
    (hx : x ∈ bus.emissions requests) :
    Sound x.found ∧ x.found.rooms <+: bus.rooms ++ roomsOf requests := by
  induction requests generalizing bus with
  | nil => exact absurd hx List.not_mem_nil
  | cons request rest ih =>
    rcases List.mem_append.mp hx with hx | hx
    · obtain ⟨hsound, hrooms⟩ := emitting_sound h hx
      exact ⟨hsound, hrooms ▸ List.prefix_append _ _⟩
    · obtain ⟨hsound, hrooms⟩ := ih (h.after request) hx
      rw [rooms_after, List.append_assoc, ← roomsOf_cons] at hrooms
      exact ⟨hsound, hrooms⟩

/-- What is full holds as many events as its room. -/
theorem isFilled_eq_isFull (h : Sound bus) {opened : List Nat} (hrooms : bus.rooms <+: opened)
    (number : Nat) : bus.isFilled opened number = bus.isFull number := by
  rw [isFilled, isFull, pending, receiver?]
  cases hr : bus.receivers[number]? with
  | none => cases opened[number]? <;> rfl
  | some r =>
    have hroom : bus.rooms[number]? = some r.capacity := by rw [rooms, List.getElem?_map, hr]; rfl
    obtain ⟨others, rfl⟩ := hrooms
    rw [List.getElem?_append_left (List.getElem?_eq_some_iff.mp hroom).1, hroom]
    cases hheld : r.held with
    | false => simp [Option.filter, hheld]
    | true =>
      have hle := (h.receiver hr).length_le
      simp only [Option.filter, hheld, Option.any_some, Option.map_some, if_true, Bool.true_and,
        Receiver.isFull, beq_eq_decide, Option.some_inj]
      exact decide_eq_decide.mpr ⟨fun heq => heq.ge, fun hge => le_antisymm hle hge⟩

theorem countP_eq_countP_range {α : Type} (p : α → Bool) (l : List α) {n : Nat}
    (h : l.length ≤ n) : l.countP p = (List.range n).countP fun i => l[i]?.any p := by
  induction l generalizing n with
  | nil => simp
  | cons a l ih =>
    obtain ⟨m, rfl⟩ := Nat.exists_eq_add_one.mpr ((Nat.succ_pos _).trans_le h)
    rw [List.countP_cons, ih (Nat.le_of_succ_le_succ h), List.range_succ_eq_map, List.countP_cons,
      List.countP_map]
    rfl

/-- How many held receivers an event finds full, by their numbers. -/
theorem fullCount_eq (h : Sound bus) {opened : List Nat} (hrooms : bus.rooms <+: opened) :
    bus.fullCount = (List.range opened.length).countP fun number => bus.isFilled opened number := by
  have hle : bus.receivers.length ≤ opened.length := by
    simpa [rooms] using hrooms.length_le
  rw [fullCount, countP_eq_countP_range _ _ hle]
  refine List.countP_congr fun number _ => ?_
  rw [isFilled_eq_isFull h hrooms, isFull]

/-! ## Handlers -/

/-- The handlers for a kind are called in the order in which they were registered. -/
theorem pairwise_handlersOf (bus : EventBus) (kind : EventKind) :
    (bus.handlersOf kind).Pairwise (· < ·) := by
  have hsublist : (bus.handlersOf kind).Sublist (bus.handlers.zipIdx.map (·.2)) :=
    List.filter_sublist.map _
  refine List.Pairwise.sublist hsublist ?_
  rw [List.zipIdx_map_snd]
  exact List.pairwise_lt_range'

/-- They are those that were registered for it. -/
theorem mem_handlersOf_iff {kind : EventKind} {handler : Nat} :
    handler ∈ bus.handlersOf kind ↔ bus.handlers[handler]? = some kind := by
  simp [handlersOf, List.mem_zipIdx_iff_getElem?]

theorem handlers_publish (bus : EventBus) (events : List Event) :
    (bus.publish events).2.handlers = bus.handlers := by
  induction events generalizing bus with
  | nil => rfl
  | cons event events ih => exact ih (bus.emit event).2

theorem Eased.handlers_eq {other : EventBus} (h : Eased bus other) :
    other.handlers = bus.handlers := by
  cases h <;> rfl

theorem handlers_after (bus : EventBus) (request : Request) :
    (bus.after request).handlers = bus.handlers ++ kindsOf [request] := by
  cases request with
  | on kind => rfl
  | subscribe capacity => exact (List.append_nil _).symm
  | emit event => exact (List.append_nil _).symm
  | publish events => exact (handlers_publish bus events).trans (List.append_nil _).symm
  | drain other => exact (eased_drain bus other).handlers_eq.trans (List.append_nil _).symm
  | take other => exact (eased_take bus other).handlers_eq.trans (List.append_nil _).symm
  | release other => exact (eased_release bus other).handlers_eq.trans (List.append_nil _).symm

theorem handlers_run (bus : EventBus) (requests : List Request) :
    (bus.run requests).handlers = bus.handlers ++ kindsOf requests := by
  induction requests generalizing bus with
  | nil => exact (List.append_nil _).symm
  | cons request rest ih =>
    rw [run, ih, handlers_after, List.append_assoc]
    congr 1
    exact (List.filterMap_append (l := [request])).symm

/-- Publishing calls, for one event after the other, the handlers of its kind. -/
theorem publish_fst (bus : EventBus) (events : List Event) :
    (bus.publish events).1 =
      events.flatMap fun event => (bus.emit event).1.map fun handler => (handler, event) := by
  induction events generalizing bus with
  | nil => rfl
  | cons event events ih =>
    rw [publish_cons, List.flatMap_cons, ih]
    rfl

/-! ## The whole account -/

theorem events_emitting (bus : EventBus) (events : List Event) :
    (bus.emitting events).map (·.event) = events := by
  induction events generalizing bus with
  | nil => rfl
  | cons event events ih => rw [emitting, List.map_cons, ih]

theorem events_emissions (bus : EventBus) (requests : List Request) :
    (bus.emissions requests).map (·.event) = requests.flatMap Request.events := by
  induction requests generalizing bus with
  | nil => rfl
  | cons request rest ih =>
    rw [emissions, List.map_append, events_emitting, ih, List.flatMap_cons]

theorem sound_empty : Sound empty := fun _ h => absurd h List.not_mem_nil

/-- **Delivery of events.**  After any requests to a bus:

* a receiver that is still held has given out and holds, in order, the events emitted since it was
  opened, except those that found as many events pending as it has room for;
* the count of dropped events is the number of pairs of an event and a held receiver such that the
  event found the receiver full;
* whatever is emitted next, the handlers called are those registered for the kind of the event, each
  once and in the order of their registration; and events that are published are emitted one after
  the other. -/
theorem delivery_accounts (requests : List Request) :
    let bus := empty.run requests
    let sent := empty.emissions requests
    let rooms := roomsOf requests
    sent.map (·.event) = requests.flatMap Request.events ∧
      (∀ number r, bus.receiver? number = some r →
        accepted (isFilled rooms number) number sent =
          taken number empty requests ++ r.pending) ∧
      bus.dropped = (sent.map fun x =>
        (List.range rooms.length).countP fun number => x.found.isFilled rooms number).sum ∧
      (∀ event, (bus.emit event).1.Pairwise (· < ·) ∧
        ∀ handler, handler ∈ (bus.emit event).1 ↔
          (kindsOf requests)[handler]? = some event.kind) ∧
      ∀ events, (bus.publish events).1 =
        events.flatMap fun event => (bus.emit event).1.map fun handler => (handler, event) := by
  intro bus sent rooms
  have hfound : ∀ x ∈ sent, Sound x.found ∧ x.found.rooms <+: rooms :=
    fun x hx => emissions_sound sound_empty hx
  refine ⟨events_emissions empty requests, ?_, ?_, ?_, publish_fst bus⟩
  · intro number r hr
    have hkept : ¬ Released number bus := by
      rintro ⟨s, hs, hreleased⟩
      obtain ⟨hget, hheld⟩ := receiver?_eq_some_iff.mp hr
      rw [Option.some_inj.mp (hget.symm.trans hs), hreleased] at hheld
      exact absurd hheld Bool.false_ne_true
    have haccount := waiting_run sound_empty requests hkept
    rw [waiting_of_receiver? hr] at haccount
    rw [← haccount, accepted]
    refine congrArg _ (List.filter_congr fun x hx => ?_)
    rw [isFilled_eq_isFull (hfound x hx).1 (hfound x hx).2]
  · refine (dropped_run sound_empty requests).trans ((Nat.zero_add _).trans ?_)
    refine congrArg _ (List.map_congr_left fun x hx => ?_)
    exact fullCount_eq (hfound x hx).1 (hfound x hx).2
  · intro event
    refine ⟨pairwise_handlersOf bus event.kind, fun handler => ?_⟩
    have hhandlers : bus.handlers = kindsOf requests := handlers_run empty requests
    rw [← hhandlers]
    exact mem_handlersOf_iff

/-- One receiver has room for one event and is let go in the end, the other for two: three events
are lost to the first and one to the second, which was given two and holds the last. -/
theorem delivery_accounts_of_crowd :
    let risen := Event.prestige "ann" 1
    let raised := Event.prestige "ann" 2
    let bought := Event.upgradeBought "ann" "drill"
    let requests : List Request := [.on .prestige, .subscribe 0, .emit risen, .emit raised, .take 0,
      .subscribe 2, .on .upgradeBought, .publish [bought, risen, raised], .drain 1, .release 0,
      .emit bought]
    let bus := empty.run requests
    bus.receiver? 1 = some ⟨2, [bought], true, true⟩ ∧ taken 1 empty requests = [bought, risen] ∧
      accepted (isFilled (roomsOf requests) 1) 1 (empty.emissions requests) =
        taken 1 empty requests ++ [bought] ∧
      bus.dropped = 4 ∧ (bus.emit risen).1 = [0] := by
  intro risen raised bought requests bus
  have hreceiver : bus.receiver? 1 = some ⟨2, [bought], true, true⟩ := by decide
  exact ⟨hreceiver, by decide, (delivery_accounts requests).2.1 1 _ hreceiver, by decide, by decide⟩

end EventBus

end IncrementalGame
