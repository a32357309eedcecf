import IncrementalGame.Event.Basic

/-!
# Delivery of events

An `EventBus` delivers each event to those who asked for its kind and to everyone who subscribed.

* A handler is called for every event of its kind, in the order in which the handlers were
  registered.  A handler is named by its place in that order, and `emit` says which are called.
* A receiver holds the events it was sent until they are taken, oldest first.  It has room for so
  many, at least one; an event that finds no room is lost to this receiver, and counted.
* A receiver that nobody holds any longer is struck off by the next event.

Receivers keep their numbers for good, also when they are struck off.
-/

namespace IncrementalGame

/-- Where a subscriber finds its events. -/
structure Receiver where
  /-- How many events it has room for. -/
  capacity : Nat
  /-- The events not yet taken, oldest first. -/
  pending : List Event
  /-- Whether somebody still holds it. -/
  held : Bool
  /-- Whether the bus still sends to it. -/
  listed : Bool
  deriving DecidableEq, Inhabited

/-- Who is told about events. -/
structure EventBus where
  /-- What kind each handler was registered for, in order. -/
  handlers : List EventKind
  /-- All receivers, in the order of their subscription. -/
  receivers : List Receiver
  /-- How many events found no room, counted without end: a counter of 64 bits would start again
  from zero. -/
  dropped : Nat
  deriving DecidableEq, Inhabited

namespace Receiver

/-- A receiver with room for `capacity` events, at least for one. -/
def ofCapacity (capacity : Nat) : Receiver := ⟨max capacity 1, [], true, true⟩

/-- Whether there is no room left. -/
def isFull (r : Receiver) : Bool := decide (r.capacity ≤ r.pending.length)

/-- Whether an event sent now would be lost. -/
def loses (r : Receiver) : Bool := r.listed && r.held && r.isFull

/-- Sends an event. -/
def send (event : Event) (r : Receiver) : Receiver :=
  if !r.listed then r
  else if !r.held then { r with listed := false }
  else if r.isFull then r
  else { r with pending := r.pending ++ [event] }

end Receiver

namespace EventBus

/-- A bus that nobody listens to. -/
def empty : EventBus := ⟨[], [], 0⟩

/-- Registers a handler for one kind. -/
def on (bus : EventBus) (kind : EventKind) : EventBus :=
  { bus with handlers := bus.handlers ++ [kind] }

/-- Opens a receiver. -/
def subscribe (bus : EventBus) (capacity : Nat) : EventBus :=
  { bus with receivers := bus.receivers ++ [.ofCapacity capacity] }

/-- The handlers for a kind, by their numbers. -/
def handlersOf (bus : EventBus) (kind : EventKind) : List Nat :=
  (bus.handlers.zipIdx.filter fun h => h.1 == kind).map (·.2)

/-- Delivers an event, and says which handlers are called. -/
def emit (bus : EventBus) (event : Event) : List Nat × EventBus :=
  (bus.handlersOf event.kind,
    { bus with
      receivers := bus.receivers.map (·.send event)
      dropped := bus.dropped + bus.receivers.countP (·.loses) })

/-- Delivers events in order, and says which handlers are called for which. -/
def publish (bus : EventBus) : List Event → List (Nat × Event) × EventBus
  | [] => ([], bus)
  | event :: events =>
    let (called, bus) := bus.emit event
    let (others, bus) := bus.publish events
    (called.map (fun handler => (handler, event)) ++ others, bus)

theorem publish_cons (bus : EventBus) (event : Event) (events : List Event) :
    bus.publish (event :: events) =
      ((bus.emit event).1.map (fun handler => (handler, event)) ++
        ((bus.emit event).2.publish events).1, ((bus.emit event).2.publish events).2) := rfl

/-- Events are published one after the other. -/
theorem publish_append (bus : EventBus) (events others : List Event) :
    bus.publish (events ++ others) =
      ((bus.publish events).1 ++ ((bus.publish events).2.publish others).1,
        ((bus.publish events).2.publish others).2) := by
  induction events generalizing bus with
  | nil => rfl
  | cons event events ih =>
    rw [List.cons_append, publish_cons, publish_cons, ih, List.append_assoc]

/-- How many receivers are sent to. -/
def subscriberCount (bus : EventBus) : Nat := bus.receivers.countP (·.listed)

/-- The receiver of a number, as long as it is held. -/
def receiver? (bus : EventBus) (number : Nat) : Option Receiver :=
  bus.receivers[number]?.filter (·.held)

/-- Changes the receiver of a number. -/
def setReceiver (bus : EventBus) (number : Nat) (r : Receiver) : EventBus :=
  { bus with receivers := bus.receivers.set number r }

/-- How many events a receiver holds. -/
def pending (bus : EventBus) (number : Nat) : Option Nat :=
  (bus.receiver? number).map (·.pending.length)

/-- Takes every event that a receiver holds. -/
def drain (bus : EventBus) (number : Nat) : Option (List Event) × EventBus :=
  match bus.receiver? number with
  | none => (none, bus)
  | some r => (some r.pending, bus.setReceiver number { r with pending := [] })

/-- Takes the oldest event that a receiver holds. -/
def take (bus : EventBus) (number : Nat) : Option Event × EventBus :=
  match bus.receiver? number with
  | none => (none, bus)
  | some r =>
    match r.pending with
    | [] => (none, bus)
    | event :: rest => (some event, bus.setReceiver number { r with pending := rest })

/-- Lets go of a receiver. -/
def release (bus : EventBus) (number : Nat) : EventBus :=
  match bus.receiver? number with
  | none => bus
  | some r => bus.setReceiver number { r with held := false }

end EventBus

end IncrementalGame
