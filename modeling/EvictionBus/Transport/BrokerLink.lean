import EvictionBus.Broker.Backend
import EvictionBus.Transport.Reconnect
import EvictionBus.Transport.Traffic

/-!
# A node's link to a broker

A supervisor reads the deliveries of a session, and searches for a new session when that fails.
Payloads are sent through the publisher of the latest session that was found; there is none once the
supervisor has given up.
-/

namespace EvictionBus

inductive Supervisor where
  /-- It reads deliveries. -/
  | consuming
  /-- It has taken in the delivery with the given tag, and acknowledges it. -/
  | acknowledging (tag : Nat)
  /-- A call of its search ends at the given time with the given result, the number of a session or
  an error. -/
  | calling (call due : Nat) (result : Except TransportError Nat)
  /-- It waits until the given time after a failed call. -/
  | waiting (call due : Nat)
  /-- Its search has failed for good. -/
  | gaveUp
  | stopped

structure BrokerLink where
  binding : Broker.Binding
  /-- The session whose deliveries are read. -/
  session : Nat
  /-- The session whose publisher is used. -/
  publisher : Option Nat
  supervisor : Supervisor

namespace BrokerLink

open Broker (Connector)

def ofSession (binding : Broker.Binding) (session : Nat) : BrokerLink :=
  ⟨binding, session, some session, .consuming⟩

variable {B : Type} [Connector B]

def call (l : BrokerLink) (now : Nat) (b : B) (number : Nat) : BrokerLink × B :=
  let (takes, result, b) := Connector.connect now l.binding b
  ({ l with supervisor := .calling number (Clock.due now takes) result }, b)

/-- The publisher of a session that has been found replaces the old one, which is closed. -/
def adopt (l : BrokerLink) (b : B) (session : Nat) : BrokerLink × B :=
  let b := match l.publisher with
    | some stale => Connector.closePublisher stale b
    | none => b
  ({ l with publisher := some session }, b)

/-- The deliveries of the session that has been found are read, and no others. -/
def resume (l : BrokerLink) (b : B) (session : Nat) : BrokerLink × B :=
  ({ l with session := session, supervisor := .consuming }, Connector.dropReader l.session b)

/-- A new session has been found: its publisher is used as soon as the search is over, and its
deliveries are read once the old publisher is closed. -/
def replaceSession (l : BrokerLink) (b : B) (session : Nat) : BrokerLink × B :=
  let (l, b) := l.adopt b session
  l.resume b session

/-- There will be no new session. -/
def giveUp (l : BrokerLink) (b : B) : BrokerLink × B :=
  ({ l with publisher := none, supervisor := .gaveUp }, Connector.dropReader l.session b)

/-- A delivery is taken in; a message of the node's own is known by its routing key. -/
def takeIn (l : BrokerLink) (t : Traffic) (d : Broker.Delivery) : Traffic :=
  if d.routingKey = l.binding.routingKey then t.echo else t.deliver d.payload

/-- The next move of the supervisor at a given time, or `none` if it has nothing to do. -/
def move (l : BrokerLink) (backoff : Backoff) (now : Nat) (t : Traffic) (b : B) :
    Option (BrokerLink × Traffic × B) :=
  match l.supervisor with
  | .consuming =>
    match Connector.next l.session b with
    | (.delivery d, b) => some ({ l with supervisor := .acknowledging d.tag }, l.takeIn t d, b)
    | (.pending, _) => none
    | (_, b) =>
      let (l, b) := l.call now b 1
      some (l, t, b)
  | .acknowledging tag =>
    match Connector.acknowledge l.session tag b with
    | .ok b => some ({ l with supervisor := .consuming }, t, b)
    | .error _ =>
      let (l, b) := l.call now b 1
      some (l, t, b)
  | .calling number due result =>
    if due ≤ now then
      match result with
      | .ok session =>
        let (l, b) := l.replaceSession b session
        some (l, t, b)
      | .error _ =>
        match Search.afterFailure backoff number with
        | .waiting _ =>
          some ({ l with supervisor := .waiting number (Clock.due now (backoff.delayAfter number)) }, t, b)
        | _ =>
          let (l, b) := l.giveUp b
          some (l, t, b)
    else none
  | .waiting number due =>
    if due ≤ now then
      let (l, b) := l.call now b (number + 1)
      some (l, t, b)
    else none
  | .gaveUp => none
  | .stopped => none

theorem sent_takeIn (l : BrokerLink) (t : Traffic) (d : Broker.Delivery) :
    (l.takeIn t d).sent = t.sent := by
  unfold takeIn
  split <;> rfl

/-- A supervisor sends nothing. -/
theorem sent_of_move {l after : BrokerLink} {backoff : Backoff} {now : Nat} {t s : Traffic}
    {b c : B} (h : l.move backoff now t b = some (after, s, c)) : s.sent = t.sent := by
  unfold move at h
  split at h
  · split at h
    · cases h
      exact l.sent_takeIn t _
    · cases h
    · cases h
      rfl
  · split at h
    · cases h
      rfl
    · cases h
      rfl
  · split at h
    · split at h
      · cases h
        rfl
      · split at h
        · cases h
          rfl
        · cases h
          rfl
    · cases h
  · split at h
    · cases h
      rfl
    · cases h
  · cases h
  · cases h

/-- When the supervisor moves next if nothing else happens. -/
def due? (l : BrokerLink) : Option Nat :=
  match l.supervisor with
  | .calling _ due _ => some due
  | .waiting _ due => some due
  | _ => none

/-- The session that a payload is sent through. -/
def publishing (l : BrokerLink) : Except TransportError Nat :=
  match l.publisher with
  | some session => .ok session
  | none => .error (.brokerUnreachable "no broker connection")

def publish (l : BrokerLink) (b : B) (payload : Bytes) : Except TransportError B := do
  Connector.publish (← l.publishing) payload b

/-- Stops the supervisor, with all that it reads from, and closes the publisher, if there is one. -/
def close (l : BrokerLink) (b : B) : BrokerLink × B :=
  let b := match l.supervisor with
    | .calling _ _ (.ok session) => Connector.dropReader session b
    | _ => b
  let b := Connector.dropReader l.session b
  let b := match l.publisher with
    | some session => Connector.closePublisher session b
    | none => b
  ({ l with publisher := none, supervisor := .stopped }, b)

end BrokerLink

end EvictionBus
