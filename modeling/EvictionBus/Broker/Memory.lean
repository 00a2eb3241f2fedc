import EvictionBus.Broker.Session

/-!
# A broker in memory

A broker with fanout exchanges. Every session has a queue of its own, bound to the session's
exchange when it connects. Going offline ends all sessions: their queues are unbound, and what they
do later fails, also when the broker is back. What is in a queue can still be read.

A queue whose reader is gone stays bound until the next message for it, or the next session on its
exchange; the message uses up a tag.
-/

namespace EvictionBus.Broker

/-- One session, from the broker's side. -/
structure Session where
  binding : Binding
  generation : Nat
  queue : List Delivery
  /-- Whether the queue is bound to the exchange. -/
  bound : Bool
  /-- Whether the reader of the queue is still there. -/
  reading : Bool
  deriving DecidableEq, Repr

/-- A broker and all sessions that it has had, in the order in which they connected. -/
structure Memory where
  reachable : Bool
  /-- The number of times the broker has gone offline. -/
  generation : Nat
  sessions : List Session
  lastTag : Nat
  published : Nat
  acknowledged : Nat
  deriving DecidableEq, Repr

namespace Memory

def start : Memory := ⟨true, 0, [], 0, 0, 0⟩

/-- Why a session cannot be used. -/
def check (b : Memory) (s : Session) : Except TransportError Unit :=
  if ¬ b.reachable then .error (.brokerUnreachable "broker is offline")
  else if s.generation ≠ b.generation then .error (.brokerUnreachable "connection was reset")
  else .ok ()

/-- Takes the broker offline or brings it back. -/
def setReachable (b : Memory) (reachable : Bool) : Memory :=
  if b.reachable ∧ ¬ reachable then
    { b with
      reachable := false
      generation := b.generation + 1
      sessions := b.sessions.map fun s => { s with bound := false } }
  else { b with reachable := reachable }

/-- Unbinds the queues of an exchange whose readers are gone. -/
def prune (exchange : String) (s : Session) : Session :=
  if s.binding.exchange = exchange ∧ ¬ s.reading then { s with bound := false } else s

/-- Opens a session and gives its number. -/
def connect (b : Memory) (binding : Binding) : Except TransportError (Nat × Memory) :=
  if b.reachable then
    let session : Session := ⟨binding, b.generation, [], true, true⟩
    .ok (b.sessions.length, { b with
      sessions := b.sessions.map (prune binding.exchange) ++ [session] })
  else .error (.brokerUnreachable "connection refused")

/-- Hands a message to the queues bound to its exchange, each under a tag of its own; the first tag
is `tag + 1`. Gives the last tag. -/
def distribute (sender : Binding) (payload : Bytes) : Nat → List Session → Nat × List Session
  | tag, [] => (tag, [])
  | tag, s :: ss =>
    if s.bound ∧ s.binding.exchange = sender.exchange then
      let d : Delivery := ⟨tag + 1, sender.routingKey, payload⟩
      -- A queue without a reader is noticed by the message that cannot be delivered.
      let s := if s.reading then { s with queue := s.queue ++ [d] } else { s with bound := false }
      let (last, ss) := distribute sender payload (tag + 1) ss
      (last, s :: ss)
    else
      let (last, ss) := distribute sender payload tag ss
      (last, s :: ss)

def publish (b : Memory) (session : Nat) (payload : Bytes) :
    Option (Except TransportError Memory) :=
  b.sessions[session]?.map fun s => do
    b.check s
    let (tag, sessions) := distribute s.binding payload b.lastTag b.sessions
    return { b with sessions := sessions, lastTag := tag, published := b.published + 1 }

def modify (b : Memory) (session : Nat) (f : Session → Session) : Memory :=
  { b with sessions := b.sessions.modify session f }

/-- A session reads its next delivery; `none` if its reader is gone. -/
def next (b : Memory) (session : Nat) : Option (Next × Memory) := do
  let s ← b.sessions[session]?
  if s.reading then
    match s.queue with
    | d :: rest => some (.delivery d, b.modify session fun s => { s with queue := rest })
    | [] => some (if s.bound then .pending else .ended, b)
  else none

/-- A session acknowledges a delivery; `none` if its reader is gone. -/
def acknowledge (b : Memory) (session : Nat) : Option (Except TransportError Memory) := do
  let s ← b.sessions[session]?
  if s.reading then
    some ((b.check s).map fun _ => { b with acknowledged := b.acknowledged + 1 })
  else none

def hasReader (b : Memory) (session : Nat) : Bool :=
  (b.sessions[session]?).any Session.reading

/-- The reader of a session goes away, with what is in its queue. -/
def dropReader (b : Memory) (session : Nat) : Memory :=
  b.modify session fun s => { s with queue := [], reading := false }

/-- The number of queues bound to an exchange whose readers are there. -/
def consumerCount (b : Memory) (exchange : String) : Nat :=
  (b.sessions.filter fun s => s.bound && s.reading && s.binding.exchange = exchange).length

end Memory

end EvictionBus.Broker
