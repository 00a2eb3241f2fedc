import EvictionBus.Broker.Session

/-!
# A scripted broker

A broker whose sessions are written down in advance: how long connecting takes and whether it is
refused, which messages are delivered and which acknowledgements fail, and how the stream ends. It
records what is asked of it.
-/

namespace EvictionBus.Broker

/-- How the deliveries of a scripted session end. -/
inductive StreamEnd where
  | ended
  | failed
  /-- Nothing more comes. -/
  | hangs
  deriving DecidableEq, Repr

/-- A delivery of a scripted session; no routing key stands for the reader's own. -/
structure ScriptedDelivery where
  routingKey : Option String
  payload : Bytes
  acknowledgeable : Bool
  deriving DecidableEq, Repr

structure ScriptedSession where
  /-- How long connecting takes, in milliseconds. -/
  takes : Nat
  refusal : Option String
  deliveries : List ScriptedDelivery
  streamEnd : StreamEnd
  publishError : Option String
  deriving DecidableEq, Repr

/-- A session in use: its script, the reader's routing key and the number of deliveries taken. -/
structure OpenSession where
  script : ScriptedSession
  routingKey : String
  taken : Nat
  deriving DecidableEq, Repr

structure Script where
  /-- The sessions for the calls to come. -/
  upcoming : List ScriptedSession
  opened : List OpenSession
  /-- The time, exchange and prefetch of each call so far. -/
  connects : List (Nat × String × Nat)
  published : List Bytes
  acknowledged : List Nat
  /-- The number of publishers that have been closed. -/
  closed : Nat
  deriving DecidableEq, Repr

namespace Script

def ofSessions (sessions : List ScriptedSession) : Script :=
  ⟨sessions, [], [], [], [], 0⟩

/-- A call to connect: how long it will take, and the number of the session or the error. -/
def connect (b : Script) (now : Nat) (binding : Binding) :
    Nat × Except TransportError Nat × Script :=
  let b := { b with connects := b.connects ++ [(now, binding.exchange, binding.prefetch)] }
  match b.upcoming with
  | [] => (0, .error (.brokerUnreachable "no more sessions"), b)
  | s :: rest =>
    let b := { b with upcoming := rest }
    match s.refusal with
    | some reason => (s.takes, .error (.brokerUnreachable reason), b)
    | none =>
      (s.takes, .ok b.opened.length, { b with
        opened := b.opened ++ [⟨s, binding.routingKey, 0⟩] })

/-- A session reads its next delivery. Deliveries are tagged from one. -/
def next (b : Script) (session : Nat) : Next × Script :=
  match b.opened[session]? with
  | none => (.ended, b)
  | some s =>
    match s.script.deliveries[s.taken]? with
    | some d =>
      (.delivery ⟨s.taken + 1, d.routingKey.getD s.routingKey, d.payload⟩, { b with
        opened := b.opened.set session { s with taken := s.taken + 1 } })
    | none =>
      match s.script.streamEnd with
      | .ended => (.ended, b)
      | .failed => (.failed (.brokerUnreachable "stream failed"), b)
      | .hangs => (.pending, b)

def acknowledge (b : Script) (session tag : Nat) : Except TransportError Script :=
  let delivery := b.opened[session]?.bind fun s => s.script.deliveries[tag - 1]?
  match delivery with
  | some d =>
    if d.acknowledgeable then .ok { b with acknowledged := b.acknowledged ++ [tag] }
    else .error (.brokerUnreachable "acknowledgement failed")
  | none => .error (.brokerUnreachable "acknowledgement failed")

def publish (b : Script) (session : Nat) (payload : Bytes) : Except TransportError Script :=
  match b.opened[session]?.bind fun s => s.script.publishError with
  | some reason => .error (.communicationBroken reason)
  | none => .ok { b with published := b.published ++ [payload] }

def closePublisher (b : Script) : Script :=
  { b with closed := b.closed + 1 }

end Script

end EvictionBus.Broker
