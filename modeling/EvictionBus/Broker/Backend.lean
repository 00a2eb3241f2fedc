import EvictionBus.Broker.Memory
import EvictionBus.Broker.Script

/-!
# Brokers

What a node may ask of any broker, and the brokers that there are.
-/

namespace EvictionBus.Broker

/-- What a node may ask of a broker of the type `B`. Sessions are known by numbers. -/
class Connector (B : Type) where
  /-- A call to connect at a given time: how long it takes, and the number of the session or the
  error. -/
  connect (now : Nat) (binding : Binding) : B → Nat × Except TransportError Nat × B
  next (session : Nat) : B → Next × B
  acknowledge (session tag : Nat) : B → Except TransportError B
  publish (session : Nat) (payload : Bytes) : B → Except TransportError B
  closePublisher (session : Nat) : B → B
  /-- The reader of a session goes away. -/
  dropReader (session : Nat) : B → B

/-- A broker. -/
inductive Backend where
  | memory (b : Memory)
  | script (b : Script)
  /-- A broker somewhere on the network, which cannot be reached. -/
  | remote

namespace Backend

/-- Whether the broker is somewhere on the network. -/
def isRemote : Backend → Bool
  | .remote => true
  | _ => false

/-- Why a broker on the network cannot be used. -/
def unreachable : TransportError :=
  .brokerUnreachable "no broker connection"

def connect (now : Nat) (binding : Binding) : Backend → Nat × Except TransportError Nat × Backend
  | .memory b =>
    match b.connect binding with
    | .ok (session, b) => (0, .ok session, .memory b)
    | .error e => (0, .error e, .memory b)
  | .script b =>
    let (takes, result, b) := b.connect now binding
    (takes, result, .script b)
  | .remote => (0, .error unreachable, .remote)

def next (session : Nat) : Backend → Next × Backend
  | .memory b =>
    match b.next session with
    | some (n, b) => (n, .memory b)
    | none => (.ended, .memory b)
  | .script b =>
    let (n, b) := b.next session
    (n, .script b)
  | .remote => (.ended, .remote)

def acknowledge (session tag : Nat) : Backend → Except TransportError Backend
  | .memory b =>
    match b.acknowledge session with
    | some r => r.map .memory
    | none => .ok (.memory b)
  | .script b => (b.acknowledge session tag).map .script
  | .remote => .error unreachable

def publish (session : Nat) (payload : Bytes) : Backend → Except TransportError Backend
  | .memory b =>
    match b.publish session payload with
    | some r => r.map .memory
    | none => .ok (.memory b)
  | .script b => (b.publish session payload).map .script
  | .remote => .error unreachable

def closePublisher (_session : Nat) : Backend → Backend
  | .memory b => .memory b
  | .script b => .script b.closePublisher
  | .remote => .remote

def dropReader (session : Nat) : Backend → Backend
  | .memory b => .memory (b.dropReader session)
  | .script b => .script b
  | .remote => .remote

instance : Connector Backend where
  connect := connect
  next := next
  acknowledge := acknowledge
  publish := publish
  closePublisher := closePublisher
  dropReader := dropReader

end Backend

end EvictionBus.Broker
