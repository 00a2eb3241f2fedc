import EvictionBus.KeyTable
import EvictionBus.Net.Node
import EvictionBus.Net.Reach
import EvictionBus.Net.Stream
import EvictionBus.Relay.Server

/-!
# A network of nodes

Nodes, a relay, a broker and connections from outside, on one machine with a virtual clock. The
network of the machine is up or down: while it is down sockets can be bound, but nothing can be
dialled. While it is up a dial is answered or refused at once, unless the address is silent: then it
hangs until the address is silent no more.
-/

namespace EvictionBus.Net

/-- A relay's end of a connection to a peer. -/
structure PeerEnd where
  connection : Nat
  /-- What is left of the frame that is being written. -/
  writing : Bytes
  /-- Whether the relay still holds the connection. -/
  held : Bool
  deriving DecidableEq

/-- A relay that serves at an address. -/
structure RelayHost where
  address : SocketAddress
  state : Relay.State
  /-- The connections, by the keys of the peers. -/
  ends : KeyTable PeerEnd

/-- A connection that is held from outside. -/
structure Outside where
  name : String
  connection : Nat
  side : Side
  /-- Whether nothing is read for the time being. -/
  paused : Bool
  /-- Whether the connection is still held. -/
  held : Bool
  /-- The bytes read that are not yet a whole frame. -/
  pending : Bytes
  frames : List Frame
  /-- Whether the far end has been seen to close. -/
  ended : Bool
  deriving DecidableEq

inductive Listener where
  | relay
  | outside
  | node (index : Nat)
  deriving DecidableEq, Repr

/-- Everything on the machine. -/
structure World where
  /-- The time in milliseconds. -/
  now : Nat
  /-- Whether the network is up. -/
  up : Bool
  /-- The addresses at which dials are neither answered nor refused for the time being. How a
  broker's connection is dialled is not looked into. -/
  silent : List SocketAddress
  streams : KeyTable Stream
  lastConnection : Nat
  nodes : List Node
  relay : Option RelayHost
  /-- The address at which connections are accepted from nodes and held outside, if there is one. -/
  outsideAddress : Option SocketAddress
  outside : List Outside
  broker : Broker.Backend
  /-- The calls that have returned, with their results. -/
  returned : List (Nat × Except TransportError Unit)

namespace World

def modifyNode (w : World) (i : Nat) (f : Node → Node) : World :=
  { w with nodes := w.nodes.modify i f }

def modifyLife (w : World) (i : Nat) (f : Lifecycle Link → Lifecycle Link) : World :=
  w.modifyNode i fun n => { n with life := f n.life }

/-- Lets a call return; it is the next call's turn. -/
def finish (w : World) (i call : Nat) (result : Except TransportError Unit) : World :=
  { w.modifyNode i (fun n => { n with current := none }) with
    returned := w.returned ++ [(call, result)] }

def wait (w : World) (i call : Nat) (work : Work) : World :=
  w.modifyNode i fun n => { n with current := some (call, work) }

/-! ## Streams -/

def incoming (w : World) (connection : Nat) (side : Side) : Pipe :=
  ((w.streams.get? connection).getD .empty).pipe side.other

def modifyStream (w : World) (connection : Nat) (f : Stream → Stream) : World :=
  { w with streams := w.streams.modify connection f }

/-- A side writes as much as there is room for; gives the rest. -/
def write (w : World) (connection : Nat) (side : Side) (bytes : Bytes) :
    Except IoError (Bytes × World) := do
  let s := (w.streams.get? connection).getD .empty
  let (rest, p) ← (s.pipe side).write bytes
  return (rest, w.modifyStream connection fun s => s.setPipe p side)

/-- A side reads at most `n` bytes. -/
def read (w : World) (connection : Nat) (side : Side) (n : Nat) : Bytes × World :=
  let (bytes, p) := (w.incoming connection side).read n
  (bytes, w.modifyStream connection fun s => s.setPipe p side.other)

def readAll (w : World) (connection : Nat) (side : Side) : Bytes × World :=
  w.read connection side (w.incoming connection side).unread.length

def finishWriting (w : World) (connection : Nat) (side : Side) : World :=
  w.modifyStream connection fun s => s.finish side

def abandon (w : World) (connection : Nat) (side : Side) : World :=
  w.modifyStream connection fun s => s.abandon side

/-! ## Addresses -/

/-- Where a member of a mesh listens. It stops when it is closed, also by a failure. -/
def nodeAddress? (n : Node) : Option SocketAddress :=
  match n.life.link, n.config.endpoint with
  | some (.mesh ..), .ok a => if n.life.closed then none else (resolve a.socketTarget).toOption
  | _, _ => none

def listeners (w : World) : List (SocketAddress × Listener) :=
  let relay := (w.relay.filter fun r => !r.state.stopping).map fun r => (r.address, Listener.relay)
  let outside := w.outsideAddress.map fun a => (a, Listener.outside)
  let nodes := w.nodes.zipIdx.filterMap fun (n, i) => (nodeAddress? n).map fun a => (a, .node i)
  relay.toList ++ outside.toList ++ nodes

def listenerAt? (w : World) (a : SocketAddress) : Option Listener :=
  (w.listeners.find? fun l => l.1.answers a).map Prod.snd

/-- Whether a socket can be bound to an address. -/
def bind (w : World) (target : String) : Except IoError Unit := do
  let a ← resolve target
  if let some e := bindObstacle? w.up a then throw e
  if w.listeners.any fun l => l.1.collides a then throw .addressInUse

/-! ## Connections -/

def dialerAddress (connection : Nat) : SocketAddress :=
  .ofIpv4 .loopback (40000 + connection)

/-- Adds a connection. -/
def newStream (w : World) : Nat × World :=
  let connection := w.lastConnection + 1
  (connection, { w with
    lastConnection := connection
    streams := w.streams.insert connection .empty })

def accept (w : World) (connection : Nat) : Listener → World
  | .relay =>
    match w.relay with
    | none => w
    | some r =>
      let (key, state) := r.state.accept (dialerAddress connection).text
      { w with relay := some { r with
          state := state
          ends := r.ends.insert key ⟨connection, [], true⟩ } }
  | .outside =>
    let accepted := w.outside.filter fun o => o.side = .acceptor
    let name := s!"f{accepted.length}"
    { w with outside := w.outside ++ [⟨name, connection, .acceptor, false, true, [], [], false⟩] }
  | .node i =>
    w.modifyLife i fun t => t.modifyLink fun l =>
      l.modifyInflows fun inflows => inflows ++ [⟨connection, .start⟩]

/-- Whether a dial is neither answered nor refused. -/
def hangs (w : World) (target : String) : Bool :=
  match resolve target with
  | .ok a => (dialObstacle? w.up a).isNone && w.silent.any fun s => s.answers a
  | .error _ => false

def connect (w : World) (target : String) : Except IoError (Nat × World) := do
  let a ← resolve target
  if let some e := dialObstacle? w.up a then throw e
  match w.listenerAt? a with
  | none => throw .connectionRefused
  | some listener =>
    let (connection, w) := w.newStream
    return (connection, w.accept connection listener)

end World

end EvictionBus.Net
