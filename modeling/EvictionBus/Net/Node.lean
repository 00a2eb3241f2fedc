import EvictionBus.Frame.Stream
import EvictionBus.Transport.BrokerLink
import EvictionBus.Transport.Config
import EvictionBus.Transport.Lifecycle
import EvictionBus.Transport.Mesh
import EvictionBus.Transport.Multicast
import EvictionBus.Transport.RelayClient

/-!
# Nodes

A node owns one transport. Calls on it take turns: a call that has to wait, for a connection or for
room in a stream, holds up the calls after it. Closing is noticed at once, also by the call that is
being held up.
-/

namespace EvictionBus.Net

/-- A call on a transport. -/
inductive Request where
  | start
  | send (payload : Bytes)
  | close
  deriving DecidableEq, Repr

/-- A stream from another member of a mesh, and the reader of its frames. -/
structure Inflow where
  connection : Nat
  reader : FrameReader
  deriving DecidableEq

inductive Link where
  | multicast (group : Multicast.Group)
  | mesh (links : MeshLinks) (inflows : List Inflow)
  | relay (connection : Nat) (reader : FrameReader)
  | broker (link : BrokerLink)

namespace Link

/-- Changes the streams from other members of a mesh. -/
def modifyInflows (f : List Inflow → List Inflow) : Link → Link
  | .mesh links inflows => .mesh links (f inflows)
  | link => link

/-- Changes the outgoing side of a member of a mesh. -/
def withLinks (links : MeshLinks) : Link → Link
  | .mesh _ inflows => .mesh links inflows
  | link => link

end Link

/-- How far a frame to one member of a mesh has come. -/
inductive PeerWrite where
  | done (outcome : MeshLinks.Outcome)
  /-- The member has not answered yet. It is dialled up to a time, and then gets the frame. -/
  | dialing (frame : Bytes) (deadline : Nat)
  /-- These bytes have still to be written, up to a time. -/
  | writing (connection : Nat) (rest : Bytes) (deadline : Nat)
  deriving DecidableEq, Repr

/-- What the call whose turn it is waits for. -/
inductive Work where
  /-- The broker's answer comes at the given time. -/
  | connecting (binding : Broker.Binding) (due : Nat) (result : Except TransportError Nat)
  /-- An answer to the dial of the relay, up to a time by which it has to be greeted as well. -/
  | dialing (target : String) (deadline : Nat)
  /-- The relay's welcome, up to a time. -/
  | greeting (target : String) (connection : Nat) (received : Bytes) (deadline : Nat)
  /-- Room in the stream to the relay for these bytes, up to a time. -/
  | writing (connection : Nat) (rest : Bytes) (deadline : Nat)
  /-- Room in the streams to the members of a mesh. -/
  | spreading (writes : List (String × PeerWrite))

/-- The times at which a call that waits goes on if nothing else happens. -/
def Work.dueTimes : Work → List Nat
  | .connecting _ due _ => [due]
  | .dialing _ deadline => [deadline]
  | .greeting _ _ _ deadline => [deadline]
  | .writing _ _ deadline => [deadline]
  | .spreading writes => writes.filterMap fun
    | (_, .writing _ _ deadline) => some deadline
    | (_, .dialing _ deadline) => some deadline
    | (_, .done _) => none

/-- A node. Calls are known by numbers. -/
structure Node where
  config : TransportConfig
  codec : Codec
  life : Lifecycle Link
  /-- The call whose turn it is, and what it waits for. -/
  current : Option (Nat × Work)
  /-- The calls that wait for their turn. -/
  queue : List (Nat × Request)

namespace Node

def ofConfig (config : TransportConfig) (me : Identity) : Node where
  config := config
  codec := (Codec.ofIdentity me).withLimit (config.effectiveMaxMessageSize.getD maxPayload)
  life := .fresh
  current := none
  queue := []

def binding (n : Node) : Broker.Binding :=
  ⟨n.config.exchangeName, n.codec.identity.text, n.config.prefetch⟩

/-- Takes in a datagram for a port, if the node is a member of a group on that port. -/
def takeDatagram (n : Node) (port : Nat) (bytes : Bytes) : Node :=
  match n.life.link with
  | some (.multicast group) =>
    -- A closed node still has its link when its socket has failed.
    if group.port = port ∧ ¬ n.life.closed then
      { n with life := n.life.modifyTraffic fun t => Multicast.receive n.codec t bytes }
    else n
  | _ => n

/-- Whether a call would have to wait for its turn. -/
def isBusy (n : Node) : Bool :=
  n.current.isSome || !n.queue.isEmpty

theorem isBusy_eq_false (n : Node) : n.isBusy = false ↔ n.current = none ∧ n.queue = [] := by
  simp [isBusy]

/-- The times at which something happens to a node if nothing else does. -/
def dueTimes (n : Node) : List Nat :=
  let work := match n.current with
    | some (_, work) => work.dueTimes
    | none => []
  let link := match n.life.link with
    | some (.broker l) => l.due?.toList
    | _ => []
  work ++ link

end Node

end EvictionBus.Net
