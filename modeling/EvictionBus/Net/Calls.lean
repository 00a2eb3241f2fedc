import EvictionBus.Net.World

/-!
# Calls on nodes

What the calls on a transport do when it is their turn, and what they wait for.
-/

namespace EvictionBus.Net.World

/-! ## Starting -/

/-- A call to start ends with an error that the configuration does not explain. -/
def startFailed (w : World) (i call : Nat) (e : TransportError) : World :=
  match w.nodes[i]? with
  | none => w
  | some n =>
    (w.modifyLife i fun t => t.startFailed n.config.kind).finish i call (.error e)

def startDone (w : World) (i call : Nat) (link : Link) : World :=
  (w.modifyLife i fun t => t.started call link).finish i call (.ok ())

/-- Joins the group of a configuration. -/
def startMulticast (w : World) (i call : Nat) (n : Node) : World :=
  match Multicast.group n.config with
  | .error e => w.finish i call (.error e)
  | .ok group =>
    match bindObstacle? w.up (.ofIpv4 .unspecified group.port) with
    | some e => w.startFailed i call (.io e)
    | none =>
      if w.up then w.startDone i call (.multicast group)
      else w.startFailed i call (.io .noSuchDevice)

/-- Listens for the other members of a mesh. -/
def startMesh (w : World) (i call : Nat) (n : Node) : World :=
  match n.config.endpoint, n.config.peerEndpoints with
  | .error e, _ => w.finish i call (.error e)
  | _, .error e => w.finish i call (.error e)
  | .ok a, .ok peers =>
    match w.bind a.socketTarget with
    | .error e => w.startFailed i call (.io e)
    | .ok () => w.startDone i call (.mesh (.ofPeers peers) [])

/-- Connects to a relay that answers, and greets it. -/
def greetRelay (w : World) (i call : Nat) (n : Node) (target : String) (deadline : Nat) : World :=
  match w.connect target with
  | .error e => w.startFailed i call (RelayClient.connectFailed target e)
  | .ok (connection, w) =>
    match RelayClient.hello n.codec n.config.relayAlias with
    | .error e => (w.abandon connection .dialer).startFailed i call e
    | .ok frame =>
      match w.write connection .dialer frame with
      | .error e => (w.abandon connection .dialer).startFailed i call (RelayClient.helloFailed e)
      | .ok (_, w) => w.wait i call (.greeting target connection [] deadline)

/-- Dials a relay. There is one deadline for its answer and for its welcome. -/
def startRelay (w : World) (i call : Nat) (n : Node) : World :=
  match n.config.endpoint with
  | .error e => w.finish i call (.error e)
  | .ok a =>
    let deadline := Clock.due w.now n.config.handshakeTimeout
    if w.hangs a.socketTarget then w.wait i call (.dialing a.socketTarget deadline)
    else w.greetRelay i call n a.socketTarget deadline

/-- Why a broker on the network cannot be reached. -/
def remoteBrokerError (w : World) (c : TransportConfig) : TransportError :=
  match c.endpoint with
  | .error e => e
  | .ok a =>
    match w.connect a.socketTarget with
    | .error e => .brokerUnreachable s!"IO error: {e.message}"
    | .ok _ => .brokerUnreachable "connection aborted"

def startBroker (w : World) (i call : Nat) (n : Node) : World :=
  if w.broker.isRemote then w.startFailed i call (w.remoteBrokerError n.config) else
  let (takes, result, broker) := w.broker.connect w.now n.binding
  { w with broker := broker }.wait i call (.connecting n.binding (Clock.due w.now takes) result)

def start (w : World) (i call : Nat) (n : Node) : World :=
  match n.life.mayStart with
  | .error e => w.finish i call (.error e)
  | .ok () =>
    match n.config.kind with
    | .multicast => w.startMulticast i call n
    | .reliableMulticast => w.startMesh i call n
    | .relay => w.startRelay i call n
    | .broker => w.startBroker i call n

/-! ## Sending -/

def sendDone (w : World) (i call : Nat) : World :=
  (w.modifyLife i Lifecycle.countSent).finish i call (.ok ())

def sendFailed (w : World) (i call : Nat) (e : TransportError) : World :=
  match w.nodes[i]? with
  | none => w
  | some n =>
    (w.modifyLife i fun t => t.sendFailed n.config.kind).finish i call (.error e)

/-- Hands a datagram to the members of a group. -/
def castDatagram (w : World) (toPort : Nat) (bytes : Bytes) : World :=
  { w with nodes := w.nodes.map fun n => n.takeDatagram toPort bytes }

/-- Starts to write a frame to one member of a mesh. -/
def writePeer (w : World) (n : Node) (frame : Bytes) (connection : Nat) : World × PeerWrite :=
  match w.write connection .dialer frame with
  | .error e => (w.abandon connection .dialer, .done (.broken (.writeFailed e)))
  | .ok ([], w) => (w, .done (.written connection))
  | .ok (rest, w) => (w, .writing connection rest (Clock.due w.now n.config.sendTimeout))

/-- Starts to write a frame to one member of a mesh that answers, on a new connection. -/
def linkPeer (w : World) (n : Node) (frame : Bytes) (target : String) : World × PeerWrite :=
  match w.connect target with
  | .error e => (w, .done (.broken (MeshLinks.connectFailed target e)))
  | .ok (connection, w) => w.writePeer n frame connection

/-- Starts to write a frame to one member of a mesh, which is dialled if no connection is kept. -/
def startPeerWrite (w : World) (n : Node) (frame : Bytes) (target : String)
    (kept : Option Nat) : World × PeerWrite :=
  match kept with
  | some connection => w.writePeer n frame connection
  | none =>
    if w.hangs target then (w, .dialing frame (Clock.due w.now n.config.handshakeTimeout))
    else w.linkPeer n frame target

/-- Starts to write a frame to members of a mesh, one after another. -/
def startPeerWrites (w : World) (n : Node) (frame : Bytes) :
    List (String × Option Nat) → World × List (String × PeerWrite)
  | [] => (w, [])
  | (target, kept) :: plan =>
    let (w, write) := w.startPeerWrite n frame target kept
    let (w, writes) := w.startPeerWrites n frame plan
    (w, (target, write) :: writes)

def abandonUnless (w : World) (kept : List Nat) (connections : List Nat) : World :=
  (connections.filter (· ∉ kept)).foldl (fun w connection => w.abandon connection .dialer) w

/-- Ends a call to send to a mesh: every write has come to an end. -/
def meshDone (w : World) (i call : Nat) (outcomes : List (String × MeshLinks.Outcome)) : World :=
  match (w.nodes[i]?).bind fun n => n.life.link with
  | some (.mesh links _) =>
    let (after, result) := links.sent outcomes
    let used := links.kept.map Prod.snd ++ outcomes.filterMap fun
      | (_, .written connection) => some connection
      | _ => none
    let w := w.abandonUnless (after.kept.map Prod.snd) used
    let w := w.modifyLife i fun t => t.modifyLink fun l => l.withLinks after
    match result with
    | .ok () => w.sendDone i call
    | .error e => w.sendFailed i call e
  | _ => w

/-- The outcomes of writes that have all come to an end. -/
def outcomes? : List (String × PeerWrite) → Option (List (String × MeshLinks.Outcome))
  | [] => some []
  | (target, .done outcome) :: rest => (outcomes? rest).map ((target, outcome) :: ·)
  | (_, .dialing ..) :: _ => none
  | (_, .writing ..) :: _ => none

/-- Goes on with a call to send to a mesh, or ends it. -/
def meshWrites (w : World) (i call : Nat) (writes : List (String × PeerWrite)) : World :=
  match outcomes? writes with
  | some outcomes => w.meshDone i call outcomes
  | none => w.wait i call (.spreading writes)

def send (w : World) (i call : Nat) (n : Node) (payload : Bytes) : World :=
  match n.life.active with
  | .error e => w.finish i call (.error e)
  | .ok (.multicast group) =>
    match Multicast.datagram n.codec payload with
    | .error e => w.sendFailed i call e
    | .ok bytes =>
      if w.up then (w.castDatagram group.port bytes).sendDone i call
      else w.sendFailed i call (.writeFailed .networkUnreachable)
  | .ok (.mesh links _) =>
    match (n.codec.encode .evict payload).mapError TransportError.ofFrame with
    | .error e => w.finish i call (.error e)
    | .ok frame =>
      let (w, writes) := w.startPeerWrites n frame links.plan
      w.meshWrites i call writes
  | .ok (.relay connection _) =>
    match (n.codec.encode .evict payload).mapError TransportError.ofFrame with
    | .error e => w.finish i call (.error e)
    | .ok frame =>
      match w.write connection .dialer frame with
      | .error e => w.sendFailed i call (.writeFailed e)
      | .ok ([], w) => w.sendDone i call
      | .ok (rest, w) =>
        w.wait i call (.writing connection rest (Clock.due w.now n.config.sendTimeout))
  | .ok (.broker link) =>
    match link.publish w.broker payload with
    | .error e => w.sendFailed i call e
    | .ok broker => { w with broker := broker }.sendDone i call

/-! ## Closing -/

def release (w : World) : Link → World
  | .multicast _ => w
  | .mesh links inflows =>
    let w := w.abandonUnless [] (links.kept.map Prod.snd)
    inflows.foldl (fun w inflow => w.abandon inflow.connection .acceptor) w
  | .relay connection _ => w.abandon connection .dialer
  | .broker link => { w with broker := (link.close w.broker).2 }

/-- Closes a transport that has been marked as closed. -/
def close (w : World) (i call : Nat) (n : Node) : World :=
  let w := match n.life.link with
    | some link => w.release link
    | none => w
  (w.modifyLife i Lifecycle.released).finish i call (.ok ())

/-! ## Turns -/

def perform (w : World) (i call : Nat) (request : Request) : World :=
  match w.nodes[i]? with
  | none => w
  | some n =>
    match request with
    | .start => w.start i call n
    | .send payload => w.send i call n payload
    | .close => w.close i call n

/-- A write that has not come to an end is stopped, and its connection is closed if it has one. -/
def stopPeerWrites (w : World) : List (String × PeerWrite) → World × List (String × PeerWrite)
  | [] => (w, [])
  | (target, write) :: rest =>
    let (w, rest) := w.stopPeerWrites rest
    match write with
    | .dialing .. => (w, (target, .done .stopped) :: rest)
    | .writing connection .. => (w.abandon connection .dialer, (target, .done .stopped) :: rest)
    | .done outcome => (w, (target, .done outcome) :: rest)

def stopWrites (w : World) (i : Nat) : World :=
  match (w.nodes[i]?).bind Node.current with
  | some (call, .writing ..) => w.sendFailed i call .closed
  | some (call, .spreading writes) =>
    let (w, writes) := w.stopPeerWrites writes
    w.meshWrites i call writes
  | _ => w

def enqueue (w : World) (i call : Nat) (request : Request) : World :=
  w.modifyNode i fun n => { n with queue := n.queue ++ [(call, request)] }

/-- Takes the next call out of the queue. -/
def dequeue (w : World) (i : Nat) : World :=
  w.modifyNode i fun n => { n with queue := n.queue.tail }

/-- Makes a call on a node. A payload that is too long is refused at once. -/
def call (w : World) (i call : Nat) (request : Request) : World :=
  match w.nodes[i]? with
  | none => w
  | some n =>
    let go (w : World) : World :=
      if n.isBusy then w.enqueue i call request else w.perform i call request
    match request with
    | .start => go w
    | .send payload =>
      match Lifecycle.checkPayload n.config.reportedMaxMessageSize payload.length with
      | .error e => { w with returned := w.returned ++ [(call, .error e)] }
      | .ok () => go w
    | .close => go ((w.modifyLife i Lifecycle.markClosed).stopWrites i)

end EvictionBus.Net.World
