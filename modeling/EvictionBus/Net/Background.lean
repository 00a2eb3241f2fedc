import EvictionBus.Net.Calls

/-!
# What happens by itself

Every part of a world makes a move when it has something to do: bytes are read and written, frames
are taken in, timers go off and calls get their turn. A move is `none` when there is nothing to do.
-/

namespace EvictionBus.Net.World

/-! ## Connections held from outside -/

/-- The codec of the outside, which has no limit of its own. -/
def outsideCodec (w : World) : Codec :=
  match w.nodes[0]? with
  | some n => .ofIdentity n.codec.identity
  | none => .ofIdentity ⟨List.replicate 16 0, List.length_replicate⟩

def Outside.takeIn (c : Codec) (o : Outside) (bytes : Bytes) : Outside :=
  match c.drain (o.pending ++ bytes) with
  | (frames, .ok rest) => { o with pending := rest, frames := o.frames ++ frames }
  | (frames, .error _) => { o with frames := o.frames ++ frames }

/-- Reads what is there for a connection held from outside. -/
def moveOutside (w : World) (i : Nat) : Option World := do
  let o ← w.outside[i]?
  if o.paused ∨ ¬ o.held then none
  let p := w.incoming o.connection o.side
  if p.unread ≠ [] then
    let (bytes, w) := w.readAll o.connection o.side
    return { w with
      outside := w.outside.modify i fun o => Outside.takeIn w.outsideCodec o bytes }
  else if p.atEnd ∧ ¬ o.ended then
    return { w with outside := w.outside.modify i fun o => { o with ended := true } }
  else none

/-! ## The relay -/

/-- The relay reads from a peer, or notices that a payload is late. -/
def moveRelayReader (w : World) (r : RelayHost) (key : Nat) (e : PeerEnd) : Option World := do
  let c ← r.state.reading? key
  let p := w.incoming e.connection .acceptor
  if p.unread ≠ [] then
    let (bytes, w) := w.readAll e.connection .acceptor
    return { w with relay := some { r with state := r.state.receive w.now key bytes } }
  else if p.atEnd then
    return { w with relay := some { r with state := r.state.inputEnded key } }
  -- Bytes that are there at the deadline still count.
  else if (c.input.late? r.state.readRules w.now).isSome then
    return { w with relay := some { r with state := r.state.checkDeadline w.now key } }
  else none

/-- The relay writes to a peer, or lets go of a connection that has been told to stop. -/
def moveRelayWriter (w : World) (r : RelayHost) (key : Nat) (e : PeerEnd) : Option World := do
  if ¬ e.held then none
  let c ← r.state.connections.get? key
  let setEnd (w : World) (state : Relay.State) (e : PeerEnd) : World :=
    { w with relay := some { r with state := state, ends := r.ends.insert key e } }
  if c.cancelled then
    let w := w.abandon e.connection .acceptor
    return setEnd w (r.state.dropQueue key).2 { e with held := false }
  else if e.writing ≠ [] then
    match w.write e.connection .acceptor e.writing with
    | .error err => return setEnd w (r.state.outputFailed key err) e
    | .ok (rest, w) =>
      if rest.length < e.writing.length then return setEnd w r.state { e with writing := rest }
      else none
  else
    match r.state.takeOutbound key with
    | (some (.frame bytes), state) => return setEnd w state { e with writing := bytes }
    | _ => none

def moveRelay (w : World) : Option World := do
  let r ← w.relay
  r.ends.entries.findSome? fun (key, e) =>
    w.moveRelayReader r key e <|> w.moveRelayWriter r key e

/-! ## Links of nodes -/

def takeItems (w : World) (i : Nat) (items : List FrameItem) : World :=
  w.modifyLife i fun t => t.modifyTraffic fun traffic => traffic.receiveItems items

/-- What a reader does with what is there, or `none` if there is nothing. -/
def moveReader (w : World) (c : Codec) (connection : Nat) (side : Side) (r : FrameReader) :
    Option (World × FrameReader × List FrameItem) :=
  let p := w.incoming connection side
  if r = .stopped then none
  else if p.unread ≠ [] then
    let (bytes, w) := w.readAll connection side
    let (r, items) := r.feed c bytes
    some (w, r, items)
  else if p.atEnd then
    let (r, items) := r.finish c
    some (w, r, items)
  else none

def modifyInflows (w : World) (i : Nat) (f : List Inflow → List Inflow) : World :=
  w.modifyLife i fun t => t.modifyLink fun l => l.modifyInflows f

/-- A member of a mesh closes a stream from another one. -/
def dropInflow (w : World) (i connection : Nat) : World :=
  (w.abandon connection .acceptor).modifyInflows i fun fs =>
    fs.filter fun f => f.connection ≠ connection

/-- A member of a mesh reads from another one. A stream that has ended or failed is closed. -/
def moveInflow (w : World) (i : Nat) (n : Node) (inflow : Inflow) : Option World := do
  let (w, reader, items) ← w.moveReader n.codec inflow.connection .acceptor inflow.reader
  let w := w.takeItems i items
  if reader = .stopped then return w.dropInflow i inflow.connection
  else
    return w.modifyInflows i fun fs => fs.map fun f =>
      if f.connection = inflow.connection then { f with reader := reader } else f

/-- A client reads from its relay. The transport is closed when the stream has ended or failed. -/
def moveRelayLink (w : World) (i : Nat) (n : Node) (connection : Nat) (reader : FrameReader) :
    Option World := do
  let (w, reader, items) ← w.moveReader n.codec connection .dialer reader
  let w := w.takeItems i items
  let w := w.modifyLife i fun t => t.modifyLink fun _ => .relay connection reader
  if reader = .stopped then return w.modifyLife i fun t => t.receivingEnded n.config.kind
  else return w

def moveSupervisor (w : World) (i : Nat) (n : Node) (link : BrokerLink) : Option World := do
  let (link, traffic, broker) ← link.move n.config.reconnect w.now n.life.traffic w.broker
  return { w with broker := broker }.modifyLife i fun t =>
    { t with link := some (.broker link), traffic := traffic }

def moveLink (w : World) (i : Nat) (n : Node) : Option World :=
  match n.life.link with
  | none => none
  | some (.multicast _) => none
  | some (.mesh _ inflows) => inflows.findSome? (w.moveInflow i n)
  | some (.relay connection reader) => w.moveRelayLink i n connection reader
  | some (.broker link) => w.moveSupervisor i n link

/-! ## Sockets that fail

Nothing on the machine makes a socket fail that is read from or listens; these are what the links
do when the system reports it all the same. -/

/-- The socket that a link lives by fails: the one that receives, or the one that listens for the
members of a mesh, and then what has been accepted from them is closed. A broker's link has no
socket of its own. -/
def failLink (w : World) (i : Nat) (n : Node) : World :=
  match n.life.link with
  | none => w
  | some (.broker _) => w
  | some (.multicast _) => w.modifyLife i fun t => t.receivingEnded n.config.kind
  | some (.mesh _ inflows) =>
    let w := inflows.foldl (fun w inflow => w.abandon inflow.connection .acceptor) w
    (w.modifyInflows i fun _ => []).modifyLife i fun t => t.receivingEnded n.config.kind
  | some (.relay connection _) =>
    let w := w.modifyLife i fun t => t.modifyLink fun _ => .relay connection .stopped
    w.modifyLife i fun t => t.receivingEnded n.config.kind

/-! ## Calls that wait -/

/-- A call to start goes on when the relay answers the dial, or gives it up. An answer at the
deadline still counts. -/
def moveDialing (w : World) (i call : Nat) (n : Node) (target : String) (deadline : Nat) :
    Option World :=
  if ¬ w.hangs target ∧ w.now ≤ deadline then some (w.greetRelay i call n target deadline)
  else if deadline ≤ w.now then some (w.startFailed i call (RelayClient.timedOut target))
  else none

/-- A call to start goes on with the relay's welcome. -/
def moveGreeting (w : World) (i call : Nat) (n : Node) (target : String) (connection : Nat)
    (received : Bytes) (deadline : Nat) : Option World :=
  let p := w.incoming connection .dialer
  let fail (w : World) (e : TransportError) : World :=
    (w.abandon connection .dialer).startFailed i call e
  if p.unread ≠ [] then
    let (bytes, w) := w.read connection .dialer (headerSize - received.length)
    let received := received ++ bytes
    match RelayClient.judge n.codec received with
    | none => some (w.wait i call (.greeting target connection received deadline))
    | some (.ok ()) => some (w.startDone i call (.relay connection .start))
    | some (.error e) => some (fail w e)
  else if p.atEnd then some (fail w (RelayClient.welcomeFailed .earlyEof))
  else if deadline ≤ w.now then some (fail w (RelayClient.timedOut target))
  else none

/-- A call to send goes on writing to a relay. -/
def moveWriting (w : World) (i call : Nat) (n : Node) (connection : Nat) (rest : Bytes)
    (deadline : Nat) : Option World :=
  match w.write connection .dialer rest with
  | .error e => some (w.sendFailed i call (.writeFailed e))
  | .ok ([], w) => some (w.sendDone i call)
  | .ok (left, w') =>
    if left.length < rest.length then some (w'.wait i call (.writing connection left deadline))
    else if deadline ≤ w.now then
      some (w.sendFailed i call (.writeStalled n.config.sendTimeout))
    else none

/-- A write to one member of a mesh goes on. -/
def movePeerWrite (w : World) (n : Node) (target : String) :
    PeerWrite → Option (World × PeerWrite)
  | .done _ => none
  | .dialing frame deadline =>
    if ¬ w.hangs target ∧ w.now ≤ deadline then some (w.linkPeer n frame target)
    else if deadline ≤ w.now then some (w, .done (.broken (MeshLinks.connectTimedOut target)))
    else none
  | .writing connection rest deadline =>
    match w.write connection .dialer rest with
    | .error e => some (w.abandon connection .dialer, .done (.broken (.writeFailed e)))
    | .ok ([], w) => some (w, .done (.written connection))
    | .ok (left, w') =>
      if left.length < rest.length then some (w', .writing connection left deadline)
      else if deadline ≤ w.now then
        some (w.abandon connection .dialer,
          .done (.broken (.writeStalled n.config.sendTimeout)))
      else none

/-- The first write to a member of a mesh that can go on does so. -/
def movePeerWrites (w : World) (n : Node) :
    List (String × PeerWrite) → Option (World × List (String × PeerWrite))
  | [] => none
  | (target, write) :: rest =>
    match w.movePeerWrite n target write with
    | some (w, write) => some (w, (target, write) :: rest)
    | none => (w.movePeerWrites n rest).map fun (w, rest) => (w, (target, write) :: rest)

/-- The call whose turn it is goes on. -/
def moveCall (w : World) (i : Nat) (n : Node) : Option World :=
  match n.current with
  | none => none
  | some (call, .connecting binding due result) =>
    if due ≤ w.now then
      match result with
      | .ok session => some (w.startDone i call (.broker (.ofSession binding session)))
      | .error e => some (w.startFailed i call e)
    else none
  | some (call, .dialing target deadline) => w.moveDialing i call n target deadline
  | some (call, .greeting target connection received deadline) =>
    w.moveGreeting i call n target connection received deadline
  | some (call, .writing connection rest deadline) =>
    w.moveWriting i call n connection rest deadline
  | some (call, .spreading writes) =>
    (w.movePeerWrites n writes).map fun (w, writes) => w.meshWrites i call writes

/-- The next call on a node gets its turn. -/
def moveQueue (w : World) (i : Nat) (n : Node) : Option World :=
  match n.current, n.queue with
  | none, (call, request) :: _ => some ((w.dequeue i).perform i call request)
  | _, _ => none

/-! ## Settling -/

/-- The first node that can make a move of a kind makes it. -/
def moveNodes (w : World) (move : World → Nat → Node → Option World) : Option World :=
  w.nodes.zipIdx.findSome? fun (n, i) => move w i n

/-- One move of anything in a world. Calls get their turn last. -/
def move (w : World) : Option World :=
  (List.range w.outside.length).findSome? w.moveOutside
    <|> w.moveRelay
    <|> w.moveNodes moveCall
    <|> w.moveNodes moveLink
    <|> w.moveNodes moveQueue

/-- Moves until there is nothing to do, or the fuel is used up. -/
def settleWithin : Nat → World → World
  | 0, w => w
  | fuel + 1, w =>
    match w.move with
    | some w => settleWithin fuel w
    | none => w

/-- The number of moves after which a world that does not come to rest is left as it is. -/
def moveLimit : Nat := 100000

def settle (w : World) : World :=
  w.settleWithin moveLimit

/-! ## Time -/

/-- The times at which something happens by itself. -/
def dueTimes (w : World) : List Nat :=
  let relay := match w.relay with
    | none => []
    | some r => r.ends.entries.filterMap fun (key, _) =>
      (r.state.reading? key).bind fun c => c.input.deadline?
  relay ++ w.nodes.flatMap Node.dueTimes

/-- The next time up to `limit` at which something happens by itself. -/
def nextDue? (w : World) (limit : Nat) : Option Nat :=
  ((w.dueTimes.filter fun t => w.now < t && t ≤ limit).min?)

/-- Lets time pass up to `limit`. Every step takes at least a millisecond of the fuel. -/
def passUntil (limit : Nat) : Nat → World → World
  | 0, w => { w with now := limit }
  | fuel + 1, w =>
    match w.nextDue? limit with
    | some t => passUntil limit fuel { w with now := t }.settle
    | none => { w with now := limit }

def pass (w : World) (millis : Nat) : World :=
  w.passUntil (w.now + millis) millis

end EvictionBus.Net.World
