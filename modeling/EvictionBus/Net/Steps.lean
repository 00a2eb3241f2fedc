import EvictionBus.Net.Background

/-!
# Steps from outside

What can be done to a world: calls on nodes, connections and datagrams from outside, the broker, the
relay and the clock. After each step everything runs until nothing moves.
-/

namespace EvictionBus.Net

/-- What is done to a world. -/
inductive Step where
  /-- A call on a node; it is known by the number of the step. -/
  | call (node : Nat) (request : Request)
  | advance (millis : Nat)
  | dial (name target : String)
  | write (name : String) (bytes : Bytes)
  /-- The sending side of a connection ends. -/
  | finish (name : String)
  | drop (name : String)
  | pause (name : String)
  | resume (name : String)
  /-- No more connections are accepted outside. -/
  | unlisten
  | datagram (target : String) (bytes : Bytes)
  | reachable (value : Bool)
  | count (exchange : String)
  /-- Dials are neither answered nor refused at these addresses, until other ones are given. -/
  | silence (addresses : List SocketAddress)
  /-- The relay is told to stop. -/
  | shutdown

inductive Answer where
  | nothing
  | refused
  | number (n : Nat)
  deriving DecidableEq, Repr

namespace World

/-- Changes the connection of a name that is still held. -/
def onOutside (w : World) (name : String) (f : World → Outside → World × Outside) : World :=
  match w.outside.findIdx? fun o => o.name = name && o.held with
  | none => w
  | some i =>
    match w.outside[i]? with
    | none => w
    | some o =>
      let (w, o) := f w o
      { w with outside := w.outside.set i o }

/-- Connects from outside. A dial that hangs is not waited for. -/
def dial (w : World) (name target : String) : Answer × World :=
  if w.hangs target then (.nothing, w) else
  match w.connect target with
  | .error _ => (.refused, w)
  | .ok (connection, w) =>
    (.nothing, { w with
      outside := w.outside ++ [⟨name, connection, .dialer, false, true, [], [], false⟩] })

/-- A datagram from outside reaches the members of the group on its port. -/
def datagram (w : World) (target : String) (bytes : Bytes) : World :=
  match resolve target with
  | .ok a =>
    if w.up ∧ bytes.length ≤ Multicast.maxDatagram then w.castDatagram a.port bytes else w
  | .error _ => w

def onMemory (w : World) (f : Broker.Memory → Broker.Memory) : World :=
  match w.broker with
  | .memory b => { w with broker := .memory (f b) }
  | _ => w

/-- Does a step without letting anything else run. -/
def apply (w : World) (number : Nat) : Step → Answer × World
  | .call node request => (.nothing, w.call node number request)
  | .advance millis => (.nothing, w.pass millis)
  | .dial name target => w.dial name target
  | .write name bytes => (.nothing, w.onOutside name fun w o =>
      match w.write o.connection o.side bytes with
      | .ok (_, w) => (w, o)
      | .error _ => (w, o))
  | .finish name => (.nothing, w.onOutside name fun w o =>
      (w.finishWriting o.connection o.side, o))
  | .drop name => (.nothing, w.onOutside name fun w o =>
      (w.abandon o.connection o.side, { o with held := false }))
  | .pause name => (.nothing, w.onOutside name fun w o => (w, { o with paused := true }))
  | .resume name => (.nothing, w.onOutside name fun w o => (w, { o with paused := false }))
  | .unlisten => (.nothing, { w with outsideAddress := none })
  | .datagram target bytes => (.nothing, w.datagram target bytes)
  | .reachable value => (.nothing, w.onMemory fun b => b.setReachable value)
  | .count exchange =>
    match w.broker with
    | .memory b => (.number (b.consumerCount exchange), w)
    | _ => (.number 0, w)
  | .silence addresses => (.nothing, { w with silent := addresses })
  | .shutdown => (.nothing, { w with
      relay := w.relay.map fun r => { r with state := r.state.shutDown } })

/-- Does a step and lets everything run until nothing moves. -/
def step (w : World) (number : Nat) (s : Step) : Answer × World :=
  let (answer, w) := w.apply number s
  (answer, w.settle)

/-- A world in which nothing has happened. -/
def initial (up : Bool) (nodes : List Node) (relay : Option (SocketAddress × Relay.State))
    (outsideAddress : Option SocketAddress) (broker : Broker.Backend) : World where
  now := 0
  up := up
  silent := []
  streams := .empty
  lastConnection := 0
  nodes := nodes
  relay := relay.map fun (address, state) =>
    ⟨address, state.note (.listening address.text), .empty⟩
  outsideAddress := outsideAddress
  outside := []
  broker := broker
  returned := []

end World

end EvictionBus.Net
