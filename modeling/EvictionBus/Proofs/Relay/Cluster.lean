import Mathlib.Logic.Function.Basic
import EvictionBus.Net.Node
import EvictionBus.Relay.Input

/-!
# A relay with its clients

A cluster is one relay and any number of nodes that use it, with the bytes that are on their way
between them.  Every part moves by itself, in any order: a node is started, sends and is closed,
bytes are written and read in chunks of any size, and connections end or fail at any time.  What a
part does when it moves is what the relay and the transport do.

Beside its state every client has a history: what it has sent, what it has read, and how its start
has ended.
-/

namespace EvictionBus.Relay

/-! ## Clients -/

/-- The settings of a node that uses a relay. -/
structure Member where
  config : TransportConfig
  identity : Identity

namespace Member

/-- The codec of a node. -/
def codec (m : Member) : Codec :=
  (Net.Node.ofConfig m.config m.identity).codec

/-- The bytes of an eviction that a node sends. -/
def evictionFrame (m : Member) (payload : Bytes) : Bytes :=
  Header.bytes m.identity .evict payload.length ++ payload

end Member

/-- A connection between a node and the relay, with the bytes that are on their way. -/
structure Wire where
  /-- The relay's key for the connection. -/
  key : Nat
  /-- What the node has still to write. -/
  unsent : Bytes
  /-- What is on its way to the relay. -/
  up : Bytes
  /-- What the relay has still to write of the frame that its writer has taken. -/
  writing : Bytes
  /-- What is on its way to the node. -/
  down : Bytes
  /-- Whether nothing more gets to the relay. -/
  upEnded : Bool
  /-- Whether nothing more gets to the node. -/
  downEnded : Bool
  deriving DecidableEq

namespace Wire

/-- A new connection, on which the node has a frame to write. -/
def ofFrame (key : Nat) (frame : Bytes) : Wire :=
  ⟨key, frame, [], [], [], false, false⟩

/-- The node writes `n` bytes; they are lost if nothing gets to the relay any more. -/
def write (w : Wire) (n : Nat) : Wire :=
  { w with
    unsent := w.unsent.drop n
    up := if w.upEnded then w.up else w.up ++ w.unsent.take n }

/-- The node gives up what it has still to write. -/
def breakOff (w : Wire) : Wire :=
  { w with unsent := [], upEnded := true }

/-- The node goes away. -/
def hangUp (w : Wire) : Wire :=
  { w with unsent := [], down := [], upEnded := true, downEnded := true }

/-- The relay writes `n` bytes of the frame that its writer has taken. -/
def forward (w : Wire) (n : Nat) : Wire :=
  { w with
    writing := w.writing.drop n
    down := if w.downEnded then w.down else w.down ++ w.writing.take n }

/-- The relay's writer stops. -/
def stop (w : Wire) : Wire :=
  { w with writing := [], downEnded := true }

/-- The connection is lost, with everything that is on its way. -/
def reset (w : Wire) : Wire :=
  { w with unsent := [], up := [], writing := [], down := [], upEnded := true, downEnded := true }

end Wire

/-- A node that uses a relay. -/
structure Client where
  life : Lifecycle FrameReader
  wire : Option Wire
  /-- The part of the relay's answer that has been read, while the node is being started. -/
  greeting : Option Bytes
  /-- How the start has ended. -/
  outcome : Option (Except TransportError Unit)
  /-- The payloads whose frames the node has begun to write. -/
  sent : List Bytes
  /-- All bytes read from the relay. -/
  heard : Bytes
  /-- All frames taken in. -/
  received : List Frame

namespace Client

/-- A node that has not been started. -/
def fresh : Client :=
  ⟨.fresh, none, none, none, [], [], []⟩

def modifyWire (x : Client) (f : Wire → Wire) : Client :=
  { x with wire := x.wire.map f }

/-- The start fails. -/
def failStart (x : Client) (e : TransportError) : Client :=
  { x.modifyWire .hangUp with
    life := x.life.startFailed .relay
    greeting := none
    outcome := some (.error e) }

/-- The node has connected and greets the relay. -/
def connect (x : Client) (m : Member) (key : Nat) : Client :=
  match RelayClient.hello m.codec m.config.relayAlias with
  | .ok frame => { x with wire := some (.ofFrame key frame), greeting := some [] }
  | .error e => { x with wire := some (.ofFrame key []) }.failStart e

/-- The start succeeds. -/
def succeedStart (x : Client) : Client :=
  { x with life := x.life.started 0 .start, greeting := none, outcome := some (.ok ()) }

/-- The node reads at most `n` bytes from its connection. -/
def hear (x : Client) (w : Wire) (n : Nat) : Client :=
  { x with wire := some { w with down := w.down.drop n }, heard := x.heard ++ w.down.take n }

/-- The node reads at most `n` bytes of the relay's answer, once it has written its greeting. -/
def answer (x : Client) (m : Member) (n : Nat) : Client :=
  match x.greeting, x.wire with
  | some received, some w =>
    if w.unsent = [] then
      -- Not a byte behind the header is read, since it would be missing in the stream.
      let n := min n (headerSize - received.length)
      let received := received ++ w.down.take n
      match RelayClient.judge m.codec received with
      | none => { x.hear w n with greeting := some received }
      | some (.ok ()) => (x.hear w n).succeedStart
      | some (.error e) => (x.hear w n).failStart e
    else x
  | _, _ => x

/-- The start fails for another reason: the time is over, or the connection has ended or failed. -/
def giveUp (x : Client) (e : TransportError) : Client :=
  match x.greeting with
  | some _ => x.failStart e
  | none => x

/-- The node begins to send a payload. A call has to wait until the one before it has written its
frame. -/
def send (x : Client) (m : Member) (payload : Bytes) : Client :=
  match Lifecycle.checkPayload m.config.reportedMaxMessageSize payload.length, x.life.active,
      m.codec.encode .evict payload, x.wire with
  | .ok (), .ok _, .ok frame, some w =>
    if w.unsent = [] then
      -- The frame is on its way from here on, however little of it gets written.
      { x with wire := some { w with unsent := frame }, sent := x.sent ++ [payload] }
    else x
  | _, _, _, _ => x

/-- The node writes `n` bytes. The frame of a payload has been sent when all of it is written. -/
def write (x : Client) (n : Nat) : Client :=
  match x.wire with
  | some w =>
    let x := { x with wire := some (w.write n) }
    if w.unsent ≠ [] ∧ (w.write n).unsent = [] ∧ x.greeting = none then
      { x with life := x.life.countSent }
    else x
  | none => x

/-- Writing the frame of a payload fails. -/
def writeFails (x : Client) : Client :=
  match x.greeting, x.wire with
  | none, some w =>
    if w.unsent = [] then x
    else { x with wire := some w.breakOff, life := x.life.sendFailed .relay }
  | _, _ => x

/-- The node takes in what its reader yields. -/
def takeIn (x : Client) (yielded : FrameReader × List FrameItem) : Client :=
  let life := (x.life.modifyTraffic fun t => t.receiveItems yielded.2).modifyLink fun _ => yielded.1
  { x with
    life := if yielded.1 = .stopped then life.receivingEnded .relay else life
    received := x.received ++ yielded.2.filterMap Except.toOption }

/-- The node reads at most `n` bytes of the stream. -/
def read (x : Client) (m : Member) (n : Nat) : Client :=
  match x.life.link, x.wire with
  | some (.reading pending), some w =>
    (x.hear w n).takeIn ((FrameReader.reading pending).feed m.codec (w.down.take n))
  | _, _ => x

/-- The stream ends. -/
def readEnds (x : Client) (m : Member) : Client :=
  match x.life.link with
  | some (.reading pending) => x.takeIn ((FrameReader.reading pending).finish m.codec)
  | _ => x

/-- Reading from the stream fails. -/
def readFails (x : Client) (e : IoError) : Client :=
  match x.life.link with
  | some (.reading pending) => x.takeIn ((FrameReader.reading pending).fail e)
  | _ => x

/-- A node that is marked as closed is released, once no start is under way. -/
def release (x : Client) : Client :=
  match x.greeting with
  | some _ => x
  | none =>
    if x.life.closed then { x.modifyWire .hangUp with life := x.life.released } else x

end Client

/-- What happens at one node without the relay. -/
inductive Action where
  | answer (n : Nat)
  | giveUp (e : TransportError)
  | send (payload : Bytes)
  | write (n : Nat)
  | writeFails
  | read (n : Nat)
  | readEnds
  | readFails (e : IoError)
  /-- The node is marked as closed. -/
  | close
  | release
  | forward (n : Nat)
  | reset

/-- What a node does. -/
def Client.act (x : Client) (m : Member) : Action → Client
  | .answer n => x.answer m n
  | .giveUp e => x.giveUp e
  | .send payload => x.send m payload
  | .write n => x.write n
  | .writeFails => x.writeFails
  | .read n => x.read m n
  | .readEnds => x.readEnds m
  | .readFails e => x.readFails e
  | .close => { x with life := x.life.markClosed }
  | .release => x.release
  | .forward n => x.modifyWire (·.forward n)
  | .reset => x.modifyWire .reset

/-! ## Clusters -/

/-- Whether an input of the relay is one that brings and takes nothing: a connection ends or fails,
a payload is late, or the relay is told to stop. -/
def Input.isEvent : Input → Bool
  | .ended _ => true
  | .readFailed .. => true
  | .timer _ => true
  | .writeFailed .. => true
  | .shutDown => true
  | _ => false

/-- The settings of a cluster: those of the relay and of every node. -/
structure Setup (ι : Type) where
  config : Config
  identity : Identity
  member : ι → Member

/-- A cluster: everything that has happened to the relay, and the nodes. -/
structure Cluster (ι : Type) where
  inputs : List (Nat × Input)
  client : ι → Client

/-- What happens in a cluster. -/
inductive Step (ι : Type) where
  /-- A node connects to the relay. -/
  | start (i : ι) (now : Nat) (address : String)
  /-- A node cannot connect to the relay. -/
  | refused (i : ι) (e : TransportError)
  | act (i : ι) (action : Action)
  /-- The relay reads at most `n` bytes from a node. -/
  | arrive (i : ι) (now n : Nat)
  /-- The relay's writer takes the next frame for a node. -/
  | take (i : ι) (now : Nat)
  /-- The relay's writer for a node stops. -/
  | stop (i : ι) (now : Nat)
  /-- A connection of the relay ends or fails, a payload is late, or the relay is told to stop. -/
  | event (now : Nat) (input : Input)

namespace Cluster

variable {ι : Type} [DecidableEq ι]

/-- A relay without peers, and nodes that have not been started. -/
def initial : Cluster ι :=
  ⟨[], fun _ => .fresh⟩

/-- The state of the relay. -/
def relay (u : Setup ι) (c : Cluster ι) : State :=
  (State.start u.config u.identity).run c.inputs

/-- Something happens to the relay. -/
def input (c : Cluster ι) (now : Nat) (input : Input) : Cluster ι :=
  { c with inputs := c.inputs ++ [(now, input)] }

/-- A node changes. -/
def setClient (c : Cluster ι) (i : ι) (x : Client) : Cluster ι :=
  { c with client := Function.update c.client i x }

/-- Whether a node may be started and no start is under way. -/
def mayStart (c : Cluster ι) (i : ι) : Bool :=
  match (c.client i).life.mayStart, (c.client i).greeting with
  | .ok (), none => true
  | _, _ => false

/-- One step of a cluster; a step that is not possible changes nothing. -/
def step (u : Setup ι) (c : Cluster ι) : Step ι → Cluster ι
  | .start i now address =>
    if c.mayStart i ∧ ¬ (c.relay u).stopping then
      let key := (c.relay u).lastKey + 1
      (c.input now (.connected address)).setClient i ((c.client i).connect (u.member i) key)
    else c
  | .refused i e => if c.mayStart i then c.setClient i ((c.client i).failStart e) else c
  | .act i action => c.setClient i ((c.client i).act (u.member i) action)
  | .arrive i now n =>
    match (c.client i).wire with
    | some w =>
      -- What a dropped peer still sends is not read any more.
      if ((c.relay u).reading? w.key).isSome then
        (c.input now (.arrived w.key (w.up.take n))).setClient i
          { c.client i with wire := some { w with up := w.up.drop n } }
      else c
    | none => c
  | .take i now =>
    match (c.client i).wire with
    | some w =>
      match w.writing, ((c.relay u).takeOutbound w.key).1 with
      -- The writer takes a frame when it has written the one before.
      | [], some (.frame bytes) =>
        (c.input now (.taken w.key)).setClient i
          { c.client i with wire := some { w with writing := bytes } }
      | _, _ => c
    | none => c
  | .stop i now =>
    match (c.client i).wire with
    | some w =>
      (c.input now (.writerStopped w.key)).setClient i
        { c.client i with wire := some w.stop }
    | none => c
  | .event now i => if i.isEvent then c.input now i else c

/-- The cluster after steps one after another. -/
def run (u : Setup ι) (c : Cluster ι) : List (Step ι) → Cluster ι
  | [] => c
  | s :: steps => (c.step u s).run u steps

/-! ## Two nodes -/

/-- Two nodes with the identities of ones and of twos, and payloads of at most eight bytes. -/
def pair : Setup Bool where
  config := Config.standard.withMaxMessageSize 8
  identity := ⟨List.replicate 16 0, rfl⟩
  member i := ⟨(TransportConfig.standard.withMaxMessageSize 8).withLocalPath "node",
    ⟨List.replicate 16 (if i then 2 else 1), rfl⟩⟩

/-- A node connects and is welcomed. -/
def join (i : Bool) : List (Step Bool) :=
  [.start i 0 "", .act i (.write 24), .arrive i 0 24, .take i 0, .act i (.forward 20),
    .act i (.answer 20)]

end Cluster

end EvictionBus.Relay
