import Mathlib.Logic.Function.Basic
import EvictionBus.Net.Node
import EvictionBus.Proofs.Broker.Memory

/-!
# Nodes at a broker

A cluster is one broker in memory and any number of nodes that use it.  Every part moves by itself,
in any order: a node is started, sends and is closed, its supervisor makes a move, the broker goes
offline and comes back, and time goes by.  What a part does when it moves is what the broker and the
transport do.

Beside its state a cluster has a history: the messages that have been published, in order, and the
deliveries that each node has taken in.  A message is known by the tags under which it was handed
out, which are those of no other message.
-/

namespace EvictionBus

namespace BrokerLink

/-- The session that the supervisor reads from now, or next if a call of its search has found one.
-/
def current? (l : BrokerLink) : Option Nat :=
  match l.supervisor with
  | .consuming => some l.session
  | .acknowledging _ => some l.session
  | .calling _ _ (.ok session) => some session
  | _ => none

/-- What waits for a link. -/
def waiting (l : BrokerLink) (b : Broker.Memory) : List Broker.Delivery :=
  (l.current?.map b.waiting).getD []

/-- The delivery that the next move takes in. -/
def delivery? {B : Type} [Broker.Connector B] (l : BrokerLink) (b : B) : Option Broker.Delivery :=
  match l.supervisor, (Broker.Connector.next l.session b).1 with
  | .consuming, .delivery d => some d
  | _, _ => none

end BrokerLink

namespace Broker

/-! ## Nodes -/

/-- The settings of a node. -/
structure Member where
  config : TransportConfig
  identity : Identity

/-- What a node publishes and reads. -/
def Member.binding (m : Member) : Binding :=
  (Net.Node.ofConfig m.config m.identity).binding

/-- How far the call has come whose turn it is on a node. -/
inductive Call where
  | starting
  /-- A payload is on its way to the publisher of a session. -/
  | sending (session : Nat) (payload : Bytes)

/-- A node, with all deliveries that it has taken in. -/
structure Node where
  life : Lifecycle BrokerLink
  call : Option Call
  taken : List Delivery

namespace Node

/-- A node that has not been started. -/
def fresh : Node :=
  ⟨.fresh, none, []⟩

/-- The session that a payload is sent through, or why it is not sent. -/
def send (x : Node) (m : Member) (payload : Bytes) : Except TransportError Nat := do
  Lifecycle.checkPayload m.config.effectiveMaxMessageSize payload.length
  (← x.life.active).publishing

/-- What waits for a node. -/
def waiting (x : Node) (b : Memory) : List Delivery :=
  (x.life.link.map fun l => l.waiting b).getD []

/-- The deliveries that have been handed to the owner of a node: those of other nodes. -/
def handed (x : Node) (m : Member) : List Delivery :=
  x.taken.filter fun d => d.routingKey ≠ m.binding.routingKey

end Node

/-! ## Clusters -/

/-- A message that the broker has accepted. The tags of its deliveries come after `first`, up to
`last`. -/
structure Message (ι : Type) where
  sender : ι
  payload : Bytes
  first : Nat
  last : Nat

/-- The settings of the nodes. -/
abbrev Setup (ι : Type) := ι → Member

/-- A delivery of a message. -/
def Message.Carries {ι : Type} (u : Setup ι) (m : Message ι) (d : Delivery) : Prop :=
  m.first < d.tag ∧ d.tag ≤ m.last ∧ d.routingKey = (u m.sender).binding.routingKey ∧
    d.payload = m.payload

instance {ι : Type} (u : Setup ι) (m : Message ι) : DecidablePred (m.Carries u) :=
  fun _ => inferInstanceAs (Decidable (_ ∧ _ ∧ _ ∧ _))

/-- A cluster, with the messages published in it. -/
structure Cluster (ι : Type) where
  now : Nat
  broker : Memory
  node : ι → Node
  sends : List (Message ι)

/-- What happens in a cluster. -/
inductive Step (ι : Type) where
  /-- A call to start a node begins. -/
  | start (i : ι)
  /-- The call connects to the broker. -/
  | connect (i : ι)
  /-- A call to send a payload begins: it takes the publisher that the node has. -/
  | send (i : ι) (payload : Bytes)
  /-- The call publishes the payload. -/
  | publish (i : ι)
  /-- The supervisor of a node makes a move. -/
  | move (i : ι)
  /-- A node is marked as closed. -/
  | close (i : ι)
  /-- A node that is marked as closed is released, once no call is under way. -/
  | release (i : ι)
  /-- The broker goes offline or comes back. -/
  | reachable (value : Bool)
  | pass (millis : Nat)

namespace Cluster

variable {ι : Type} [DecidableEq ι]

/-- A broker without sessions, and nodes that have not been started. -/
def initial : Cluster ι :=
  ⟨0, .start, fun _ => .fresh, []⟩

/-- A node changes. -/
def setNode (c : Cluster ι) (i : ι) (x : Node) : Cluster ι :=
  { c with node := Function.update c.node i x }

/-- A node connects to the broker. -/
def connect (u : Setup ι) (c : Cluster ι) (i : ι) : Cluster ι :=
  let x := c.node i
  match c.broker.connect (u i).binding with
  | .ok (session, b) =>
    { c with broker := b }.setNode i
      { x with life := x.life.started 0 (.ofSession (u i).binding session), call := none }
  | .error _ => c.setNode i { x with life := x.life.startFailed .broker, call := none }

/-- The message with which the broker has come to its next state. -/
def message (c : Cluster ι) (i : ι) (payload : Bytes) (b : Memory) : Message ι :=
  ⟨i, payload, c.broker.lastTag, b.lastTag⟩

/-- The broker has accepted a payload. -/
def accept (c : Cluster ι) (i : ι) (payload : Bytes) (b : Memory) : Cluster ι :=
  let x := c.node i
  { c with broker := b, sends := c.sends ++ [c.message i payload b] }.setNode i
    { x with life := x.life.countSent, call := none }

/-- A payload is published through a session. -/
def publish (c : Cluster ι) (i : ι) (session : Nat) (payload : Bytes) : Cluster ι :=
  let x := c.node i
  match (Backend.memory c.broker).publish session payload with
  -- A failure of the broker leaves it as it was, and ends the call.
  | .ok (.memory b) => c.accept i payload b
  | _ => c.setNode i { x with life := x.life.sendFailed .broker, call := none }

/-- The supervisor of a link makes a move. -/
def move (u : Setup ι) (c : Cluster ι) (i : ι) (l : BrokerLink) : Cluster ι :=
  let x := c.node i
  match l.move (u i).config.reconnect c.now x.life.traffic (Backend.memory c.broker) with
  | some (l', t, .memory b) =>
    { c with broker := b }.setNode i
      { x with
        life := { x.life with link := some l', traffic := t }
        taken := x.taken ++ (l.delivery? (Backend.memory c.broker)).toList }
  | _ => c

/-- A link is released. -/
def release (c : Cluster ι) (i : ι) (l : BrokerLink) : Cluster ι :=
  let x := c.node i
  match (l.close (Backend.memory c.broker)).2 with
  | .memory b => { c with broker := b }.setNode i { x with life := x.life.released }
  | _ => c

/-- One step of a cluster; a step that is not possible changes nothing. -/
def step (u : Setup ι) (c : Cluster ι) : Step ι → Cluster ι
  | .start i =>
    match (c.node i).call, (c.node i).life.mayStart with
    | none, .ok () => c.setNode i { c.node i with call := some .starting }
    | _, _ => c
  | .connect i =>
    match (c.node i).call with
    | some .starting => c.connect u i
    | _ => c
  | .send i payload =>
    match (c.node i).call, (c.node i).send (u i) payload with
    | none, .ok session => c.setNode i { c.node i with call := some (.sending session payload) }
    | _, _ => c
  | .publish i =>
    match (c.node i).call with
    | some (.sending session payload) => c.publish i session payload
    | _ => c
  | .move i =>
    match (c.node i).life.link with
    | some l => c.move u i l
    | none => c
  | .close i => c.setNode i { c.node i with life := (c.node i).life.markClosed }
  -- Closing waits for the call whose turn it is.
  | .release i =>
    match (c.node i).call, (c.node i).life.closed, (c.node i).life.link with
    | none, true, some l => c.release i l
    | _, _, _ => c
  | .reachable value => { c with broker := c.broker.setReachable value }
  | .pass millis => { c with now := c.now + millis }

/-- What a call to send answers in a step, if it comes to its end. -/
def answer? (u : Setup ι) (c : Cluster ι) : Step ι → Option (Except TransportError Unit)
  | .send i payload =>
    match (c.node i).call, (c.node i).send (u i) payload with
    | none, .error e => some (.error e)
    | _, _ => none
  | .publish i =>
    match (c.node i).call with
    | some (.sending session payload) =>
      some (((Backend.memory c.broker).publish session payload).map fun _ => ())
    | _ => none
  | _ => none

/-- The cluster after steps one after another. -/
def run (u : Setup ι) (c : Cluster ι) : List (Step ι) → Cluster ι
  | [] => c
  | s :: steps => (c.step u s).run u steps

theorem run_append (u : Setup ι) (c : Cluster ι) (first second : List (Step ι)) :
    c.run u (first ++ second) = (c.run u first).run u second := by
  induction first generalizing c with
  | nil => rfl
  | cons s first ih => exact ih (c.step u s)

end Cluster

end Broker

end EvictionBus
