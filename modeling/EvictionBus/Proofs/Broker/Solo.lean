import EvictionBus.Proofs.Broker.Cluster

/-!
# One node at a broker of any kind

A node can be given any broker.  Nothing is known about such a broker: whether it can be connected
to, what it delivers and what it refuses may be different each time that it is asked.  A `Solo` is a
node at such a broker.  When the search of the node has found a session, its publisher is put into
its place first, and its deliveries are read once the old publisher is closed; anything may happen
in between.
-/

namespace EvictionBus

namespace Broker

/-! ## A broker of any kind -/

/-- What a broker answers when it is asked next. -/
structure Answers where
  /-- How long connecting takes, and whether it is refused. -/
  takes : Nat
  refusal : Option TransportError
  next : Next
  notAcknowledged : Option TransportError
  notPublished : Option TransportError

/-- A broker whose answers are set from outside.  Its sessions are numbered in the order in which
they are opened. -/
structure Custom where
  answers : Answers
  /-- The number of sessions opened. -/
  opened : Nat
  published : List (Nat × Bytes)
  /-- The sessions whose publishers have been closed, in order. -/
  closed : List Nat

namespace Custom

def start (answers : Answers) : Custom :=
  ⟨answers, 0, [], []⟩

/-- The answer to a request that is refused or else leads to the state `b`. -/
def grant (refusal : Option TransportError) (b : Custom) : Except TransportError Custom :=
  match refusal with
  | some e => .error e
  | none => .ok b

instance : Connector Custom where
  connect _ _ b :=
    match b.answers.refusal with
    | some e => (b.answers.takes, .error e, b)
    | none => (b.answers.takes, .ok b.opened, { b with opened := b.opened + 1 })
  next _ b := (b.answers.next, b)
  acknowledge _ _ b := grant b.answers.notAcknowledged b
  publish session payload b :=
    grant b.answers.notPublished { b with published := b.published ++ [(session, payload)] }
  closePublisher session b := { b with closed := b.closed ++ [session] }
  dropReader _ b := b

end Custom

end Broker

/-! ## The two halves of a change of session -/

namespace BrokerLink

/-- The session that a search has found, once its call is over. -/
def found? (l : BrokerLink) (now : Nat) : Option Nat :=
  match l.supervisor with
  | .calling _ due (.ok session) => if due ≤ now then some session else none
  | _ => none

/-- The supervisor reads deliveries, or acknowledges one. -/
def consumes (l : BrokerLink) : Bool :=
  match l.supervisor with
  | .consuming => true
  | .acknowledging _ => true
  | _ => false

theorem supervisor_of_found {l : BrokerLink} {now session : Nat} (h : l.found? now = some session) :
    ∃ call due, l.supervisor = .calling call due (.ok session) ∧ due ≤ now := by
  unfold found? at h
  split at h
  next call due found hs =>
    split at h
    next hdue =>
      cases h
      exact ⟨call, due, hs, hdue⟩
    · cases h
  · cases h

end BrokerLink

namespace Broker

/-! ## A node at work -/

structure Solo where
  now : Nat
  broker : Custom
  node : Node
  /-- The session whose publisher is in its place, while the old one is being closed. -/
  adopted : Option Nat

namespace Solo

/-- What happens to a node and its broker. -/
inductive Step where
  /-- The broker answers differently from now on. -/
  | answer (answers : Answers)
  /-- A call to start the node begins. -/
  | start
  | connect
  /-- A call to send a payload begins: it takes the publisher that the node has. -/
  | send (payload : Bytes)
  | publish
  /-- The supervisor makes a move. -/
  | move
  | close
  /-- A node that is marked as closed is released, once no call is under way. -/
  | release
  | pass (millis : Nat)

/-- A node that has not been started, and a broker without sessions. -/
def initial (answers : Answers) : Solo :=
  ⟨0, .start answers, .fresh, none⟩

/-- The publisher that the node sends through. -/
def slot (c : Solo) : Option Nat :=
  c.node.life.link.bind BrokerLink.publisher

def setLife (c : Solo) (life : Lifecycle BrokerLink) : Solo :=
  { c with node := { c.node with life := life } }

def setLink (c : Solo) (l : BrokerLink) : Solo :=
  c.setLife { c.node.life with link := some l }

def hangUp (c : Solo) : Solo :=
  { c with node := { c.node with call := none } }

def connect (m : Member) (c : Solo) : Solo :=
  match Connector.connect c.now m.binding c.broker with
  | (_, .ok session, b) =>
    (({ c with broker := b }).setLife
      (c.node.life.started 0 (.ofSession m.binding session))).hangUp
  | (_, .error _, b) => (({ c with broker := b }).setLife (c.node.life.startFailed .broker)).hangUp

def publish (c : Solo) (session : Nat) (payload : Bytes) : Solo :=
  match Connector.publish session payload c.broker with
  | .ok b => (({ c with broker := b }).setLife c.node.life.countSent).hangUp
  | .error _ => (c.setLife (c.node.life.sendFailed .broker)).hangUp

/-- The publisher of a session is put into its place. -/
def adopt (c : Solo) (l : BrokerLink) (session : Nat) : Solo :=
  let (l, b) := l.adopt c.broker session
  ({ c with broker := b, adopted := some session }).setLink l

/-- The deliveries of the session are read. -/
def resume (c : Solo) (l : BrokerLink) (session : Nat) : Solo :=
  let (l, b) := l.resume c.broker session
  ({ c with broker := b, adopted := none }).setLink l

/-- Any other move of the supervisor. -/
def work (m : Member) (c : Solo) (l : BrokerLink) : Solo :=
  match l.move m.config.reconnect c.now c.node.life.traffic c.broker with
  | some (l', t, b) =>
    { c with
      broker := b
      node := { c.node with
        life := { c.node.life with link := some l', traffic := t }
        taken := c.node.taken ++ (l.delivery? c.broker).toList } }
  | none => c

def move (m : Member) (c : Solo) (l : BrokerLink) : Solo :=
  match c.adopted, l.found? c.now with
  | some session, _ => c.resume l session
  | none, some session => c.adopt l session
  | none, none => c.work m l

def release (c : Solo) (l : BrokerLink) : Solo :=
  ({ c with broker := (l.close c.broker).2, adopted := none }).setLife c.node.life.released

/-- One step; a step that is not possible changes nothing. -/
def step (m : Member) (c : Solo) : Step → Solo
  | .answer answers => { c with broker := { c.broker with answers := answers } }
  | .start =>
    match c.node.call, c.node.life.mayStart with
    | none, .ok () => { c with node := { c.node with call := some .starting } }
    | _, _ => c
  | .connect =>
    match c.node.call with
    | some .starting => c.connect m
    | _ => c
  | .send payload =>
    match c.node.call, c.node.send m payload with
    | none, .ok session =>
      { c with node := { c.node with call := some (.sending session payload) } }
    | _, _ => c
  | .publish =>
    match c.node.call with
    | some (.sending session payload) => c.publish session payload
    | _ => c
  | .move =>
    match c.node.life.link with
    | some l => c.move m l
    | none => c
  | .close => c.setLife c.node.life.markClosed
  | .release =>
    match c.node.call, c.node.life.closed, c.node.life.link with
    | none, true, some l => c.release l
    | _, _, _ => c
  | .pass millis => { c with now := c.now + millis }

/-- What a call to send answers when it does not get as far as a publisher. -/
def answer? (m : Member) (c : Solo) : Step → Option TransportError
  | .send payload =>
    match c.node.call, c.node.send m payload with
    | none, .error e => some e
    | _, _ => none
  | _ => none

def run (m : Member) (c : Solo) (steps : List Step) : Solo :=
  steps.foldl (step m) c

end Solo

end Broker

end EvictionBus
