import EvictionBus.Proofs.Relay.Runs

/-!
# The tasks of a relay

Connections are accepted by one task, and each of them is served by two more, a reader and a writer.
They share the table of peers, the counters, the queues, what the tasks have been told, and the
journal.  At each point a task uses one of these, and before it uses the next one the others go on:
an eviction that has been counted may wait for its number while peers come and go, two evictions may
be reported in another order than they have been numbered in, and the reader of a peer that another
task is about to drop may start on a frame when the peer is no longer in the table.

`Tasks.Step` is what a task does at once.
-/

namespace EvictionBus.Relay

/-- The frame is an eviction that is not empty. -/
def RawFrame.isEviction (f : RawFrame) : Bool :=
  f.header.op = .evict ∧ 0 < f.header.length

namespace State

/-- Adds a peer to the table; its tasks have been told to stop if all tasks have. -/
def insertPeer (s : State) (key : Nat) (address : String) : State :=
  { s with
    peers := s.peers.insert key (.ofAddress address)
    connections := s.connections.insert key ⟨.ofDepth s.config.queueDepth, .start, s.stopping⟩ }

/-- Tells the tasks of a connection to stop. -/
def cancel (s : State) (key : Nat) : State :=
  { s with connections := s.connections.modify key fun c => { c with cancelled := true } }

/-- Tells all tasks to stop. -/
def cancelAll (s : State) : State :=
  { s with
    stopping := true
    connections := s.connections.mapValues fun _ c => { c with cancelled := true } }

end State

/-! ## What tasks have still to do -/

/-- What a task has still to do to drop a peer. -/
inductive Dropping where
  | remove (reason : Disconnect)
  /-- The peer is out of the table, and its tasks are to be told to stop. -/
  | cancel (p : Peer) (reason : Disconnect)
  /-- They have been told, and the peers that are left are to be counted. -/
  | count (p : Peer) (reason : Disconnect)
  /-- The peer is to be reported as dropped. -/
  | report (p : Peer) (reason : Disconnect) (left : List Nat)
  deriving DecidableEq

/-- Does the next thing to drop a peer; nothing more is done if it has been dropped before. -/
def Dropping.proceed (s : State) (key : Nat) : Dropping → State × Option Dropping
  | .remove reason =>
    match s.peers.get? key with
    | none => (s, none)
    | some p => ({ s with peers := s.peers.erase key }, some (.cancel p reason))
  | .cancel p reason => (s.cancel key, some (.count p reason))
  | .count p reason => (s, some (.report p reason s.peers.keys))
  | .report p reason left =>
    (s.note (.disconnected key p.nickname p.evictions reason left.length), none)

namespace Dropping

variable {s : State} {key : Nat}

theorem proceed_of_get?_eq_none (h : s.peers.get? key = none) (reason : Disconnect) :
    (remove reason).proceed s key = (s, none) := by
  unfold proceed
  rw [h]

theorem proceed_of_get? {p : Peer} (h : s.peers.get? key = some p) (reason : Disconnect) :
    (remove reason).proceed s key =
      ({ s with peers := s.peers.erase key }, some (.cancel p reason)) := by
  unfold proceed
  rw [h]

end Dropping

/-- What the reader of a connection has still to do about a frame. -/
inductive Work where
  /-- An eviction has been counted. -/
  | counted (frame : RawFrame) (evictions : Nat)
  | numbered (frame : RawFrame) (evictions sequence : Nat)
  /-- The name of its sender has been looked up. -/
  | identified (frame : RawFrame) (evictions sequence : Nat) (nickname : Option String)
  /-- It has been reported as received. -/
  | reported (frame : RawFrame) (sequence : Nat)
  /-- The peers that it is for have been looked up. -/
  | addressed (frame : RawFrame) (sequence : Nat) (keys : List Nat)
  /-- It is offered to one peer after the other. -/
  | offering (bytes : Bytes) (keys : List Nat)
  /-- A peer that has not taken it is dropped. -/
  | dropping (key : Nat) (d : Dropping) (bytes : Bytes) (keys : List Nat)
  /-- A frame asks for nothing. -/
  | ignored (op : OpCode) (length : Nat) (nickname : Option String)
  /-- A peer has been named. -/
  | named (nickname : String)
  | greeted
  /-- The peer is in the table, and its greeting is answered. -/
  | answering
  /-- The peer itself is dropped. -/
  | ending (d : Dropping)
  | returned

namespace Work

/-- Starts on a frame that has been read. -/
def take (s : State) (key : Nat) (f : RawFrame) : State × Work :=
  match f.header.op with
  | .evict =>
    if 0 < f.header.length then
      let s := { s with peers := s.peers.recordEviction key }
      (s, .counted f ((s.peers.evictions? key).getD 0))
    else (s, .ignored .evict f.header.length (s.peers.nickname? key))
  | .hello =>
    let name := String.ofList (Text.Utf8.decodeLossy f.payload)
    let s := { s with peers := s.peers.setNickname key name }
    (s, .named ((s.peers.nickname? key).getD ""))
  | op => (s, .ignored op f.header.length (s.peers.nickname? key))

/-- Offers an eviction to a peer. -/
def offer (s : State) (bytes : Bytes) (key : Nat) (keys : List Nat) : State × Work :=
  match s.enqueue key bytes with
  | .ok s => (s, .offering bytes keys)
  | .error reason => (s, .dropping key (.remove reason) bytes keys)

/-- When a peer has been dropped, an eviction is offered to the others. -/
def whileDropping (key : Nat) (bytes : Bytes) (keys : List Nat) : Option Dropping → Work
  | some d => .dropping key d bytes keys
  | none => .offering bytes keys

/-- When the peer itself has been dropped, its reader returns. -/
def whileEnding : Option Dropping → Work
  | some d => .ending d
  | none => .returned

/-- Answers the greeting of a peer. -/
def answer (s : State) (key : Nat) : State × Option Work :=
  match s.enqueue key s.welcome with
  | .ok s => (s, none)
  | .error reason => (s, some (.ending (.remove reason)))

/-- Does the next step of the work. -/
def proceed (s : State) (key : Nat) : Work → State × Option Work
  | .counted f evictions =>
    let (sequence, s) := s.nextSequence
    (s, some (.numbered f evictions sequence))
  | .numbered f evictions sequence =>
    (s, some (.identified f evictions sequence (s.peers.nickname? key)))
  | .identified f evictions sequence nickname =>
    (s.note (.received sequence (nickname.getD (keyText key)) f.header.length evictions),
      some (.reported f sequence))
  | .reported f sequence => (s, some (.addressed f sequence (s.peers.recipients key)))
  | .addressed f sequence keys =>
    (s.note (.sending sequence f.bytes.length keys.length), some (.offering f.bytes keys))
  | .offering _ [] => (s, none)
  | .offering bytes (j :: keys) => (offer s bytes j keys).map id some
  | .dropping j d bytes keys =>
    (d.proceed s j).map id fun left => some (whileDropping j bytes keys left)
  | .ignored op length nickname =>
    (s.note (.ignored (nickname.getD (keyText key)) op length), none)
  | .named nickname => (s.note (.hello nickname), some .greeted)
  | .greeted =>
    (s, some (if s.peers.contains key then .answering else .ending (.remove .queueClosed)))
  | .answering => answer s key
  | .ending d => (d.proceed s key).map id fun left => some (whileEnding left)
  | .returned => (s, some .returned)

end Work

/-- The task that accepts connections. -/
inductive Serving where
  | accepting
  /-- A connection has got its key. -/
  | keyed (key : Nat) (address : String)
  /-- It is in the table. -/
  | inserted (key : Nat) (address : String)
  /-- The peers in the table have been counted. -/
  | counted (key : Nat) (address : String) (peers : List Nat)
  /-- The relay stops. -/
  | notified
  /-- These peers are dropped one after another. -/
  | leaving (keys : List Nat)
  | dropping (key : Nat) (d : Dropping) (keys : List Nat)
  /-- The evictions passed on have been looked up. -/
  | totalled (broadcasts : Nat)
  | returned
  deriving DecidableEq

namespace Serving

/-- The connection has its reader and its writer: they start when it has been reported. -/
def hasStarted (key : Nat) : Serving → Bool
  | .inserted j _ | .counted j _ _ => key ≠ j
  | _ => true

/-- When a peer has been dropped, the others are. -/
def whileDropping (key : Nat) (keys : List Nat) : Option Dropping → Serving
  | some d => .dropping key d keys
  | none => .leaving keys

/-- Does the next step. -/
def proceed (s : State) : Serving → State × Serving
  | .keyed key address => (s.insertPeer key address, .inserted key address)
  | .inserted key address => (s, .counted key address s.peers.keys)
  | .counted key address peers => (s.note (.accepted key address peers.length), .accepting)
  | .notified => (s, .leaving s.peers.keys)
  | .leaving (key :: keys) => (s, .dropping key (.remove .shutdown) keys)
  | .leaving [] => (s, .totalled s.broadcasts)
  | .dropping key d keys => (d.proceed s key).map id (whileDropping key keys)
  | .totalled broadcasts => (s.note (.stopped broadcasts), .returned)
  | serving => (s, serving)

end Serving

/-! ## Tasks -/

/-- A relay and what its tasks are in the middle of. -/
structure Tasks where
  relay : State
  /-- Readers without an entry wait for a frame. -/
  works : KeyTable Work
  /-- The writers that have failed, and what they have still to do. -/
  failures : KeyTable (Option Dropping)
  serving : Serving
  /-- A call is under way, or done, that tells all tasks to stop. -/
  asked : Bool

/-- What one task does at once. -/
inductive Tasks.Step where
  /-- A connection has come, and gets its key. -/
  | accept (address : String)
  /-- The task that accepts connections notices that it is to stop. -/
  | leave
  /-- It goes on. -/
  | serve
  /-- A reader has a whole frame and starts on it. -/
  | read (key : Nat) (frame : RawFrame)
  /-- A reader gives up instead: its connection has ended or failed, or is refused. -/
  | giveUp (key : Nat) (reason : Disconnect)
  /-- A reader goes on. -/
  | proceed (key : Nat)
  /-- A reader keeps a part of a frame. -/
  | keep (key : Nat) (input : Reader)
  /-- A writer takes the next frame out of its queue. -/
  | take (key : Nat)
  | failWriting (key : Nat) (e : IoError)
  /-- A writer that has failed goes on. -/
  | settle (key : Nat)
  /-- A writer returns, and its queue with it. -/
  | stopWriting (key : Nat)
  /-- Somebody asks that all tasks stop. -/
  | ask
  /-- One connection is told, before others are. -/
  | tell (key : Nat)
  /-- All have been told. -/
  | request

namespace Tasks

/-- The tasks when the reader of a connection has come to a point in its work. -/
def put (t : Tasks) (key : Nat) : State × Option Work → Tasks
  | (s, some w) => { t with relay := s, works := t.works.insert key w }
  | (s, none) => { t with relay := s, works := t.works.erase key }

/-- The connection has a reader and a writer. -/
def hasStarted (t : Tasks) (key : Nat) : Bool :=
  t.relay.connections.contains key && t.serving.hasStarted key

/-- The reader of a connection waits for a frame. -/
def waits (t : Tasks) (key : Nat) : Bool :=
  t.hasStarted key && (t.works.get? key).isNone

/-- It has not been told to stop either. -/
def canRead (t : Tasks) (key : Nat) : Bool :=
  t.waits key && (t.relay.reading? key).isSome

def accept (t : Tasks) (address : String) : Tasks :=
  match t.serving with
  | .accepting =>
    let (key, s) := t.relay.nextKey
    { t with relay := s, serving := .keyed key address }
  | _ => t

theorem accept_of_ne {t : Tasks} (h : t.serving ≠ .accepting) (address : String) :
    t.accept address = t := by
  unfold accept
  split
  next he => exact absurd he h
  next => rfl

def leave (t : Tasks) : Tasks :=
  match t.serving with
  | .accepting =>
    if t.relay.stopping then
      { t with relay := t.relay.note .shutdownRequested, serving := .notified }
    else t
  | _ => t

theorem leave_of_ne {t : Tasks} (h : t.serving ≠ .accepting) : t.leave = t := by
  unfold leave
  split
  next he => exact absurd he h
  next => rfl

def serve (t : Tasks) : Tasks :=
  let (s, serving) := t.serving.proceed t.relay
  { t with relay := s, serving := serving }

def read (t : Tasks) (key : Nat) (frame : RawFrame) : Tasks :=
  if t.canRead key then t.put key ((Work.take t.relay key frame).map id some) else t

def giveUp (t : Tasks) (key : Nat) (reason : Disconnect) : Tasks :=
  if t.waits key then t.put key (t.relay, some (.ending (.remove reason))) else t

def proceed (t : Tasks) (key : Nat) : Tasks :=
  match t.works.get? key with
  | some w => t.put key (w.proceed t.relay key)
  | none => t

theorem proceed_of_get? {t : Tasks} {key : Nat} {w : Work} (h : t.works.get? key = some w) :
    t.proceed key = t.put key (w.proceed t.relay key) := by
  unfold proceed
  rw [h]

def keep (t : Tasks) (key : Nat) (input : Reader) : Tasks :=
  { t with relay := { t.relay with
      connections := t.relay.connections.modify key fun c => { c with input := input } } }

def failWriting (t : Tasks) (key : Nat) (e : IoError) : Tasks :=
  if t.hasStarted key && (t.failures.get? key).isNone then
    { t with failures := t.failures.insert key (some (.remove (.io e))) }
  else t

def settle (t : Tasks) (key : Nat) : Tasks :=
  match t.failures.get? key with
  | some (some d) =>
    let (s, d) := d.proceed t.relay key
    { t with relay := s, failures := t.failures.insert key d }
  | _ => t

def tell (t : Tasks) (key : Nat) : Tasks :=
  if t.asked then { t with relay := t.relay.cancel key } else t

def request (t : Tasks) : Tasks :=
  if t.asked then { t with relay := t.relay.cancelAll } else t

/-- The tasks after a step; a step that cannot be taken changes nothing. -/
def step (t : Tasks) : Step → Tasks
  | .accept address => t.accept address
  | .leave => t.leave
  | .serve => t.serve
  | .read key frame => t.read key frame
  | .giveUp key reason => t.giveUp key reason
  | .proceed key => t.proceed key
  | .keep key input => t.keep key input
  | .take key => { t with relay := (t.relay.takeOutbound key).2 }
  | .failWriting key e => t.failWriting key e
  | .settle key => t.settle key
  | .stopWriting key => { t with relay := (t.relay.dropQueue key).2 }
  | .ask => { t with asked := true }
  | .tell key => t.tell key
  | .request => t.request

def run (t : Tasks) (steps : List Step) : Tasks :=
  steps.foldl step t

/-- What the steps of a run have to show, one after another. -/
def along {α : Type} (shown : Tasks → Step → List α) (t : Tasks) : List Step → List α
  | [] => []
  | x :: steps => shown t x ++ along shown (t.step x) steps

theorem along_append {α : Type} (shown : Tasks → Step → List α) (t : Tasks)
    (steps more : List Step) :
    t.along shown (steps ++ more) = t.along shown steps ++ (t.run steps).along shown more := by
  induction steps generalizing t with
  | nil => rfl
  | cons x steps ih =>
    show shown t x ++ (t.step x).along shown (steps ++ more) = _
    rw [ih, ← List.append_assoc]
    rfl

/-- The frame that a reader starts on at a step, and the key of its sender. -/
def startedAt (t : Tasks) : Step → List (Nat × RawFrame)
  | .read key frame => if t.canRead key then [(key, frame)] else []
  | _ => []

/-- The frames that readers start on in a run. -/
def startedOver (t : Tasks) (steps : List Step) : List (Nat × RawFrame) :=
  t.along startedAt steps

def start (config : Config) (identity : Identity) : Tasks :=
  ⟨.start config identity, .empty, .empty, .accepting, false⟩

end Tasks

end EvictionBus.Relay
