import EvictionBus.Relay.Config
import EvictionBus.Relay.Event
import EvictionBus.Relay.Queue
import EvictionBus.Relay.Reader
import EvictionBus.Text.Utf8

/-!
# The state of a relay

A relay keeps a table of peers, two counters and, for every connection that it has accepted, the
queue of frames on their way out and the reader of frames on their way in. Frames are only ever
queued here; a peer whose queue does not take one is dropped, and nobody waits for it.
-/

namespace EvictionBus.Relay

structure Connection where
  outbound : Queue
  input : Reader
  /-- Whether its reader and writer have been told to stop. -/
  cancelled : Bool

structure State where
  config : Config
  identity : Identity
  peers : PeerTable
  connections : KeyTable Connection
  /-- The number of keys given out; keys count from one. -/
  lastKey : Nat
  /-- The number of evictions passed on; they are numbered from one. -/
  broadcasts : Nat
  /-- Whether the relay has been told to stop. -/
  stopping : Bool
  journal : List Event

namespace State

/-- A relay without peers. -/
def start (config : Config) (identity : Identity) : State where
  config := config
  identity := identity
  peers := .empty
  connections := .empty
  lastKey := 0
  broadcasts := 0
  stopping := false
  journal := []

def note (s : State) (e : Event) : State :=
  { s with journal := s.journal ++ [e] }

/-- The frame that answers a peer's greeting. -/
def welcome (s : State) : Bytes :=
  Header.bytes s.identity .welcome 0

/-- The conditions under which frames are read. -/
def readRules (s : State) : ReadRules :=
  ⟨s.identity, s.config.maxMessageSize, s.config.payloadTimeout⟩

/-! ## Counters -/

def nextKey (s : State) : Nat × State :=
  (s.lastKey + 1, { s with lastKey := s.lastKey + 1 })

def nextSequence (s : State) : Nat × State :=
  (s.broadcasts + 1, { s with broadcasts := s.broadcasts + 1 })

/-! ## Coming and going -/

/-- Adds a peer with a queue of the given depth under a new key. -/
def register (s : State) (address : Nat → String) (depth : Nat) : Nat × State :=
  let (key, s) := s.nextKey
  (key, { s with
    peers := s.peers.insert key (.ofAddress (address key))
    connections := s.connections.insert key ⟨.ofDepth depth, .start, s.stopping⟩ })

def accept (s : State) (address : String) : Nat × State :=
  let (key, s) := s.register (fun _ => address) s.config.queueDepth
  (key, s.note (.accepted key address s.peers.size))

/-- Drops a peer, and says so; nothing happens if it has been dropped before. -/
def disconnect (s : State) (key : Nat) (reason : Disconnect) : State :=
  match s.peers.get? key with
  -- The first reason counts; a second one finds no peer.
  | none => s
  | some p =>
    let peers := s.peers.erase key
    { s with
      peers := peers
      connections := s.connections.modify key fun c => { c with cancelled := true }
      journal := s.journal ++ [.disconnected key p.nickname p.evictions reason peers.size] }

/-! ## Queueing -/

/-- Puts a frame into the queue of a connection. -/
def enqueue (s : State) (key : Nat) (bytes : Bytes) : Except Disconnect State :=
  match s.connections.get? key with
  | none => .error .queueClosed
  | some c =>
    match c.outbound.push bytes with
    | .ok q => .ok { s with connections := s.connections.insert key { c with outbound := q } }
    | .error .full => .error .slowConsumer
    | .error .closed => .error .queueClosed

/-- Queues a frame for a peer, or drops the peer. Says how many queues have taken the frame. -/
def offer (bytes : Bytes) (s : State) (key : Nat) : State × Nat :=
  match s.enqueue key bytes with
  | .ok s => (s, 1)
  | .error reason => (s.disconnect key reason, 0)

/-- Queues a frame for peers one after another, and counts the queues that have taken it. -/
def offerAll (bytes : Bytes) (s : State) : List Nat → State × Nat
  | [] => (s, 0)
  | key :: keys =>
    let (s, n) := offer bytes s key
    let (s, m) := offerAll bytes s keys
    (s, n + m)

/-- Queues an eviction for every peer but its origin, and counts the queues that have taken it. -/
def fanOut (s : State) (sequence origin : Nat) (bytes : Bytes) : State × Nat :=
  let keys := s.peers.recipients origin
  (s.note (.sending sequence bytes.length keys.length)).offerAll bytes keys

/-! ## Frames from peers -/

/-- An eviction is counted, numbered and passed on. -/
def handleEviction (s : State) (key : Nat) (f : RawFrame) : State :=
  let s := { s with peers := s.peers.recordEviction key }
  let evictions := (s.peers.evictions? key).getD 0
  let (sequence, s) := s.nextSequence
  let s := s.note (.received sequence (s.peers.label key) f.header.length evictions)
  (s.fanOut sequence key f.bytes).1

/-- A greeting names the peer and is answered. -/
def handleHello (s : State) (key : Nat) (f : RawFrame) : State × Option Disconnect :=
  let name := String.ofList (Text.Utf8.decodeLossy f.payload)
  let s := { s with peers := s.peers.setNickname key name }
  let s := s.note (.hello ((s.peers.nickname? key).getD ""))
  if s.peers.contains key then
    match s.enqueue key s.welcome with
    | .ok s => (s, none)
    | .error reason => (s, some reason)
  else (s, some .queueClosed)

/-- Acts on a frame, and says whether the peer that has sent it is to be dropped. -/
def handle (s : State) (key : Nat) (f : RawFrame) : State × Option Disconnect :=
  match f.header.op with
  | .evict =>
    if 0 < f.header.length then (s.handleEviction key f, none)
    else (s.note (.ignored (s.peers.label key) .evict f.header.length), none)
  | .hello => s.handleHello key f
  | op => (s.note (.ignored (s.peers.label key) op f.header.length), none)

/-- Acts on frames one after another, up to one for which the peer is to be dropped. -/
def handleAll (s : State) (key : Nat) : List RawFrame → State × Option Disconnect
  | [] => (s, none)
  | f :: fs =>
    match s.handle key f with
    | (s, none) => s.handleAll key fs
    | (s, some reason) => (s, some reason)

end State

end EvictionBus.Relay
