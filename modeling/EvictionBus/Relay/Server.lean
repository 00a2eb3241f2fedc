import EvictionBus.Relay.State

/-!
# What happens to a relay

Each function takes a relay through one event: a connection comes, bytes arrive on one, one ends or
fails, a payload is late, a frame leaves, or the relay is told to stop. A connection that has been
told to stop reads no more.
-/

namespace EvictionBus.Relay.State

/-- The connection of a key, unless it has been told to stop. -/
def reading? (s : State) (key : Nat) : Option Connection :=
  (s.connections.get? key).filter fun c => !c.cancelled

/-- Bytes arrive from a peer. -/
def receive (s : State) (now key : Nat) (bytes : Bytes) : State :=
  match s.reading? key with
  | none => s
  | some c =>
    let (frames, outcome) := c.input.feed s.readRules now bytes
    match s.handleAll key frames with
    | (s, some reason) => s.disconnect key reason
    | (s, none) =>
      match outcome with
      | .ok input =>
        { s with connections := s.connections.modify key fun c => { c with input := input } }
      | .error reason => s.disconnect key reason

/-- A peer has ended its side of the connection. -/
def inputEnded (s : State) (key : Nat) : State :=
  match s.reading? key with
  | none => s
  | some c => s.disconnect key c.input.atEnd

/-- Reading from a peer has failed. -/
def inputFailed (s : State) (key : Nat) (e : IoError) : State :=
  match s.reading? key with
  | none => s
  | some _ => s.disconnect key (.io e)

/-- When the payload under way from a peer must be complete. -/
def deadline? (s : State) (key : Nat) : Option Nat :=
  (s.reading? key).bind fun c => c.input.deadline?

/-- The clock has moved on: a peer whose payload is late is dropped. -/
def checkDeadline (s : State) (now key : Nat) : State :=
  match (s.reading? key).bind fun c => c.input.late? s.readRules now with
  | none => s
  | some reason => s.disconnect key reason

/-- Takes the next frame for a peer out of its queue; `none` if there is no such queue. -/
def takeOutbound (s : State) (key : Nat) : Option Taken × State :=
  match s.connections.get? key with
  | none => (none, s)
  | some c =>
    if c.outbound.reader = .gone then (none, s)
    else
      let (taken, q) := c.outbound.take (s.peers.contains key)
      (some taken, { s with connections := s.connections.insert key { c with outbound := q } })

def outputFailed (s : State) (key : Nat) (e : IoError) : State :=
  s.disconnect key (.io e)

/-- Changes the queue of a connection, if it still has a reader, and says whether it has. -/
def changeQueue (s : State) (key : Nat) (change : Queue → Queue) : Bool × State :=
  match s.connections.get? key with
  | none => (false, s)
  | some c =>
    if c.outbound.reader = .gone then (false, s)
    else (true, { s with
      connections := s.connections.insert key { c with outbound := change c.outbound } })

/-- The reader of a queue admits no more frames. -/
def closeQueue (s : State) (key : Nat) : Bool × State :=
  s.changeQueue key Queue.close

/-- The reader of a queue goes away, as the writer of a connection does when it stops. -/
def dropQueue (s : State) (key : Nat) : Bool × State :=
  s.changeQueue key Queue.drop

/-- Drops peers one after another because the relay stops. -/
def disconnectAll (s : State) : List Nat → State
  | [] => s
  | key :: keys => (s.disconnect key .shutdown).disconnectAll keys

/-- The relay is told to stop: all connections are told to stop, and all peers are dropped. -/
def shutDown (s : State) : State :=
  if s.stopping then s
  else
    let s := { s with
      stopping := true
      connections := s.connections.mapValues fun _ c => { c with cancelled := true } }
    let s := s.note .shutdownRequested
    let s := s.disconnectAll s.peers.keys
    s.note (.stopped s.broadcasts)

/-- The keys of the connections that have been told to stop. -/
def cancelledKeys (s : State) : List Nat :=
  (s.connections.entries.filter fun e => e.2.cancelled).map Prod.fst

/-! ## Reports -/

/-- The lines printed at an interrupt; `since` tells when a peer has connected. -/
def report (s : State) (since : Nat → String) : List String :=
  s!"{s.peers.size} peer(s) connected, {s.broadcasts} eviction(s) relayed" ::
    (s.peers.report since).map fun line => "  " ++ line

end EvictionBus.Relay.State
