import EvictionBus.Bytes
import EvictionBus.IoError

/-!
# Streams

A connection has two sides and a pipe in each direction. A pipe takes bytes while it has room. When
its reader is gone one more write seems to succeed and is lost; the next one fails.
-/

namespace EvictionBus.Net

/-- One direction of a connection. -/
structure Pipe where
  unread : Bytes
  /-- Whether the writer has ended it. -/
  ended : Bool
  /-- Whether the reader is gone. -/
  deaf : Bool
  /-- Whether a write has been lost. -/
  lossy : Bool
  deriving DecidableEq, Repr

namespace Pipe

/-- The number of bytes that wait in a pipe before its writer has to. -/
def capacity : Nat := 0x400000

def empty : Pipe := ⟨[], false, false, false⟩

/-- Writes as much as there is room for, and gives the rest. -/
def write (p : Pipe) (bytes : Bytes) : Except IoError (Bytes × Pipe) :=
  if p.deaf then
    if p.lossy then .error .brokenPipe else .ok ([], { p with lossy := true })
  else
    let room := capacity - p.unread.length
    .ok (bytes.drop room, { p with unread := p.unread ++ bytes.take room })

/-- Reads at most `n` bytes. -/
def read (p : Pipe) (n : Nat) : Bytes × Pipe :=
  (p.unread.take n, { p with unread := p.unread.drop n })

/-- Whether nothing is left and nothing will come. -/
def atEnd (p : Pipe) : Bool :=
  p.ended && p.unread.isEmpty

def finish (p : Pipe) : Pipe := { p with ended := true }

/-- The reader goes away. -/
def deafen (p : Pipe) : Pipe := { p with unread := [], deaf := true }

end Pipe

/-- The two sides of a connection. -/
inductive Side where
  | dialer
  | acceptor
  deriving DecidableEq, Repr

def Side.other : Side → Side
  | .dialer => .acceptor
  | .acceptor => .dialer

/-- A connection: the pipe that each side writes to. -/
structure Stream where
  fromDialer : Pipe
  fromAcceptor : Pipe
  deriving DecidableEq, Repr

namespace Stream

def empty : Stream := ⟨.empty, .empty⟩

def pipe (s : Stream) : Side → Pipe
  | .dialer => s.fromDialer
  | .acceptor => s.fromAcceptor

def setPipe (s : Stream) (p : Pipe) : Side → Stream
  | .dialer => { s with fromDialer := p }
  | .acceptor => { s with fromAcceptor := p }

def finish (s : Stream) (side : Side) : Stream :=
  s.setPipe (s.pipe side).finish side

/-- A side goes away altogether. -/
def abandon (s : Stream) (side : Side) : Stream :=
  let s := s.finish side
  s.setPipe (s.pipe side.other).deafen side.other

end Stream

end EvictionBus.Net
