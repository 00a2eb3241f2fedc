import EvictionBus.Address
import EvictionBus.Transport.Error

/-!
# Meshes

A member of a mesh writes every eviction to all other members, each over a connection of its own.
Connections are made with the first frame and kept for the next one, unless a write fails. The
member goes through its list of peers; the connection kept for a peer's address is used by the first
entry with that address, and further entries connect again.
-/

namespace EvictionBus

/-- The outgoing side of a member: its peers, and a connection for each address that it has written
to. Connections are known by numbers. -/
structure MeshLinks where
  peers : List Address
  kept : List (String × Nat)
  deriving DecidableEq, Repr

namespace MeshLinks

def ofPeers (peers : List Address) : MeshLinks := ⟨peers, []⟩

/-- What became of a frame at one peer. -/
inductive Outcome where
  /-- The frame has been written, on the given connection. -/
  | written (connection : Nat)
  /-- Connecting or writing has failed. -/
  | broken (reason : TransportError)
  /-- The transport was closed meanwhile. -/
  | stopped
  deriving DecidableEq, Repr

/-- The connections without the one for an address. -/
def without (target : String) (kept : List (String × Nat)) : List (String × Nat) :=
  kept.filter fun e => e.1 ≠ target

/-- Takes the connection for each address out, at its first occurrence. -/
def takeOut (kept : List (String × Nat)) : List String → List (String × Option Nat)
  | [] => []
  | target :: targets =>
    (target, kept.lookup target) :: takeOut (without target kept) targets

/-- The addresses that a frame is written to, in order, each with the connection to use if there is
one. -/
def plan (m : MeshLinks) : List (String × Option Nat) :=
  takeOut m.kept (m.peers.map Address.socketTarget)

/-- The links while a frame is being written: every connection for a peer is in use. -/
def lent (m : MeshLinks) : MeshLinks :=
  { m with kept := m.kept.filter fun e => e.1 ∉ m.peers.map Address.socketTarget }

/-- Keeps a connection for an address, instead of another. -/
def keep (m : MeshLinks) (target : String) (connection : Nat) : MeshLinks :=
  { m with kept := without target m.kept ++ [(target, connection)] }

/-- Goes through what became of a frame at each peer, in the order of the peers. Written connections
are kept. The frame counts as sent if a peer has taken it or there was nobody to take it. -/
def settle (m : MeshLinks) (delivered : Nat) (failures : List String) :
    List (String × Outcome) → MeshLinks × Except TransportError Unit
  | [] =>
    -- One peer that has the frame makes up for any number of failures.
    if delivered = 0 ∧ failures ≠ [] then
      (m, .error (.communicationBroken (String.intercalate "; " failures)))
    else (m, .ok ())
  | (target, .written connection) :: rest =>
    (m.keep target connection).settle (delivered + 1) failures rest
  | (_, .stopped) :: _ => (m, .error .closed)
  | (target, .broken reason) :: rest =>
    m.settle delivered (failures ++ [s!"{target}: {reason.message}"]) rest

/-- The links after a frame, and the result of sending it. -/
def sent (m : MeshLinks) (outcomes : List (String × Outcome)) :
    MeshLinks × Except TransportError Unit :=
  m.lent.settle 0 [] outcomes

/-! ## Reasons -/

def connectFailed (target : String) (e : IoError) : TransportError :=
  .communicationBroken s!"connect to {target}: {e.message}"

def connectTimedOut (target : String) : TransportError :=
  .communicationBroken s!"connect to {target} timed out"

end MeshLinks

namespace TransportError

def writeFailed (e : IoError) : TransportError :=
  .communicationBroken e.message

/-- Writing to a stream has taken longer than the given time. -/
def writeStalled (millis : Nat) : TransportError :=
  .communicationBroken s!"write stalled for {millis}ms"

end TransportError

end EvictionBus
