import EvictionBus.Frame.Codec
import EvictionBus.Ipv4
import EvictionBus.Transport.Config
import EvictionBus.Transport.Traffic

/-!
# Multicast datagrams

Every eviction is one datagram to a group that all nodes have joined. A datagram that is no frame
is dropped, and a node's own datagrams come back to it.
-/

namespace EvictionBus.Multicast

structure Group where
  address : Ipv4
  port : Nat
  deriving DecidableEq, Repr

def group (c : TransportConfig) : Except TransportError Group := do
  let endpoint ← c.endpoint
  match Ipv4.parse? endpoint.hostName with
  | none => throw (.configuration s!"'{endpoint.host}' is not an IPv4 multicast group")
  | some address =>
    if address.isMulticast then return ⟨address, endpoint.port⟩
    else throw (.configuration s!"{address.text} is not a multicast address")

def maxDatagram : Nat := 65507

def datagram (c : Codec) (payload : Bytes) : Except TransportError Bytes := do
  let frame ← (c.encode .evict payload).mapError .ofFrame
  if frame.length ≤ maxDatagram then return frame
  else throw (.communicationBroken IoError.messageTooLong.message)

/-- Takes in a datagram. -/
def receive (c : Codec) (t : Traffic) (bytes : Bytes) : Traffic :=
  match c.decodeDatagram bytes with
  | .ok f => t.receive f
  | .error _ => t

end EvictionBus.Multicast
