import EvictionBus.Proofs.Relay.Origins

/-!
# Delivery through a relay

In a cluster whose nodes have different identities and one limit, the payloads that a node is handed
from another one are those that the relay has read from that node, from the time when the receiver
was registered: the first ones in order, and all of them when nothing is on its way any more.  No
node is handed what it has sent itself.
-/

namespace EvictionBus

/-! ## Frames as a node reads them -/

namespace Relay

/-- An eviction as another node reads it. -/
def Member.eviction (m : Member) (payload : Bytes) : Frame :=
  ⟨⟨m.identity, .evict, payload.length, false⟩, payload⟩

namespace Cluster

open State Client

variable {ι : Type} {u : Setup ι} {c : Cluster ι}

/-! ## What is handed out -/

/-- The frames whose payloads a node has been handed. -/
def handed (c : Cluster ι) (b : ι) : List Frame :=
  (c.client b).received.filter Frame.handed

/-- One node sends a byte, and the other one reads its frame in two chunks. -/
def exchange : List (Step Bool) :=
  join false ++ join true ++ [.act false (.send [7]), .act false (.write 21), .arrive false 0 21,
    .take true 0, .act true (.forward 21), .act true (.read 5), .act true (.read 16)]

end Cluster

end Relay

end EvictionBus
