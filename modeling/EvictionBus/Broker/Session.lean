import EvictionBus.Bytes
import EvictionBus.Transport.Error

/-!
# Sessions with a broker

A node publishes to one exchange and reads from a queue of its own that is bound to it. Messages
carry the routing key of the node that has published them.
-/

namespace EvictionBus.Broker

/-- Where a node publishes and what it reads. -/
structure Binding where
  exchange : String
  routingKey : String
  /-- How many deliveries may be unacknowledged. -/
  prefetch : Nat
  deriving DecidableEq, Repr

/-- A message in a node's queue. -/
structure Delivery where
  tag : Nat
  routingKey : String
  payload : Bytes
  deriving DecidableEq, Repr

/-- What a node finds when it reads from its queue. -/
inductive Next where
  | delivery (d : Delivery)
  /-- Nothing is there yet. -/
  | pending
  /-- The stream of deliveries is over. -/
  | ended
  | failed (e : TransportError)
  deriving DecidableEq, Repr

end EvictionBus.Broker
