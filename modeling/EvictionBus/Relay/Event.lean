import EvictionBus.OpCode
import EvictionBus.Relay.Disconnect
import EvictionBus.Relay.PeerTable

/-!
# The journal of a relay

What a relay reports while it runs: an event has a message and named fields.
-/

namespace EvictionBus.Relay

/-- Something that a relay reports. -/
inductive Event where
  | listening (address : String)
  | accepted (key : Nat) (address : String) (peers : Nat)
  | received (sequence : Nat) (peer : String) (length evictions : Nat)
  /-- An eviction is handed to the other peers. -/
  | sending (sequence size peers : Nat)
  | hello (name : String)
  /-- A frame has arrived that asks for nothing. -/
  | ignored (peer : String) (op : OpCode) (length : Nat)
  | disconnected (key : Nat) (peer : String) (evictions : Nat) (reason : Disconnect)
      (remaining : Nat)
  | shutdownRequested
  | stopped (broadcasts : Nat)
  deriving DecidableEq, Repr

inductive FieldValue where
  | number (n : Nat)
  | text (s : String)
  deriving DecidableEq, Repr

namespace Event

def message : Event → String
  | .listening _ => "relay listening"
  | .accepted .. => "ACCEPTED"
  | .received sequence .. => s!"RECEIVED #{sequence}"
  | .sending sequence .. => s!"SENDING #{sequence}"
  | .hello _ => "HELLO"
  | .ignored _ op length => s!"RECEIVED {op.text} / {length}"
  | .disconnected .. => "DISCONNECTED"
  | .shutdownRequested => "shutdown signal received"
  | .stopped _ => "relay stopped"

def fields : Event → List (String × FieldValue)
  | .listening address => [("addr", .text address)]
  | .accepted key address peers =>
    [("peer", .text address), ("key", .text (keyText key)), ("peers", .number peers)]
  | .received sequence peer length evictions =>
    [("sequence", .number sequence), ("peer", .text peer), ("bytes", .number length),
      ("evictions", .number evictions)]
  | .sending sequence size peers =>
    [("sequence", .number sequence), ("bytes", .number size), ("peers", .number peers)]
  | .hello name => [("peer", .text name)]
  | .ignored peer .. => [("peer", .text peer)]
  | .disconnected _ peer evictions reason remaining =>
    [("peer", .text peer), ("evictions", .number evictions), ("reason", .text reason.message),
      ("remaining", .number remaining)]
  | .shutdownRequested => []
  | .stopped broadcasts => [("broadcasts", .number broadcasts)]

end Event

end EvictionBus.Relay
