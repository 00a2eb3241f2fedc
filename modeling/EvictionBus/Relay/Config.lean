import EvictionBus.Duration
import EvictionBus.SocketAddress

/-!
# Relay configuration
-/

namespace EvictionBus.Relay

/-- The settings of a relay. -/
structure Config where
  /-- The address that the relay listens on. -/
  bindAddress : SocketAddress
  /-- The longest payload that a peer may send. -/
  maxMessageSize : Nat
  /-- How long a payload may take after its header has arrived. -/
  payloadTimeout : Duration
  /-- How many frames may wait for one peer. -/
  queueDepth : Nat
  /-- The number of interrupts after which the relay stops. -/
  signalCount : Nat
  deriving DecidableEq, Repr

namespace Config

def standardPort : Nat := 9999

/-- The standard settings, for the given address. -/
def ofAddress (address : SocketAddress) : Config where
  bindAddress := address
  maxMessageSize := 65000
  payloadTimeout := .ofMillis 5000
  queueDepth := 1024
  signalCount := 5

/-- The standard settings, on all interfaces. -/
def ofPort (port : Nat) : Config :=
  ofAddress (.ofIpv4 .unspecified port)

def standard : Config :=
  ofPort standardPort

def withMaxMessageSize (c : Config) (n : Nat) : Config := { c with maxMessageSize := n }

def withPayloadTimeout (c : Config) (d : Duration) : Config := { c with payloadTimeout := d }

/-- At least one frame may wait for a peer. -/
def withQueueDepth (c : Config) (n : Nat) : Config := { c with queueDepth := max 1 n }

def withSignalCount (c : Config) (n : Nat) : Config := { c with signalCount := n }

def admits (c : Config) (length : Nat) : Bool :=
  length ≤ c.maxMessageSize

end Config

end EvictionBus.Relay
