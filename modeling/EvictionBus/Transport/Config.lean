import EvictionBus.Transport.Backoff
import EvictionBus.Frame.Header
import EvictionBus.Transport.Kind

/-!
# Transport configuration
-/

namespace EvictionBus

/-- The settings of one transport. Times are in milliseconds. -/
structure TransportConfig where
  kind : TransportKind
  /-- Where to connect or listen; its meaning depends on the kind. -/
  address : Option String
  /-- The name under which a node appears at a relay, or the exchange it uses at a broker. -/
  localPath : Option String
  /-- The other members of a mesh. -/
  peers : List String
  /-- The longest payload, if it is not the kind's own. -/
  maxMessageSize : Option Nat
  receiveTimeout : Nat
  handshakeTimeout : Nat
  closeTimeout : Nat
  sendTimeout : Nat
  /-- How many deliveries a broker sends ahead of their acknowledgements. -/
  prefetch : Nat
  reconnect : Backoff

namespace TransportConfig

def standardMessageSize : Nat := 65000

def standardRelay : String := "127.0.0.1:9999"

def standardBroker : String := "guest:guest@localhost:5672"

/-- The exchange that is used when there is no local path. -/
def standardExchange : String := "l2cache-evictions"

/-- The name given to a relay when there is no local path. -/
def standardAlias : String := "<Localpath>"

/-- The standard settings for a kind. -/
def ofKind (kind : TransportKind) : TransportConfig where
  kind := kind
  address := none
  localPath := none
  peers := []
  maxMessageSize := none
  receiveTimeout := 1000
  handshakeTimeout := 10000
  closeTimeout := 2000
  sendTimeout := 5000
  prefetch := 10
  reconnect := .standard

/-- The standard settings: a relay client. -/
def standard : TransportConfig := ofKind .relay

/-! ## Changing one setting -/

def withAddress (c : TransportConfig) (s : String) : TransportConfig := { c with address := some s }

def withLocalPath (c : TransportConfig) (s : String) : TransportConfig :=
  { c with localPath := some s }

def withPeer (c : TransportConfig) (s : String) : TransportConfig :=
  { c with peers := c.peers ++ [s] }

def withMaxMessageSize (c : TransportConfig) (n : Nat) : TransportConfig :=
  { c with maxMessageSize := some n }

def withReceiveTimeout (c : TransportConfig) (d : Duration) : TransportConfig :=
  { c with receiveTimeout := d.millis64 }

def withHandshakeTimeout (c : TransportConfig) (d : Duration) : TransportConfig :=
  { c with handshakeTimeout := d.millis64 }

def withCloseTimeout (c : TransportConfig) (d : Duration) : TransportConfig :=
  { c with closeTimeout := d.millis64 }

def withSendTimeout (c : TransportConfig) (d : Duration) : TransportConfig :=
  { c with sendTimeout := d.millis64 }

def withPrefetch (c : TransportConfig) (n : Nat) : TransportConfig := { c with prefetch := n }

def withReconnect (c : TransportConfig) (b : Backoff) : TransportConfig := { c with reconnect := b }

/-! ## What follows from the settings -/

/-- The longest payload, if there is a limit: a broker has none of its own. -/
def effectiveMaxMessageSize (c : TransportConfig) : Option Nat :=
  match c.maxMessageSize, c.kind with
  | some n, _ => some n
  | none, .broker => none
  | none, _ => some standardMessageSize

/-- The address that stands in for a missing one. -/
def fallbackAddress : TransportKind → Option String
  | .relay => some standardRelay
  | .broker => some standardBroker
  | .multicast => none
  | .reliableMulticast => none

/-- The configured address, or the kind's own if none is given or it is blank. -/
def endpoint (c : TransportConfig) : Except TransportError Address :=
  -- Only the test for blanks trims here; `Address.parse` trims for itself.
  let given := c.address.filter fun s => !(Text.trim s.toList).isEmpty
  match given <|> fallbackAddress c.kind with
  | some s => (Address.parse s).mapError .ofAddress
  | none => .error (.configuration s!"{c.kind.name} transport requires an address")

def peerEndpoints (c : TransportConfig) : Except TransportError (List Address) :=
  c.peers.mapM fun s => (Address.parse s).mapError .ofAddress

/-- The local path, unless it is empty. -/
def path? (c : TransportConfig) : Option String :=
  c.localPath.filter (· ≠ "")

def relayAlias (c : TransportConfig) : String := c.path?.getD standardAlias

def exchangeName (c : TransportConfig) : String := c.path?.getD standardExchange

/-- The largest message that a transport with these settings reports. The socket transports cannot
exceed what a frame can declare. -/
def reportedMaxMessageSize (c : TransportConfig) : Option Nat :=
  match c.kind with
  | .broker => c.effectiveMaxMessageSize
  | _ => some (min (c.effectiveMaxMessageSize.getD maxPayload) maxPayload)

/-- Equality of settings. -/
def same (a b : TransportConfig) : Bool :=
  a.kind == b.kind && a.address == b.address && a.localPath == b.localPath && a.peers == b.peers &&
    a.maxMessageSize == b.maxMessageSize && a.receiveTimeout == b.receiveTimeout &&
    a.handshakeTimeout == b.handshakeTimeout && a.closeTimeout == b.closeTimeout &&
    a.sendTimeout == b.sendTimeout && a.prefetch == b.prefetch && a.reconnect.same b.reconnect

end TransportConfig

end EvictionBus
