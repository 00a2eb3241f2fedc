import EvictionBus.Frame.Error
import EvictionBus.SocketAddress

/-!
# Why a relay fails, and why it drops a peer
-/

namespace EvictionBus.Relay

/-- Why a relay does not start or does not go on. -/
inductive Failure where
  | bindFailed (address : SocketAddress) (error : IoError)
  | frame (error : FrameError)
  | io (error : IoError)
  deriving DecidableEq, Repr

namespace Failure

/-- The text shown for the failure. -/
def message : Failure → String
  | .bindFailed address error => s!"failed to bind to {address.text}: {error.message}"
  | .frame error => s!"frame error: {error.message}"
  | .io error => s!"io error: {error.message}"

end Failure

/-- Why a peer is dropped. -/
inductive Disconnect where
  /-- The peer has closed the connection between two frames or inside a header. -/
  | closed
  | io (error : IoError)
  /-- A header declares a payload above the limit. -/
  | oversized (length limit : Nat)
  /-- The peer has closed the connection inside a payload. -/
  | truncated (length : Nat)
  | malformed (error : FrameError)
  | payloadTimeout (length timeout : Nat)
  /-- The peer does not take its frames fast enough. -/
  | slowConsumer
  /-- Nobody takes the peer's frames any more. -/
  | queueClosed
  /-- The relay itself stops. -/
  | shutdown
  deriving DecidableEq, Repr

namespace Disconnect

/-- The text shown for the reason. -/
def message : Disconnect → String
  | .closed => "connection closed by peer"
  | .io error => s!"socket error: {error.message}"
  | .oversized length limit => s!"payload of {length} bytes exceeds limit of {limit}"
  | .truncated length => s!"connection closed inside a {length} byte payload"
  | .malformed error => s!"malformed frame: {error.message}"
  | .payloadTimeout length timeout => s!"payload of {length} bytes not received within {timeout}ms"
  | .slowConsumer => "outbound queue full"
  | .queueClosed => "outbound queue closed"
  | .shutdown => "relay shutting down"

end Disconnect

end EvictionBus.Relay
