import EvictionBus.Address
import EvictionBus.Frame.Error

/-!
# Errors of transports
-/

namespace EvictionBus

/-- Why a call on a transport failed. -/
inductive TransportError where
  /-- Missing or malformed configuration. -/
  | configuration (reason : String)
  /-- The message broker does not answer or has dropped the connection. -/
  | brokerUnreachable (reason : String)
  /-- The channel to the other members is unusable. -/
  | communicationBroken (reason : String)
  /-- The relay could not be reached or did not answer as it should. -/
  | handshake (reason : String)
  | closed
  /-- No start has succeeded yet. -/
  | notInitialized
  /-- The payload is longer than the transport's largest message. -/
  | payloadTooLarge (length limit : Nat)
  | frame (error : FrameError)
  | io (error : IoError)
  deriving DecidableEq, Repr

namespace TransportError

/-- The text shown for the error. -/
def message : TransportError → String
  | .configuration reason => s!"configuration error: {reason}"
  | .brokerUnreachable reason => s!"broker unreachable: {reason}"
  | .communicationBroken reason => s!"communication broken: {reason}"
  | .handshake reason => s!"handshake failed: {reason}"
  | .closed => "transport is closed"
  | .notInitialized => "transport is not initialized"
  | .payloadTooLarge length limit =>
    s!"payload of {length} bytes exceeds maximum message size of {limit} bytes"
  | .frame error => s!"frame error: {error.message}"
  | .io error => s!"io error: {error.message}"

/-- A malformed address is a malformed configuration. -/
def ofAddress (e : AddressError) : TransportError :=
  .configuration e.message

/-- Payloads that are too long and failures of the stream are errors of the transport itself. -/
def ofFrame : FrameError → TransportError
  | .payloadTooLarge length limit => .payloadTooLarge length limit
  | .io error => .io error
  | error => .frame error

end TransportError

end EvictionBus
