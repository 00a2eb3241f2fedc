import EvictionBus.IoError
import EvictionBus.OpCode

/-!
# Errors of frames
-/

namespace EvictionBus

/-- Why bytes are no frame, or a frame has no bytes. -/
inductive FrameError where
  /-- Fewer bytes than a header, or than the header declares. -/
  | truncated (needed got : Nat)
  /-- A datagram whose payload is not as long as its header declares. -/
  | lengthMismatch (declared received : Nat)
  /-- A payload longer than the limit in force. -/
  | payloadTooLarge (length limit : Nat)
  /-- A code that no byte on the wire stands for. -/
  | invalidOpCode (code : UInt8)
  /-- The stream itself failed. -/
  | io (error : IoError)
  deriving DecidableEq, Repr

namespace FrameError

/-- The text shown for the error. -/
def message : FrameError → String
  | .truncated needed got => s!"frame truncated: needed {needed} bytes, got {got}"
  | .lengthMismatch declared received =>
    s!"length mismatch: header declares {declared} bytes, received {received}"
  | .payloadTooLarge length limit => s!"payload of {length} bytes exceeds limit of {limit} bytes"
  | .invalidOpCode code => s!"opcode {OpCode.hexText code} cannot be encoded"
  | .io error => s!"io error: {error.message}"

end FrameError

end EvictionBus
