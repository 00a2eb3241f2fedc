import EvictionBus.Frame.Codec
import EvictionBus.Text.Utf8
import EvictionBus.Transport.Error

/-!
# Greeting a relay

A client of a relay sends its name and waits for the header of an empty welcome, which is exactly
`headerSize` bytes. What follows them belongs to the stream of frames.
-/

namespace EvictionBus.RelayClient

def hello (c : Codec) (name : String) : Except TransportError Bytes :=
  (c.encode .hello (Text.Utf8.encode name)).mapError .ofFrame

/-- Judges the relay's answer. -/
def checkWelcome (c : Codec) (bytes : Bytes) : Except TransportError Unit := do
  let header ← (c.decodeHeader bytes).mapError .ofFrame
  if header.op = .welcome ∧ header.length = 0 then return ()
  else throw (.handshake
    s!"expected empty Welcome, got {header.op.text} with {header.length} bytes")

/-- Judges the part of the relay's answer that has been received; there is nothing to judge before
the header is complete. -/
def judge (c : Codec) (received : Bytes) : Option (Except TransportError Unit) :=
  if received.length < headerSize then none else some (checkWelcome c received)

theorem length_lt_of_judge {c : Codec} {received : Bytes} (h : judge c received = none) :
    received.length < headerSize := by
  unfold judge at h
  split at h
  · assumption
  · cases h

/-! ## Reasons -/

def connectFailed (target : String) (e : IoError) : TransportError :=
  .handshake s!"cannot connect to {target}: {e.message}"

def helloFailed (e : IoError) : TransportError :=
  .handshake s!"sending hello: {e.message}"

def welcomeFailed (e : IoError) : TransportError :=
  .handshake s!"awaiting welcome: {e.message}"

def timedOut (target : String) : TransportError :=
  .handshake s!"{target} timed out"

end EvictionBus.RelayClient
