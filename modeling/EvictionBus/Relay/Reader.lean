import EvictionBus.Clock
import EvictionBus.Duration
import EvictionBus.Frame.Header
import EvictionBus.Relay.Disconnect

/-!
# Reading frames from a peer

A relay passes frames on byte for byte, so its reader keeps the bytes of a frame together with the
header that they start with. A header may take any time; a payload must be complete within a fixed
time after its header.
-/

namespace EvictionBus.Relay

/-- A frame with its bytes as received. -/
structure RawFrame where
  header : Header
  bytes : Bytes
  deriving DecidableEq

def RawFrame.payload (f : RawFrame) : Bytes :=
  f.bytes.drop headerSize

/-- The conditions under which frames are read: the relay's own identity, the longest payload, and
the time that a payload may take. -/
structure ReadRules where
  me : Identity
  limit : Nat
  timeout : Duration

/-- What has been read of the frame under way, last byte first, and how many bytes are missing. -/
inductive Reader where
  | inHeader (read : Bytes) (missing : Nat)
  | inPayload (header : Header) (read : Bytes) (missing : Nat) (deadline : Nat)

namespace Reader

def start : Reader := .inHeader [] headerSize

/-- What becomes of a reader with one more byte. -/
inductive Progress where
  /-- The frame is not complete yet. -/
  | reading (r : Reader)
  | complete (f : RawFrame)
  /-- The peer is to be dropped. -/
  | refused (reason : Disconnect)

/-- Judges a whole header. A frame without payload is complete with it. -/
def judge (rules : ReadRules) (now : Nat) (bytes : Bytes) : Progress :=
  match Header.decode rules.me bytes with
  | .error e => .refused (.malformed e)
  | .ok header =>
    if rules.limit < header.length then .refused (.oversized header.length rules.limit)
    else if header.length = 0 then .complete ⟨header, bytes⟩
    else
      let deadline := Clock.due now rules.timeout.ceilMillis
      .reading (.inPayload header bytes.reverse header.length deadline)

def push (rules : ReadRules) (now : Nat) (b : UInt8) : Reader → Progress
  | .inHeader read missing =>
    if 1 < missing then .reading (.inHeader (b :: read) (missing - 1))
    else judge rules now (b :: read).reverse
  | .inPayload header read missing deadline =>
    if 1 < missing then .reading (.inPayload header (b :: read) (missing - 1) deadline)
    else .complete ⟨header, (b :: read).reverse⟩

/-- Reads bytes that arrive at one time: the frames that they complete, and the reader after them or
the reason to stop. -/
def feed (rules : ReadRules) (now : Nat) :
    Reader → Bytes → List RawFrame × Except Disconnect Reader
  | r, [] => ([], .ok r)
  | r, b :: bs =>
    match r.push rules now b with
    | .reading r => feed rules now r bs
    | .complete f =>
      let (fs, outcome) := feed rules now start bs
      (f :: fs, outcome)
    | .refused reason => ([], .error reason)

/-- Why the peer is dropped when the stream ends. -/
def atEnd : Reader → Disconnect
  | .inHeader .. => .closed
  | .inPayload header .. => .truncated header.length

/-- When the payload under way must be complete. -/
def deadline? : Reader → Option Nat
  | .inHeader .. => none
  | .inPayload _ _ _ deadline => some deadline

/-- Why the peer is dropped at a time, if its payload is late. -/
def late? (rules : ReadRules) (now : Nat) : Reader → Option Disconnect
  | .inHeader .. => none
  | .inPayload header _ _ deadline =>
    if deadline ≤ now then
      some (.payloadTimeout header.length (min rules.timeout.wholeMillis (UInt64.size - 1)))
    else none

end Reader

end EvictionBus.Relay
