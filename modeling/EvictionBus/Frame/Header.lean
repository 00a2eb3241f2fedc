import EvictionBus.Frame.Error
import EvictionBus.Identity

/-!
# Frame headers

A frame is a header of twenty bytes and a payload. The header holds the sender's identity, one byte
for the operation and the length of the payload in three bytes, least significant first.

`putHeader` and `encodeFrame` write, `Header.decode` reads.  `writeHeader` writes into a buffer that is
kept from one call to the next.
-/

namespace EvictionBus

def headerSize : Nat := 20

def maxPayload : Nat := 0xffffff

/-- What a header says, as seen by one receiver. -/
structure Header where
  sender : Identity
  op : OpCode
  length : Nat
  /-- Whether the sender is the receiver itself. -/
  sentByMe : Bool
  deriving DecidableEq

namespace Header

def frameSize (h : Header) : Nat :=
  headerSize + h.length

/-- The bytes of a header; of the length the low 24 bits are kept. -/
def bytes (sender : Identity) (op : OpCode) (length : Nat) : Bytes :=
  sender.bytes ++ op.toWire :: Bytes.ofNat24 length

theorem length_bytes (sender : Identity) (op : OpCode) (length : Nat) :
    (bytes sender op length).length = headerSize := by
  simp [bytes, sender.length_bytes, headerSize]

/-- Reads a header at the front of a byte string, for the receiver `me`. -/
def decode (me : Identity) (bs : Bytes) : Except FrameError Header :=
  match Identity.ofPrefix? bs, bs.drop Identity.size with
  | some sender, op :: b₀ :: b₁ :: b₂ :: _ =>
    .ok ⟨sender, .ofWire op, Bytes.toNat24 b₀ b₁ b₂, sender = me⟩
  | _, _ => .error (.truncated headerSize bs.length)

end Header

/-- Appends a header to `out`. A code that cannot be written is reported before a length that
cannot. -/
def putHeader (out : Bytes) (sender : Identity) (op : OpCode) (length : Nat) :
    Except FrameError Bytes :=
  if ¬ op.isEncodable then .error (.invalidOpCode op.code)
  else if maxPayload < length then .error (.payloadTooLarge length maxPayload)
  else .ok (out ++ Header.bytes sender op length)

def encodeFrame (sender : Identity) (op : OpCode) (payload : Bytes) : Except FrameError Bytes :=
  (putHeader [] sender op payload.length).map (· ++ payload)

/-! ## Writing into a buffer in place -/

/-- Writes bytes behind what the buffer holds. -/
def writeBytes (bs : Bytes) : ExceptT FrameError (StateM Bytes) Unit :=
  modify (· ++ bs)

/-- Writes a header into the buffer, first the sender and then the operation with the length. -/
def writeHeader (sender : Identity) (op : OpCode) (length : Nat) :
    ExceptT FrameError (StateM Bytes) Unit := do
  if ¬ op.isEncodable then throw (.invalidOpCode op.code)
  if maxPayload < length then throw (.payloadTooLarge length maxPayload)
  writeBytes sender.bytes
  writeBytes (op.toWire :: Bytes.ofNat24 length)

/-! ## Frames -/

structure Frame where
  header : Header
  payload : Bytes
  deriving DecidableEq

end EvictionBus
