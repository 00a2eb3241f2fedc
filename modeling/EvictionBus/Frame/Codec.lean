import EvictionBus.Frame.Header

/-!
# The frame codec

A codec belongs to one node. It stamps outgoing frames with the node's identity, recognises the
node's own frames on the way in, and enforces one payload limit in both directions.

Frames are written as byte strings of their own by `encode`, behind another byte string by `append`,
and by `writeFrame` into a buffer that is kept from one call to the next.

Incoming bytes are read in two ways: `decodeDatagram` takes a byte string for one whole frame, and
`decode` takes the first frame off the front of a buffer, if the buffer holds all of it.  `takeFrame`
does the same to a buffer that is kept from one call to the next.
-/

namespace EvictionBus

/-- A node's identity and payload limit. -/
structure Codec where
  identity : Identity
  limit : Nat
  limit_le : limit ≤ maxPayload
  deriving DecidableEq

namespace Codec

/-- The codec of a node, with the largest limit. -/
def ofIdentity (id : Identity) : Codec :=
  ⟨id, maxPayload, Nat.le_refl _⟩

/-- The codec with the limit `n`, or the largest limit if `n` exceeds it. -/
def withLimit (c : Codec) (n : Nat) : Codec :=
  { c with limit := min n maxPayload, limit_le := Nat.min_le_right _ _ }

def checkLength (c : Codec) (length : Nat) : Except FrameError Unit :=
  if length ≤ c.limit then .ok () else .error (.payloadTooLarge length c.limit)

/-! ## Writing -/

def encode (c : Codec) (op : OpCode) (payload : Bytes) : Except FrameError Bytes := do
  c.checkLength payload.length
  encodeFrame c.identity op payload

/-- Appends a frame to `out`. -/
def append (c : Codec) (out : Bytes) (op : OpCode) (payload : Bytes) : Except FrameError Bytes := do
  c.checkLength payload.length
  let out ← putHeader out c.identity op payload.length
  return out ++ payload

/-- Writes a frame into the buffer, first the header and then the payload. -/
def writeFrame (c : Codec) (op : OpCode) (payload : Bytes) :
    ExceptT FrameError (StateM Bytes) Unit := do
  c.checkLength payload.length
  writeHeader c.identity op payload.length
  writeBytes payload

/-! ## Reading -/

/-- Reads a header, with no limit on the length that it declares. -/
def decodeHeader (c : Codec) (bs : Bytes) : Except FrameError Header :=
  Header.decode c.identity bs

/-- Reads a byte string that must be one whole frame. -/
def decodeDatagram (c : Codec) (bs : Bytes) : Except FrameError Frame := do
  let header ← c.decodeHeader bs
  c.checkLength header.length
  let payload := bs.drop headerSize
  if payload.length = header.length then
    return ⟨header, payload⟩
  else
    throw (.lengthMismatch header.length payload.length)

/-- The first frame in a buffer and the bytes after it. There is none while the buffer holds only a
part of a frame; a header that declares too much is an error as soon as it is complete. -/
def decode (c : Codec) (buffer : Bytes) : Except FrameError (Option (Frame × Bytes)) :=
  match c.decodeHeader (buffer.take headerSize) with
  | .error _ => .ok none
  | .ok header =>
    match c.checkLength header.length with
    | .error e => .error e
    | .ok () =>
      -- Only the first part of a long buffer is looked at, so that its length need not be counted.
      let payload := (buffer.drop headerSize).take header.length
      if payload.length < header.length then .ok none
      else .ok (some (⟨header, payload⟩, buffer.drop header.frameSize))

/-- The number of bytes that the frame at the front of a buffer needs, as far as it can be told. -/
def needed (c : Codec) (buffer : Bytes) : Nat :=
  match c.decodeHeader (buffer.take headerSize) with
  | .ok header => header.frameSize
  | .error _ => headerSize

/-- `decode` on a buffer to which nothing will be added: a rest that is no frame is an error. -/
def decodeFinal (c : Codec) (buffer : Bytes) : Except FrameError (Option (Frame × Bytes)) :=
  match c.decode buffer with
  | .error e => .error e
  | .ok (some found) => .ok (some found)
  | .ok none =>
    if buffer = [] then .ok none
    else .error (.truncated (c.needed buffer) buffer.length)

/-! ## Reading from a buffer in place -/

/-- Takes the first frame out of the buffer, if the buffer holds all of it. -/
def takeFrame (c : Codec) : ExceptT FrameError (StateM Bytes) (Option Frame) := do
  let buffer ← get
  if buffer.length < headerSize then return none
  let header ← c.decodeHeader buffer
  c.checkLength header.length
  if buffer.length < header.frameSize then return none
  modify (·.drop headerSize)
  let payload ← modifyGet (·.splitAt header.length)
  return some ⟨header, payload⟩

/-- `takeFrame` on a buffer to which nothing will be added: a rest that is no frame is an error. -/
def takeFinal (c : Codec) : ExceptT FrameError (StateM Bytes) (Option Frame) := do
  if let some f ← c.takeFrame then return some f
  let buffer ← get
  if buffer = [] then return none
  else throw (.truncated (c.needed buffer) buffer.length)

/-! ## Less is left over -/

theorem length_rest_of_decode {c : Codec} {buffer rest : Bytes} {f : Frame}
    (h : c.decode buffer = .ok (some (f, rest))) : rest.length < buffer.length := by
  unfold decode at h
  split at h
  · cases h
  · rename_i header hh
    split at h
    · cases h
    · dsimp only at h
      split at h
      · cases h
      · simp only [Except.ok.injEq, Option.some.injEq, Prod.mk.injEq] at h
        obtain ⟨-, rfl⟩ := h
        have hpos : buffer ≠ [] := by
          rintro rfl
          simp [decodeHeader, Header.decode, Identity.ofPrefix?, Identity.size] at hh
        have := List.length_pos_iff.2 hpos
        simp only [List.length_drop, Header.frameSize, headerSize]
        omega

theorem length_rest_of_decodeFinal {c : Codec} {buffer rest : Bytes} {f : Frame}
    (h : c.decodeFinal buffer = .ok (some (f, rest))) : rest.length < buffer.length := by
  unfold decodeFinal at h
  split at h
  · cases h
  · rename_i found hd
    cases h
    exact length_rest_of_decode hd
  · split at h <;> cases h

end Codec

end EvictionBus
