import EvictionBus.Frame.Codec

/-!
# Frames on a byte stream

A stream delivers bytes in chunks that know nothing of frames. A `FrameReader` keeps the bytes that
are not yet a whole frame and yields each frame with the chunk that completes it. It stops for good
at the first error.
-/

namespace EvictionBus

namespace Codec

/-- All frames at the front of a buffer, and either the bytes after them, which hold no whole frame,
or the error that comes next. -/
def drain (c : Codec) (buffer : Bytes) : List Frame × Except FrameError Bytes :=
  match h : c.decode buffer with
  | .error e => ([], .error e)
  | .ok none => ([], .ok buffer)
  | .ok (some (f, rest)) =>
    have := length_rest_of_decode h
    let (fs, outcome) := drain c rest
    (f :: fs, outcome)
termination_by buffer.length

/-- All frames of a buffer to which nothing will be added, and the error that ends them if the
buffer is not made of whole frames. -/
def drainFinal (c : Codec) (buffer : Bytes) : List Frame × Option FrameError :=
  match h : c.decodeFinal buffer with
  | .error e => ([], some e)
  | .ok none => ([], none)
  | .ok (some (f, rest)) =>
    have := length_rest_of_decodeFinal h
    let (fs, outcome) := drainFinal c rest
    (f :: fs, outcome)
termination_by buffer.length

end Codec

/-- What a reader yields: frames, and at most one error at the end. -/
abbrev FrameItem := Except FrameError Frame

inductive FrameReader where
  /-- The bytes received that are not yet a whole frame. -/
  | reading (pending : Bytes)
  /-- The stream is over or has failed. -/
  | stopped
  deriving DecidableEq

namespace FrameReader

def start : FrameReader := .reading []

def feed (c : Codec) (chunk : Bytes) : FrameReader → FrameReader × List FrameItem
  | .stopped => (.stopped, [])
  | .reading pending =>
    match c.drain (pending ++ chunk) with
    | (fs, .ok rest) => (.reading rest, fs.map .ok)
    | (fs, .error e) => (.stopped, fs.map .ok ++ [.error e])

/-- Takes the end of the stream. -/
def finish (c : Codec) : FrameReader → FrameReader × List FrameItem
  | .stopped => (.stopped, [])
  | .reading pending =>
    let (fs, failure) := c.drainFinal pending
    (.stopped, fs.map .ok ++ (failure.toList.map .error))

def fail (e : IoError) : FrameReader → FrameReader × List FrameItem
  | .stopped => (.stopped, [])
  | .reading _ => (.stopped, [.error (.io e)])

end FrameReader

/-- What a stream delivers at one time. -/
inductive Arrival where
  | chunk (bytes : Bytes)
  | failure (error : IoError)
  deriving DecidableEq, Repr

/-- Everything that a reader in state `r` yields for the rest of a stream. -/
def FrameReader.run (c : Codec) : FrameReader → List Arrival → List FrameItem
  | r, [] => (r.finish c).2
  | r, .chunk bytes :: arrivals =>
    let (r, items) := r.feed c bytes
    items ++ run c r arrivals
  | r, .failure e :: arrivals =>
    let (r, items) := r.fail e
    items ++ run c r arrivals

/-- The frames, and the error if there is one, on a whole stream. -/
def readStream (c : Codec) (arrivals : List Arrival) : List FrameItem :=
  FrameReader.start.run c arrivals

end EvictionBus
