import EvictionBus.Bytes

/-!
# Outbound queues

Frames wait for a peer in a queue of fixed depth. A queue never makes its writers wait: a frame that
it cannot take is refused at once.
-/

namespace EvictionBus.Relay

inductive QueueReader where
  /-- Takes frames. -/
  | reading
  /-- Takes the frames that are there and admits no more. -/
  | closing
  /-- Is gone, and the frames with it. -/
  | gone
  deriving DecidableEq, Repr

/-- The frames that wait for one peer. -/
structure Queue where
  depth : Nat
  frames : List Bytes
  reader : QueueReader
  depth_pos : 0 < depth
  length_le : frames.length ≤ depth

/-- Why a queue does not take a frame. -/
inductive Refusal where
  | full
  | closed
  deriving DecidableEq, Repr

/-- What a reader finds. -/
inductive Taken where
  | frame (bytes : Bytes)
  /-- Nothing is there yet. -/
  | empty
  /-- Nothing is there, and nothing will come. -/
  | closed
  deriving DecidableEq, Repr

namespace Queue

/-- An empty queue; it holds at least one frame. -/
def ofDepth (depth : Nat) : Queue :=
  ⟨max 1 depth, [], .reading, by omega, Nat.zero_le _⟩

/-- Adds a frame at the end. That nobody reads is noticed before that there is no room. -/
def push (q : Queue) (bytes : Bytes) : Except Refusal Queue :=
  -- A queue that nobody reads is closed, however much room it has.
  if q.reader = .reading then
    if h : q.frames.length < q.depth then
      .ok { q with frames := q.frames ++ [bytes], length_le := by rw [List.length_append]; exact h }
    else .error .full
  else .error .closed

/-- Takes the first frame; `live` says whether anybody can still write. -/
def take (q : Queue) (live : Bool) : Taken × Queue :=
  match h : q.frames with
  | bytes :: rest =>
    (.frame bytes, { q with
      frames := rest
      length_le := by have := q.length_le; simp [h] at this; omega })
  | [] => (if live ∧ q.reader = .reading then .empty else .closed, q)

def close (q : Queue) : Queue :=
  { q with reader := if q.reader = .gone then .gone else .closing }

def drop (q : Queue) : Queue :=
  { q with frames := [], reader := .gone, length_le := Nat.zero_le _ }

theorem frames_push {q r : Queue} {bytes : Bytes} (h : q.push bytes = .ok r) :
    r.frames = q.frames ++ [bytes] := by
  unfold push at h
  split at h
  · split at h
    · cases h; rfl
    · cases h
  · cases h

end Queue

end EvictionBus.Relay
