import EvictionBus.Frame.Stream

/-!
# What a node sends and receives

A node counts the evictions that it sends and receives, and hands the received ones to its owner.
Frames that a node has sent itself come back on some transports; they are counted and dropped.
-/

namespace EvictionBus

/-- The counters of a node, and the payloads handed to its owner, in order. -/
structure Traffic where
  sent : Nat
  received : Nat
  selfEchoes : Nat
  delivered : List Bytes
  deriving DecidableEq, Repr

namespace Traffic

def start : Traffic := ⟨0, 0, 0, []⟩

def countSent (t : Traffic) : Traffic :=
  { t with sent := t.sent + 1 }

def deliver (t : Traffic) (payload : Bytes) : Traffic :=
  { t with received := t.received + 1, delivered := t.delivered ++ [payload] }

def echo (t : Traffic) : Traffic :=
  { t with selfEchoes := t.selfEchoes + 1 }

/-- Takes in a frame: an eviction of another node is delivered, other frames are not. -/
def receive (t : Traffic) (f : Frame) : Traffic :=
  if f.header.sentByMe then t.echo
  else match f.header.op with
    | .evict => t.deliver f.payload
    | _ => t

/-- Takes in what a reader yields; an error is no frame. -/
def receiveItems (t : Traffic) (items : List FrameItem) : Traffic :=
  items.foldl (fun t item =>
    match item with
    | .ok f => t.receive f
    | .error _ => t) t

theorem sent_receive (t : Traffic) (f : Frame) : (t.receive f).sent = t.sent := by
  unfold receive
  split
  · rfl
  · split <;> rfl

theorem sent_receiveItems (t : Traffic) (items : List FrameItem) :
    (t.receiveItems items).sent = t.sent := by
  unfold receiveItems
  induction items generalizing t with
  | nil => rfl
  | cons item items ih =>
    rw [List.foldl_cons, ih]
    cases item with
    | ok f => exact t.sent_receive f
    | error _ => rfl

theorem received_receive (t : Traffic) (f : Frame) :
    (t.receive f).received + t.delivered.length =
      (t.receive f).delivered.length + t.received := by
  unfold receive
  split
  · exact Nat.add_comm _ _
  · split
    · simp only [deliver, List.length_append, List.length_singleton]
      omega
    · exact Nat.add_comm _ _

end Traffic

end EvictionBus
