import EvictionBus.Relay.Server

/-!
# Runs of a relay

An input is one thing that happens to a relay from outside, and a run is any sequence of inputs with
the times at which they happen. The program and the proofs about runs share this one transition
function.
-/

namespace EvictionBus.Relay

/-- What happens to a relay from outside. -/
inductive Input where
  | connected (address : String)
  | arrived (key : Nat) (bytes : Bytes)
  /-- A peer has ended its side of the connection. -/
  | ended (key : Nat)
  | readFailed (key : Nat) (error : IoError)
  /-- A timer for the payload of a peer goes off. -/
  | timer (key : Nat)
  /-- The writer of a connection asks for its next frame. -/
  | taken (key : Nat)
  | writeFailed (key : Nat) (error : IoError)
  | writerStopped (key : Nat)
  /-- The relay is told to stop. -/
  | shutDown
  deriving DecidableEq, Repr

namespace State

/-- The state after an input at time `now`. A relay that has been told to stop accepts nobody. -/
def after (s : State) (now : Nat) : Input → State
  | .connected address => if s.stopping then s else (s.accept address).2
  | .arrived key bytes => s.receive now key bytes
  | .ended key => s.inputEnded key
  | .readFailed key e => s.inputFailed key e
  | .timer key => s.checkDeadline now key
  | .taken key => (s.takeOutbound key).2
  | .writeFailed key e => s.outputFailed key e
  | .writerStopped key => (s.dropQueue key).2
  | .shutDown => s.shutDown

/-- The state after inputs one after another. -/
def run (s : State) : List (Nat × Input) → State
  | [] => s
  | (now, input) :: inputs => (s.after now input).run inputs

theorem run_append (s : State) (first second : List (Nat × Input)) :
    s.run (first ++ second) = (s.run first).run second := by
  induction first generalizing s with
  | nil => rfl
  | cons i first ih =>
    obtain ⟨now, input⟩ := i
    exact ih (s.after now input)

end State

end EvictionBus.Relay
