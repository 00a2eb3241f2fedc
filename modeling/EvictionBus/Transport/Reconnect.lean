import EvictionBus.Clock
import EvictionBus.Transport.Backoff

/-!
# Connecting again

A search for a connection is a series of calls. After a failed call it waits, as long as the backoff
says for the number of the call, or gives up. The number is counted in 32 bits.

`Search` is the state between two events; `run` plays a search against scripted calls on a virtual
clock.
-/

namespace EvictionBus

def Backoff.delayAfter (b : Backoff) (call : Nat) : Nat :=
  b.delay (UInt32.ofNat call)

def Backoff.mayFollow (b : Backoff) (call : Nat) : Bool :=
  b.mayRetry (UInt32.ofNat call)

inductive Search where
  /-- The call of the given number is under way; calls are numbered from one. -/
  | calling (call : Nat)
  /-- The call of the given number has failed, and the next one is waited for. -/
  | waiting (call : Nat)
  /-- There will be no further call. -/
  | gaveUp
  deriving DecidableEq, Repr

namespace Search

def start : Search := .calling 1

def afterFailure (b : Backoff) (call : Nat) : Search :=
  if b.mayFollow call then .waiting call else .gaveUp

/-! ## Searches on a virtual clock -/

/-- A scripted call: how long it takes, and its result. -/
structure Call (α ε : Type) where
  takes : Nat
  result : Except ε α

/-- How a search ends. -/
inductive Outcome (α ε : Type) where
  | connected (a : α)
  /-- The last call that was allowed has failed. -/
  | gaveUp (e : ε)
  | cancelled
  deriving DecidableEq, Repr

/-- A search so far: the start of each call and, once it has ended, its outcome and the time of its
end. -/
structure Run (α ε : Type) where
  calls : List Nat
  ended : Option (Outcome α ε × Nat)
  deriving DecidableEq, Repr

variable {α ε : Type}

/-- The search with a call before it. -/
def Run.after (now : Nat) (r : Run α ε) : Run α ε := { r with calls := now :: r.calls }

/-- Whether a search is cancelled before a time. What is due at the time of the cancellation still
happens. -/
def cancelledBefore (cancelAt : Option Nat) (time : Nat) : Option Nat :=
  cancelAt.filter (· < time)

/-- A search from the given call on, which starts at `now`. It is followed for as many calls as the
fuel says. -/
def runFrom (b : Backoff) (script : Nat → Call α ε) (cancelAt : Option Nat) :
    (fuel call now : Nat) → Run α ε
  | 0, _, _ => ⟨[], none⟩
  | fuel + 1, call, now =>
    let done := now + (script call).takes
    match cancelledBefore cancelAt done with
    | some t => ⟨[now], some (.cancelled, t)⟩
    | none =>
      match (script call).result with
      | .ok a => ⟨[now], some (.connected a, done)⟩
      | .error e =>
        match afterFailure b call with
        | .gaveUp => ⟨[now], some (.gaveUp e, done)⟩
        | _ =>
          let resumed := Clock.due done (b.delayAfter call)
          match cancelledBefore cancelAt resumed with
          | some t => ⟨[now], some (.cancelled, t)⟩
          | none => (runFrom b script cancelAt fuel (call + 1) resumed).after now

/-- A search that starts at time zero. -/
def run (b : Backoff) (script : Nat → Call α ε) (cancelAt : Option Nat) (fuel : Nat) : Run α ε :=
  runFrom b script cancelAt fuel 1 0

/-- The call of a given number in a list of calls, the last of which repeats. -/
def repeatLast (first : Call α ε) (rest : List (Call α ε)) (call : Nat) : Call α ε :=
  (first :: rest).getD (call - 1) (rest.getLastD first)

/-- A call whose end comes from a timer. -/
def Call.timed (c : Call α ε) : Call α ε := { c with takes := Clock.due 0 c.takes }

/-- A whole search against a list of calls. Calls and the cancellation are ended by timers. The fuel
suffices unless the search makes calls for ever or takes no time. -/
def runList (b : Backoff) (first : Call α ε) (rest : List (Call α ε)) (cancelAt : Option Nat) :
    Run α ε :=
  run b (fun call => (repeatLast first rest call).timed) (cancelAt.map (Clock.due 0))
    (rest.length + cancelAt.getD 0 + b.maxAttempts.getD 0 + 2)

end Search

end EvictionBus
