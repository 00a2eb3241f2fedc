import EvictionBus.Json.Record
import EvictionBus.Transport.Backoff

/-!
# Backoff settings in JSON

A value changes the standard settings field by field. A multiplier that is no number is written as
`null`, which cannot be read back.
-/

namespace EvictionBus.Backoff

/-- The settings of a backoff. -/
inductive Field where
  | initialDelay
  | maxDelay
  | multiplier
  | maxAttempts
  deriving DecidableEq, Repr

/-- The settings in order. -/
def format : Json.RecordFormat Field where
  fields := [.initialDelay, .maxDelay, .multiplier, .maxAttempts]
  name
    | .initialDelay => "initial_delay_ms"
    | .maxDelay => "max_delay_ms"
    | .multiplier => "backoff_multiplier"
    | .maxAttempts => "max_attempts"

/-- Changes one setting to the one that a value writes. -/
def set (b : Backoff) (f : Field) (v : Json.Value) : Option Backoff :=
  match f with
  | .initialDelay => (v.natBelow? UInt64.size).map fun n => { b with initialDelay := n }
  | .maxDelay => (v.natBelow? UInt64.size).map fun n => { b with maxDelay := n }
  | .multiplier => v.float?.map fun x => { b with multiplier := x }
  | .maxAttempts =>
    (v.nullOr? (Json.Value.natBelow? UInt32.size)).map fun n => { b with maxAttempts := n }

/-- The standard settings, changed as a value says. -/
def ofValue? (v : Json.Value) : Option Backoff := do
  (← format.given v).foldlM (fun b (f, v) => b.set f v) standard

def toValue (b : Backoff) : Json.Value :=
  format.object fun
    | .initialDelay => .ofNat b.initialDelay
    | .maxDelay => .ofNat b.maxDelay
    | .multiplier => .ofFloat b.multiplier
    | .maxAttempts => .ofOption .ofNat b.maxAttempts

end EvictionBus.Backoff
