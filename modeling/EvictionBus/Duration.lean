/-!
# Durations

A span of time with nanosecond precision. Configurations keep whole milliseconds in 64 bits.
-/

namespace EvictionBus

/-- A span of time. -/
structure Duration where
  seconds : Nat
  nanoseconds : Nat
  deriving DecidableEq, Repr

namespace Duration

def ofMillis (n : Nat) : Duration :=
  ⟨n / 1000, n % 1000 * 1000000⟩

def wholeMillis (d : Duration) : Nat :=
  d.seconds * 1000 + d.nanoseconds / 1000000

/-- The whole milliseconds of a span, modulo `2 ^ 64`. -/
def millis64 (d : Duration) : Nat :=
  d.wholeMillis % UInt64.size

/-- The milliseconds after which a timer for the span goes off: a part of one counts as a whole. -/
def ceilMillis (d : Duration) : Nat :=
  d.seconds * 1000 + (d.nanoseconds + 999999) / 1000000

end Duration

end EvictionBus
