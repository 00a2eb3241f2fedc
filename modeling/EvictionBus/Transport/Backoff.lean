import EvictionBus.Duration

/-!
# Exponential backoff

After a failed attempt a transport waits before the next one. The wait grows by a constant factor
with each attempt, up to a bound.

Attempts are counted in 32 bits. The factor is raised to the number of the attempt less one, taken
as a signed 32-bit number.
-/

namespace EvictionBus

/-- How a lost connection is established again. -/
structure Backoff where
  /-- The wait after the first failed attempt, in milliseconds. -/
  initialDelay : Nat
  /-- The longest wait, in milliseconds. -/
  maxDelay : Nat
  /-- The factor by which waits grow. -/
  multiplier : Float
  /-- The number of attempts after which no further one is made. -/
  maxAttempts : Option Nat

namespace Backoff

/-- One second, doubled up to thirty, without end. -/
def standard : Backoff :=
  ⟨1000, 30000, 2.0, none⟩

def withInitialDelay (b : Backoff) (d : Duration) : Backoff := { b with initialDelay := d.millis64 }

def withMaxDelay (b : Backoff) (d : Duration) : Backoff := { b with maxDelay := d.millis64 }

def withMaxAttempts (b : Backoff) (n : Option Nat) : Backoff := { b with maxAttempts := n }

/-- Equality of settings, where multipliers are compared as numbers. -/
def same (a b : Backoff) : Bool :=
  a.initialDelay == b.initialDelay && a.maxDelay == b.maxDelay &&
    a.multiplier == b.multiplier && a.maxAttempts == b.maxAttempts

/-! ## Delays -/

/-- `result * base ^ n` by repeated squaring. -/
def powerBySquaring (result base : Float) (n : Nat) : Float :=
  let result := if n % 2 = 1 then result * base else result
  if n / 2 = 0 then result else powerBySquaring result (base * base) (n / 2)
termination_by n
decreasing_by omega

/-- An integer power; a negative exponent inverts the power of its magnitude. -/
def power (base : Float) (exponent : Int) : Float :=
  let p := powerBySquaring 1.0 base exponent.natAbs
  if exponent < 0 then 1.0 / p else p

/-- The exponent of the multiplier after the given attempt: one less than its number, as a signed
32-bit number. -/
def exponent (attempt : UInt32) : Int :=
  ((attempt.toNat - 1 : Nat) : Int).bmod UInt32.size

/-- The wait after the given attempt has failed, in milliseconds. -/
def delay (b : Backoff) (attempt : UInt32) : Nat :=
  let factor := power b.multiplier (exponent attempt)
  let millis := (UInt64.ofNat b.initialDelay).toFloat * factor
  -- The conversion saturates at both ends, and what is no number becomes zero.
  min millis.toUInt64.toNat b.maxDelay

/-- Whether another attempt may follow the given one. -/
def mayRetry (b : Backoff) (attempt : UInt32) : Bool :=
  match b.maxAttempts with
  | some n => attempt.toNat < n
  | none => true

theorem delay_le_maxDelay (b : Backoff) (attempt : UInt32) : b.delay attempt ≤ b.maxDelay :=
  Nat.min_le_right _ _

end Backoff

end EvictionBus
