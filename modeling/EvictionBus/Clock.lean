/-!
# Clocks and timers

A clock counts milliseconds. A timer goes off when its time has been reached, and no timer runs for
longer than thirty years.
-/

namespace EvictionBus.Clock

/-- The longest time that a timer runs: thirty years of 365 days, in milliseconds. -/
def longestWait : Nat := 946080000000

/-- When a timer that is set at a time goes off. -/
def due (now millis : Nat) : Nat :=
  now + min millis longestWait

theorem due_of_le {millis : Nat} (h : millis ≤ longestWait) (now : Nat) :
    due now millis = now + millis := by
  rw [due, Nat.min_eq_left h]

end EvictionBus.Clock
