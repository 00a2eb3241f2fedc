/-!
# Numbers in any base up to thirty-six

A number is a run of digits, most significant digit first. The letters of both cases stand for the
values from ten on.
-/

namespace EvictionBus.Text

def valueIn? (base : Nat) (c : Char) : Option Nat :=
  let value :=
    if '0' ≤ c ∧ c ≤ '9' then some (c.toNat - '0'.toNat)
    else if 'a' ≤ c ∧ c ≤ 'z' then some (c.toNat - 'a'.toNat + 10)
    else if 'A' ≤ c ∧ c ≤ 'Z' then some (c.toNat - 'A'.toNat + 10)
    else none
  value.filter (· < base)

/-- The number that starts with `n` and goes on with digits. -/
def continueIn? (base n : Nat) : List Char → Option Nat
  | [] => some n
  | c :: s => do continueIn? base (base * n + (← valueIn? base c)) s

def natIn? (base : Nat) (s : List Char) : Option Nat :=
  if s = [] then none else continueIn? base 0 s

end EvictionBus.Text
