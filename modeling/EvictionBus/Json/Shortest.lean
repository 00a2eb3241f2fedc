import EvictionBus.Json.Value

/-!
# The shortest decimal of a floating-point number

A finite number is written with the fewest digits that are nearer to it than to any other
floating-point number, and of those with the digits nearest to it. The search is in exact integer
arithmetic.
-/

namespace EvictionBus.Json

/-- The number of values of the 52 bits after the leading one of a significand. -/
def fractionSize : Nat := 0x10000000000000

/-- The number of values of the eleven bits of an exponent. -/
def exponentSize : Nat := 2048

/-- A positive floating-point number as an exact fraction, with the fractions halfway to its two
neighbours. All three have the same denominator. -/
structure Surroundings where
  low : Nat
  value : Nat
  high : Nat
  denominator : Nat
  /-- Whether the halfway points themselves are read back as the number. -/
  closed : Bool

namespace Surroundings

/-- The surroundings of the positive number with the given bits. -/
def ofBits (bits : Nat) : Surroundings :=
  let fraction := bits % fractionSize
  let biased := bits / fractionSize % exponentSize
  let significand := if biased = 0 then fraction else fraction + fractionSize
  let exponent : Int := (if biased = 0 then 1 else biased : Nat) - 1077
  let below := if fraction = 0 ∧ 1 < biased then 1 else 2
  let up := Nat.pow 2 exponent.toNat
  ⟨(4 * significand - below) * up, 4 * significand * up, (4 * significand + 2) * up,
    Nat.pow 2 (-exponent).toNat, significand % 2 = 0⟩

/-- Whether the decimal `digits * 10 ^ exponent` is read back as the number. -/
def covers (s : Surroundings) (digits : Nat) (exponent : Int) : Bool :=
  let candidate := digits * Nat.pow 10 exponent.toNat * s.denominator
  let unit := Nat.pow 10 (-exponent).toNat
  if s.closed then s.low * unit ≤ candidate && candidate ≤ s.high * unit
  else s.low * unit < candidate && candidate < s.high * unit

/-- The digits of a multiple of `10 ^ exponent` next to the number, if one is read back as it. Of
two the nearer one counts, and the even one if both are equally near. -/
def onGrid? (s : Surroundings) (exponent : Int) : Option Nat :=
  let scaled := s.value * Nat.pow 10 (-exponent).toNat
  let unit := Nat.pow 10 exponent.toNat * s.denominator
  let below := scaled / unit
  let rest := scaled % unit
  let first := if 2 * rest < unit ∨ (2 * rest = unit ∧ below % 2 = 0) then below else below + 1
  let second := if first = below then below + 1 else below
  if s.covers first exponent then some first
  else if s.covers second exponent then some second
  else none

/-- The exponent of the leading digit. -/
def leading (s : Surroundings) : Int :=
  if s.denominator ≤ s.value then
    ((Nat.toDigits 10 (s.value / s.denominator)).length : Int) - 1
  else
    -((Nat.toDigits 10 ((s.denominator - 1) / s.value)).length : Int)

/-- The digits and the exponent of the shortest decimal; seventeen digits always suffice. -/
def shortest (s : Surroundings) : Nat × Int :=
  let top := s.leading
  let digits? (n : Nat) : Option (Nat × Int) :=
    let exponent := top - n
    (s.onGrid? exponent).map fun d => (d, exponent)
  ((List.range 17).findSome? digits?).getD (0, 0)

end Surroundings

/-- Drops the zeros at the end of `digits` and counts them into the exponent. -/
def stripZeros (fuel digits : Nat) (exponent : Int) : Nat × Int :=
  match fuel with
  | 0 => (digits, exponent)
  | fuel + 1 =>
    if digits ≠ 0 ∧ digits % 10 = 0 then stripZeros fuel (digits / 10) (exponent + 1)
    else (digits, exponent)

namespace Numeral

/-- The layout of `digits * 10 ^ exponent`: positional while the point lies within sixteen places
after the first digit or at most four zeros before it, with an exponent otherwise. -/
def layout (negative : Bool) (digits : List Char) (exponent : Int) : Numeral :=
  let point : Int := digits.length + exponent
  if 0 ≤ exponent ∧ point ≤ 16 then
    ⟨negative, digits ++ List.replicate exponent.toNat '0', some ['0'], none⟩
  else if 0 < point ∧ point ≤ 16 then
    ⟨negative, digits.take point.toNat, some (digits.drop point.toNat), none⟩
  else if -5 < point ∧ point ≤ 0 then
    ⟨negative, ['0'], some (List.replicate point.natAbs '0' ++ digits), none⟩
  else
    let power := point - 1
    let fraction := if digits.length ≤ 1 then none else some (digits.drop 1)
    ⟨negative, digits.take 1, fraction,
      some (power < 0, Nat.toDigits 10 power.natAbs)⟩

/-- The shortest decimal of a finite number; there is none for infinities and for NaN. -/
def ofFloat? (f : Float) : Option Numeral :=
  let bits := f.toBits.toNat
  let magnitudes := exponentSize * fractionSize
  let negative := magnitudes ≤ bits
  let positive := bits % magnitudes
  if (exponentSize - 1) * fractionSize ≤ positive then none
  else if positive = 0 then some ⟨negative, ['0'], some ['0'], none⟩
  else
    let (digits, exponent) := (Surroundings.ofBits positive).shortest
    let (digits, exponent) := stripZeros 20 digits exponent
    some (layout negative (Nat.toDigits 10 digits) exponent)

def ofNat (n : Nat) : Numeral :=
  ⟨false, Nat.toDigits 10 n, none, none⟩

end Numeral

end EvictionBus.Json
