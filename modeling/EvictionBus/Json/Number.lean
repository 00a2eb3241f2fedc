import EvictionBus.Json.Value
import EvictionBus.Text.Decimal

/-!
# The value of a JSON number

A number stands for a natural number or for a binary floating-point number. Floating-point values
are read in two steps: the leading digits that fit into 64 bits, as one integer, and a power of ten
by which that integer is multiplied or divided.
-/

namespace EvictionBus.Json.Numeral

/-- The natural number that is written without sign, point and exponent. -/
def nat? (n : Numeral) : Option Nat :=
  if n.negative ∨ n.fraction.isSome ∨ n.exponent.isSome then none
  else some (EvictionBus.Text.ofDigits n.whole)

/-! ## Floating-point values -/

/-- The largest integer that the first step keeps. -/
def significandLimit : Nat := UInt64.size - 1

/-- Appends digits to an integer while it fits, and says how many digits were left over. -/
def takeDigits (n : Nat) : List Char → Nat × Nat
  | [] => (n, 0)
  | c :: cs =>
    let m := 10 * n + EvictionBus.Text.digitValue c
    if m ≤ significandLimit then takeDigits m cs else (n, cs.length + 1)

/-- The largest power of ten that is a floating-point number. -/
def maxPower : Nat := 308

def powerOfTen (k : Nat) : Float :=
  Float.ofScientific 1 false k

/-- `f` times a power of ten; `none` if the result is infinite. -/
def scaleUp (f : Float) (k : Nat) : Option Float :=
  if k ≤ maxPower then
    let g := f * powerOfTen k
    if g.isInf then none else some g
  else if f == 0 then some f
  else none

/-- `f` divided by a power of ten, at most `10 ^ 308` at a time. -/
def scaleDown (f : Float) (k : Nat) : Float :=
  if k ≤ maxPower then f / powerOfTen k
  else if f == 0 then f
  else scaleDown (f / powerOfTen maxPower) (k - maxPower)
termination_by k
decreasing_by simp only [maxPower] at *; omega

/-- `n` times a power of ten; `none` if the result is infinite. -/
def scale (n : Nat) (exponent : Int) : Option Float :=
  let f := (UInt64.ofNat n).toFloat
  if 0 ≤ exponent then scaleUp f exponent.toNat
  else some (scaleDown f exponent.natAbs)

/-- The largest exponent that is looked at. -/
def exponentLimit : Nat := 0x7fffffff

/-- The magnitude of a number; `none` if it is too large. -/
def magnitude? (n : Numeral) : Option Float :=
  let (whole, dropped) := takeDigits 0 n.whole
  let (significand, shift) := match n.fraction with
    | none => (whole, (dropped : Int))
    | some ds =>
      -- Digits after the point fill up what the digits before it have left.
      let (m, unused) := takeDigits whole ds
      (m, (dropped : Int) - ((ds.length - unused : Nat) : Int))
  match n.exponent with
  | none => scale significand shift
  | some (negative, ds) =>
    let e := EvictionBus.Text.ofDigits ds
    -- Beyond the limit the digits of the exponent are not looked at any more.
    if exponentLimit < e then
      if significand = 0 ∨ negative then some 0 else none
    else scale significand (shift + if negative then -(e : Int) else e)

/-- The floating-point number that is written; `none` if it is too large. -/
def float? (n : Numeral) : Option Float :=
  n.magnitude?.map fun f => if n.negative then -f else f

end EvictionBus.Json.Numeral
