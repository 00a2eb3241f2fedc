import EvictionBus.Text.Decimal
import EvictionBus.Text.Radix
import EvictionBus.Text.Separator

/-!
# IPv4 addresses

Four decimal numbers below 256 between points, without leading zeros. There is also a loose form, in
which the numbers may be written in other bases and the last one fills all the bytes that are left.
-/

namespace EvictionBus

structure Ipv4 where
  a : Nat
  b : Nat
  c : Nat
  d : Nat
  deriving DecidableEq, Repr

namespace Ipv4

/-- A number below 256 without leading zeros. -/
def octet? (s : List Char) : Option Nat :=
  match s with
  | '0' :: _ :: _ => none
  | _ => (Text.digits? s).filter (· < 256)

/-- Reads an address. -/
def parse? (s : String) : Option Ipv4 :=
  match s.toList.splitOn '.' with
  | [a, b, c, d] => do return ⟨← octet? a, ← octet? b, ← octet? c, ← octet? d⟩
  | _ => none

def text (i : Ipv4) : String :=
  s!"{i.a}.{i.b}.{i.c}.{i.d}"

/-! ## Special addresses -/

/-- The address that stands for all addresses of a machine. -/
def unspecified : Ipv4 := ⟨0, 0, 0, 0⟩

def loopback : Ipv4 := ⟨127, 0, 0, 1⟩

/-- The address that stands for everybody on a network. -/
def broadcast : Ipv4 := ⟨255, 255, 255, 255⟩

def isMulticast (i : Ipv4) : Bool :=
  224 ≤ i.a && i.a < 240

/-- Whether the address belongs to a machine's own network. -/
def isLoopback (i : Ipv4) : Bool :=
  i.a = 127

/-! ## The loose form -/

/-- The address whose bytes are those of a number of 32 bits. -/
def ofWord (n : Nat) : Ipv4 :=
  ⟨n / 16777216 % 256, n / 65536 % 256, n / 256 % 256, n % 256⟩

/-- A number: hexadecimal after `0x`, octal after a zero, decimal otherwise. -/
def number? (s : List Char) : Option Nat :=
  match s with
  | '0' :: 'x' :: digits => Text.natIn? 16 digits
  | '0' :: 'X' :: digits => Text.natIn? 16 digits
  | '0' :: _ => Text.natIn? 8 s
  | _ => Text.natIn? 10 s

/-- The address that one to four numbers write. -/
def ofNumbers? : List Nat → Option Ipv4
  | [n] => if n < 4294967296 then some (ofWord n) else none
  | [a, n] => if a < 256 ∧ n < 16777216 then some (ofWord (a * 16777216 + n)) else none
  | [a, b, n] =>
    if a < 256 ∧ b < 256 ∧ n < 65536 then some (ofWord (a * 16777216 + b * 65536 + n)) else none
  | [a, b, c, d] => if a < 256 ∧ b < 256 ∧ c < 256 ∧ d < 256 then some ⟨a, b, c, d⟩ else none
  | _ => none

/-- Reads the loose form. -/
def parseLoose? (s : String) : Option Ipv4 := do
  ofNumbers? (← (s.toList.splitOn '.').mapM number?)

end Ipv4

end EvictionBus
