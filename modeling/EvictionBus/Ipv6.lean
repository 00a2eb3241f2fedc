import EvictionBus.Ipv4

/-!
# IPv6 addresses

Eight groups of sixteen bits, in hexadecimal between colons. Two colons in a row stand for as many
zero groups as are missing, at least one. The last two groups may be written as an IPv4 address.

An address is printed in lower case without leading zeros, and the first of its longest runs of two
or more zero groups is left out. Only an address that stands for an IPv4 address is printed with one.
-/

namespace EvictionBus

/-- An IPv6 address. -/
structure Ipv6 where
  groups : List UInt16
  length_groups : groups.length = 8
  deriving DecidableEq, Repr

namespace Ipv6

def ofGroups? (gs : List UInt16) : Option Ipv6 :=
  if h : gs.length = 8 then some ⟨gs, h⟩ else none

/-! ## Reading -/

/-- A group: one to four hexadecimal digits. -/
def group? (s : List Char) : Option UInt16 :=
  if s.length ≤ 4 then (Text.natIn? 16 s).map UInt16.ofNat else none

def ipv4Groups (i : Ipv4) : List UInt16 :=
  [UInt16.ofNat (i.a * 256 + i.b), UInt16.ofNat (i.c * 256 + i.d)]

/-- The groups that the texts between colons write. An IPv4 address may stand last where
`endsInIpv4` says so. -/
def groups? (endsInIpv4 : Bool) : List (List Char) → Option (List UInt16)
  | [] => some []
  | [s] =>
    match group? s with
    | some g => some [g]
    | none => if endsInIpv4 then (Ipv4.parse? (String.ofList s)).map ipv4Groups else none
  | s :: rest => do return (← group? s) :: (← groups? endsInIpv4 rest)

/-- The groups of one side of an address; a side may be empty. -/
def side? (endsInIpv4 : Bool) (s : List Char) : Option (List UInt16) :=
  if s = [] then some [] else groups? endsInIpv4 (s.splitOn ':')

/-- The texts before and after the first two colons in a row. -/
def splitGap? : List Char → Option (List Char × List Char)
  | ':' :: ':' :: s => some ([], s)
  | c :: s => (splitGap? s).map fun p => (c :: p.1, p.2)
  | [] => none

/-- Reads an address. -/
def parse? (s : String) : Option Ipv6 :=
  match splitGap? s.toList with
  | none => do ofGroups? (← side? true s.toList)
  | some (before, after) => do
    let front ← side? false before
    let back ← side? true after
    if front.length + back.length < 8 then
      ofGroups? (front ++ List.replicate (8 - front.length - back.length) 0 ++ back)
    else none

/-! ## Special addresses -/

/-- The address that stands for all addresses of a machine. -/
def unspecified : Ipv6 := ⟨[0, 0, 0, 0, 0, 0, 0, 0], rfl⟩

def loopback : Ipv6 := ⟨[0, 0, 0, 0, 0, 0, 0, 1], rfl⟩

def isMulticast (i : Ipv6) : Bool :=
  i.groups.head?.any fun g => 0xff00 ≤ g

/-- Whether the address is one of many that are alike on different networks. -/
def isLinkLocal (i : Ipv6) : Bool :=
  i.groups.head?.any fun g => 0xfe80 ≤ g && g < 0xfec0

/-- The IPv4 address that an address stands for. -/
def mapped? (i : Ipv6) : Option Ipv4 :=
  match i.groups with
  | [0, 0, 0, 0, 0, 0xffff, g, h] =>
    some ⟨g.toNat / 256, g.toNat % 256, h.toNat / 256, h.toNat % 256⟩
  | _ => none

/-! ## Writing -/

/-- The number of zero groups in a row from the given place on. -/
def zeroRun (gs : List UInt16) (start : Nat) : Nat :=
  ((gs.drop start).takeWhile (· = 0)).length

/-- Where the first of the longest runs of zero groups starts. -/
def longestRun (gs : List UInt16) : Nat :=
  (List.range gs.length).foldl
    (fun best start => if zeroRun gs best < zeroRun gs start then start else best) 0

/-- Groups between colons. -/
def joinGroups (gs : List UInt16) : String :=
  ":".intercalate (gs.map fun g => String.ofList (Nat.toDigits 16 g.toNat))

/-- The printed form. -/
def text (i : Ipv6) : String :=
  match i.mapped? with
  | some i => s!"::ffff:{i.text}"
  | none =>
    let start := longestRun i.groups
    let length := zeroRun i.groups start
    if 1 < length then
      joinGroups (i.groups.take start) ++ "::" ++ joinGroups (i.groups.drop (start + length))
    else joinGroups i.groups

end Ipv6

end EvictionBus
