import EvictionBus.IoError
import EvictionBus.SocketAddress

/-!
# Looking up hosts

Where a socket address is asked for, the host may also be a name, an IPv4 address in its loose form,
or an IPv6 address without brackets. There is no name service: a machine knows only the names that
it has for itself.
-/

namespace EvictionBus.Net

/-- The number of a machine's own network. -/
def ownZone : Nat := 1

/-- A zone: a number, or on a link-local address the name of the machine's own network. -/
def zone? (i : Ipv6) (s : List Char) : Option Nat :=
  if i.isLinkLocal ∧ s = "lo".toList then some ownZone else Host.zone? s

/-- Whether a machine has the name for itself. Letter case does not matter. -/
def isOwnName (s : List Char) : Bool :=
  s.map Char.toLower = "localhost".toList || s = ['*']

def isNameChar (c : Char) : Bool :=
  c.isAlphanum || c = '-' || c = '_'

def isLabel (s : List Char) : Bool :=
  s ≠ [] && s.length ≤ 63 && s.all isNameChar

/-- Whether a text can be asked for as a name: parts between points, the first of which does not
start with a dash. A point may end it. -/
def isName (s : List Char) : Bool :=
  let s := if s.getLast? = some '.' then s.dropLast else s
  s = [] || (s.head? ≠ some '-' && s.length ≤ 253 && (s.splitOn '.').all isLabel)

def lookup (s : List Char) : Except IoError Host :=
  if '\x00' ∈ s then .error .zeroInName
  else match Ipv4.parseLoose? (String.ofList s) with
    | some i => .ok (.v4 i)
    | none =>
      match Host.parseV6? zone? s with
      | some h => .ok h
      | none =>
        if isOwnName s then .ok (.v4 .loopback)
        else if isName s then .error .noNameService
        else .error .unknownName

/-- Looks up a host and a port. -/
def resolve (target : String) : Except IoError SocketAddress :=
  match SocketAddress.parse? target with
  | some a => .ok a
  | none =>
    match Text.splitLast? ':' target.toList with
    | none => .error .invalidSocketAddress
    | some (host, port) =>
      match Text.natBelow? 65536 port with
      | none => .error .invalidPort
      | some port => (lookup host).map fun h => ⟨h, port⟩

end EvictionBus.Net
