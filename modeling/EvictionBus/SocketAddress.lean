import EvictionBus.Ipv6

/-!
# Socket addresses

A host and a port. An IPv6 host is written in brackets, with the number of its zone after a percent
sign if it has one.
-/

namespace EvictionBus

inductive Host where
  | v4 (address : Ipv4)
  /-- The zone tells apart the networks that a machine is on; zero stands for none. -/
  | v6 (address : Ipv6) (zone : Nat)
  deriving DecidableEq, Repr

namespace Host

/-- A zone: a number of 32 bits. -/
def zone? (s : List Char) : Option Nat :=
  (Text.digits? s).filter (· < UInt32.size)

/-- Reads an IPv6 address that may have a zone. -/
def parseV6? (zone? : Ipv6 → List Char → Option Nat) (s : List Char) : Option Host :=
  match Text.splitFirst? '%' s with
  | none => (Ipv6.parse? (String.ofList s)).map fun i => v6 i 0
  | some (address, zone) => do
    let i ← Ipv6.parse? (String.ofList address)
    return v6 i (← zone? i zone)

/-- Reads a host: an IPv4 address, or an IPv6 address in brackets. -/
def parse? (s : List Char) : Option Host :=
  match s with
  | '[' :: rest =>
    match Text.splitLast? ']' rest with
    | some (inner, []) => parseV6? (fun _ => zone?) inner
    | _ => none
  | _ => (Ipv4.parse? (String.ofList s)).map v4

/-- The printed form. -/
def text : Host → String
  | v4 i => i.text
  | v6 i zone => if zone = 0 then s!"[{i.text}]" else s!"[{i.text}%{zone}]"

/-- The same host, as an IPv4 address if it stands for one. -/
def unmapped : Host → Host
  | v4 i => v4 i
  | v6 i zone =>
    match i.mapped? with
    | some i => v4 i
    | none => v6 i zone

/-- Whether a socket that is bound to the host `bound` is reached under the host `target`. All IPv6
addresses of a machine include its IPv4 addresses. -/
def reaches (bound target : Host) : Bool :=
  match bound.unmapped, target.unmapped with
  | v4 b, v4 t => b = t || b = .unspecified
  | v6 b _, v6 t _ => b = t || b = .unspecified
  | v6 b _, v4 _ => b = .unspecified
  | v4 _, v6 .. => false

/-- Dialling all addresses of a machine means its own network. -/
def dialled (h : Host) : Host :=
  match h.unmapped with
  | v4 i => v4 (if i = .unspecified then .loopback else i)
  | v6 i zone => v6 (if i = .unspecified then .loopback else i) zone

end Host

/-- A host and a port. -/
structure SocketAddress where
  host : Host
  port : Nat
  deriving DecidableEq, Repr

namespace SocketAddress

def ofIpv4 (host : Ipv4) (port : Nat) : SocketAddress :=
  ⟨.v4 host, port⟩

def parse? (s : String) : Option SocketAddress := do
  let (host, port) ← Text.splitLast? ':' s.toList
  return ⟨← Host.parse? host, ← (Text.digits? port).filter (· < 65536)⟩

def text (a : SocketAddress) : String :=
  s!"{a.host.text}:{a.port}"

/-- Whether a socket that is bound to `a` answers to a socket that dials `b`. -/
def answers (a b : SocketAddress) : Bool :=
  a.port = b.port && a.host.reaches b.host.dialled

/-- Whether two sockets cannot both listen. -/
def collides (a b : SocketAddress) : Bool :=
  a.port = b.port && (a.host.reaches b.host || b.host.reaches a.host)

end SocketAddress

end EvictionBus
