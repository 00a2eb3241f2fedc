import EvictionBus.Net.Resolver

/-!
# What a machine can bind and dial

A machine has one network of its own, which is up or down. While it is up the machine has its
loopback addresses. While it is down the machine has no address at all: a socket may be bound to any
IPv4 address, and nothing can be dialled. The ports below 1024 are not for everybody, either way.
-/

namespace EvictionBus.Net

/-- Whether a port asks for a privilege. Zero stands for any free port. -/
def isPrivileged (port : Nat) : Bool :=
  0 < port && port < 1024

/-- Whether a machine whose network is up takes a socket on an IPv4 address. -/
def takesIpv4 (i : Ipv4) : Bool :=
  i.isLoopback || i.isMulticast || i = .unspecified || i = .broadcast

/-- Why no socket can be bound to an IPv6 address, on any port. -/
def ipv6Obstacle? (up : Bool) (i : Ipv6) (zone : Nat) : Option IoError :=
  if i = .unspecified then none
  else if i.isLinkLocal then
    if zone = 0 then some .invalidArgument
    else if zone = ownZone then some .addressNotAvailable
    else some .noSuchDevice
  else if up ∧ i = .loopback then none
  else some .addressNotAvailable

/-- Why no socket can be bound to an address, if it is not for another socket. -/
def bindObstacle? (up : Bool) (a : SocketAddress) : Option IoError :=
  let privilege := if isPrivileged a.port then some IoError.permissionDenied else none
  match a.host.unmapped with
  | .v4 i => if up ∧ ¬ takesIpv4 i then some .addressNotAvailable else privilege
  | .v6 i zone => if i.isMulticast then some .invalidArgument
    else privilege <|> ipv6Obstacle? up i zone

/-- Why an address cannot be dialled, whoever listens there. -/
def dialObstacle? (up : Bool) (a : SocketAddress) : Option IoError :=
  match a.host.dialled with
  | .v4 i => if up ∧ i.isLoopback then none else some .networkUnreachable
  | .v6 i zone =>
    if i.isMulticast then some .networkUnreachable
    else if i.isLinkLocal ∧ zone = 0 then some .invalidArgument
    else if ¬ up then some .addressNotAvailable
    else if i = .loopback then none
    else some .networkUnreachable

end EvictionBus.Net
