import EvictionBus.Transport.Error

/-!
# Kinds of transport
-/

namespace EvictionBus

/-- How evictions travel between nodes. -/
inductive TransportKind where
  /-- Datagrams to a multicast group. -/
  | multicast
  /-- A mesh of stream connections. -/
  | reliableMulticast
  /-- A fanout exchange on a message broker. -/
  | broker
  | relay
  deriving DecidableEq, Repr, Inhabited

namespace TransportKind

def all : List TransportKind := [.multicast, .reliableMulticast, .broker, .relay]

def name : TransportKind → String
  | .multicast => "multicast"
  | .reliableMulticast => "reliable-multicast"
  | .broker => "broker"
  | .relay => "relay"

/-- Other names that are understood. -/
def aliases : TransportKind → List String
  | .multicast => ["udp"]
  | .reliableMulticast => ["reliable_multicast", "rdm", "mesh"]
  | .broker => ["amqp", "rabbitmq"]
  | .relay => ["tcp"]

def ofName? (s : String) : Option TransportKind :=
  all.find? fun k => k.name = s

def lowerAscii (c : Char) : Char :=
  if 'A' ≤ c ∧ c ≤ 'Z' then Char.ofNat (c.toNat + 32) else c

/-- Reads a name or an alias; blanks at the ends and the case of ASCII letters do not matter. -/
def parse (s : String) : Except TransportError TransportKind :=
  let word := String.ofList ((Text.trim s.toList).map lowerAscii)
  match all.find? fun k => k.name = word || k.aliases.contains word with
  | some k => .ok k
  | none => .error (.configuration s!"unknown transport kind '{word}'")

theorem ofName?_name (k : TransportKind) : ofName? k.name = some k := by
  cases k <;> decide

end TransportKind

end EvictionBus
