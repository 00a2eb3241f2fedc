import EvictionBus.Address
import EvictionBus.Json.Parse
import EvictionBus.Json.Record

/-!
# Addresses in JSON

An address is a record of its four parts. Parts are taken as they are: a host may be empty and the
port may be zero. Missing credentials are none.
-/

namespace EvictionBus.Address

/-- The parts of an address. -/
inductive Field where
  | user
  | password
  | host
  | port
  deriving DecidableEq, Repr

/-- The parts in order. -/
def format : Json.RecordFormat Field where
  fields := [.user, .password, .host, .port]
  name
    | .user => "user"
    | .password => "password"
    | .host => "host"
    | .port => "port"

def ofValue? (v : Json.Value) : Option Address := do
  let fields ← format.givenExactly v
  let user ← ((fields.lookup .user).getD .null).nullOr? Json.Value.text?
  let password ← ((fields.lookup .password).getD .null).nullOr? Json.Value.text?
  let host ← (← fields.lookup .host).text?
  let port ← (← fields.lookup .port).natBelow? 65536
  return ⟨user, password, host, port⟩

def ofJson? (s : String) : Option Address :=
  (Json.parse s.toList).bind ofValue?

def toValue (a : Address) : Json.Value :=
  format.object fun
    | .user => .ofOption .ofText a.user
    | .password => .ofOption .ofText a.password
    | .host => .ofText a.host
    | .port => .ofNat a.port

end EvictionBus.Address
