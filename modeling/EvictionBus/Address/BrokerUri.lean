import EvictionBus.Address

/-!
# Broker URIs

The AMQP URI under which a message broker is reached. Missing credentials are those of the guest
account, and a missing virtual host is the root.
-/

namespace EvictionBus.Address

/-- The name and the password of the account that every broker has. -/
def guest : String := "guest"

/-- A virtual host as one segment of a path: its slashes are escaped. -/
def escapeSlashes (s : String) : String :=
  String.ofList (s.toList.flatMap fun c => if c = '/' then ['%', '2', 'f'] else [c])

def brokerUri (a : Address) : String :=
  let user := a.user.getD guest
  let password := a.password.getD guest
  let path := escapeSlashes (a.virtualHost.getD "/")
  s!"amqp://{user}:{password}@{a.hostName}:{a.port}/{path}"

end EvictionBus.Address
