import EvictionBus.Text.Blank
import EvictionBus.Text.Decimal
import EvictionBus.Text.Separator

/-!
# Endpoint addresses

An address is written `[user[:password]@]host:port`. The port is cut off at the last colon, the
credentials at the last at sign before it, and the password at the first colon of the credentials.
The host may carry a virtual host after a slash.
-/

namespace EvictionBus

/-- Where a transport connects or listens, and as whom. -/
structure Address where
  user : Option String
  password : Option String
  host : String
  port : Nat
  deriving DecidableEq, Repr

/-- Why a text is no address. -/
inductive AddressError where
  | empty
  | missingPort (text : String)
  | invalidPort (port : String)
  | missingHost (text : String)
  deriving DecidableEq, Repr

namespace AddressError

/-- The text shown for the error. -/
def message : AddressError → String
  | .empty => "address is empty"
  | .missingPort text => s!"address '{text}' has no port"
  | .invalidPort port => s!"invalid port '{port}'"
  | .missingHost text => s!"address '{text}' has no host"

end AddressError

namespace Address

def ofHostPort (host : String) (port : Nat) : Address :=
  ⟨none, none, host, port⟩

/-- The same endpoint, reached with the given credentials. -/
def withCredentials (a : Address) (user : String) (password : Option String) : Address :=
  { a with user := some user, password := password }

/-! ## Reading -/

/-- A port: a number from 1 to 65535. -/
def port? (s : List Char) : Option Nat :=
  (Text.natBelow? 65536 s).filter (· ≠ 0)

/-- A host is not empty and does not start with the slash of a virtual host. -/
def isHost (s : List Char) : Bool :=
  match s with
  | [] => false
  | c :: _ => c ≠ '/'

/-- The user and the password of the text before the at sign. -/
def credentials (s : List Char) : List Char × Option (List Char) :=
  match Text.splitFirst? ':' s with
  | some (user, password) => (user, some password)
  | none => (s, none)

/-- The credentials, if there are any, and the host, in the text before the port. -/
def splitCredentials (s : List Char) :
    Option (List Char) × Option (List Char) × List Char :=
  match Text.splitLast? '@' s with
  | some (before, host) =>
    let (user, password) := credentials before
    (some user, password, host)
  | none => (none, none, s)

/-- Reads an address from which the blanks at both ends have been trimmed. -/
def parseTrimmed (t : List Char) : Except AddressError Address :=
  if t = [] then .error .empty
  else match Text.splitLast? ':' t with
    | none => .error (.missingPort (String.ofList t))
    | some (before, portText) =>
      match port? portText with
      | none => .error (.invalidPort (String.ofList portText))
      | some port =>
        let (user, password, host) := splitCredentials before
        if isHost host then
          .ok ⟨user.map String.ofList, password.map String.ofList, String.ofList host, port⟩
        else .error (.missingHost (String.ofList t))

/-- Reads an address; blanks at both ends do not matter. -/
def parse (s : String) : Except AddressError Address :=
  parseTrimmed (Text.trim s.toList)

/-! ## Writing -/

/-- The printed form, in which three stars stand for any password. -/
def text (a : Address) : String :=
  let user := match a.user with
    | none => ""
    | some user => match a.password with
      | none => user ++ "@"
      | some _ => user ++ ":***@"
  user ++ a.host ++ ":" ++ toString a.port

/-! ## Parts -/

def hostName (a : Address) : String :=
  match Text.splitFirst? '/' a.host.toList with
  | some (name, _) => String.ofList name
  | none => a.host

/-- What follows the first slash of the host, if anything does. -/
def virtualHost (a : Address) : Option String :=
  match Text.splitFirst? '/' a.host.toList with
  | some (_, path) => if path = [] then none else some (String.ofList path)
  | none => none

def socketTarget (a : Address) : String :=
  a.hostName ++ ":" ++ toString a.port

end Address

end EvictionBus
