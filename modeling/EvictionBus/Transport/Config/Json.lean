import EvictionBus.Json.Parse
import EvictionBus.Json.Print
import EvictionBus.Transport.Backoff.Json
import EvictionBus.Transport.Config

/-!
# Configuration documents

A document changes the standard configuration field by field.
-/

namespace EvictionBus

namespace TransportKind

/-- A kind is written as its canonical name, or as an object whose only member has that name and
the value `null`. -/
def ofValue? : Json.Value → Option TransportKind
  | .string name => name.string?.bind ofName?
  | .object [(name, .null)] => name.string?.bind ofName?
  | _ => none

end TransportKind

namespace TransportConfig

inductive Field where
  | kind
  | address
  | localPath
  | peers
  | maxMessageSize
  | receiveTimeout
  | handshakeTimeout
  | closeTimeout
  | sendTimeout
  | prefetch
  | reconnect
  deriving DecidableEq, Repr

def format : Json.RecordFormat Field where
  fields := [.kind, .address, .localPath, .peers, .maxMessageSize, .receiveTimeout,
    .handshakeTimeout, .closeTimeout, .sendTimeout, .prefetch, .reconnect]
  name
    | .kind => "kind"
    | .address => "address"
    | .localPath => "local_path"
    | .peers => "peers"
    | .maxMessageSize => "max_message_size"
    | .receiveTimeout => "receive_timeout_ms"
    | .handshakeTimeout => "handshake_timeout_ms"
    | .closeTimeout => "close_timeout_ms"
    | .sendTimeout => "send_timeout_ms"
    | .prefetch => "prefetch"
    | .reconnect => "reconnect"

def word? : Json.Value → Option Nat :=
  Json.Value.natBelow? UInt64.size

def set (c : TransportConfig) (f : Field) (v : Json.Value) : Option TransportConfig :=
  match f with
  | .kind => (TransportKind.ofValue? v).map fun x => { c with kind := x }
  | .address => (v.nullOr? Json.Value.text?).map fun x => { c with address := x }
  | .localPath => (v.nullOr? Json.Value.text?).map fun x => { c with localPath := x }
  | .peers => (v.list? Json.Value.text?).map fun x => { c with peers := x }
  | .maxMessageSize => (v.nullOr? word?).map fun x => { c with maxMessageSize := x }
  | .receiveTimeout => (word? v).map fun x => { c with receiveTimeout := x }
  | .handshakeTimeout => (word? v).map fun x => { c with handshakeTimeout := x }
  | .closeTimeout => (word? v).map fun x => { c with closeTimeout := x }
  | .sendTimeout => (word? v).map fun x => { c with sendTimeout := x }
  | .prefetch => (v.natBelow? UInt16.size).map fun x => { c with prefetch := x }
  | .reconnect => (Backoff.ofValue? v).map fun x => { c with reconnect := x }

def get (c : TransportConfig) : Field → Json.Value
  | .kind => .ofText c.kind.name
  | .address => .ofOption .ofText c.address
  | .localPath => .ofOption .ofText c.localPath
  | .peers => .array (c.peers.map .ofText)
  | .maxMessageSize => .ofOption .ofNat c.maxMessageSize
  | .receiveTimeout => .ofNat c.receiveTimeout
  | .handshakeTimeout => .ofNat c.handshakeTimeout
  | .closeTimeout => .ofNat c.closeTimeout
  | .sendTimeout => .ofNat c.sendTimeout
  | .prefetch => .ofNat c.prefetch
  | .reconnect => c.reconnect.toValue

/-- The standard configuration, changed as a value says. -/
def ofValue? (v : Json.Value) : Option TransportConfig := do
  (← format.given v).foldlM (fun c (f, v) => c.set f v) standard

def toValue (c : TransportConfig) : Json.Value :=
  format.object c.get

def invalidDocument : TransportError :=
  .configuration "invalid transport config"

/-- Reads a configuration document. -/
def fromJson (s : List Char) : Except TransportError TransportConfig :=
  match (Json.parse s).bind ofValue? with
  | some c => .ok c
  | none => .error invalidDocument

def toJson (c : TransportConfig) : List Char :=
  Json.print c.toValue

end TransportConfig

end EvictionBus
