import EvictionBus.Files
import EvictionBus.Text.Utf8
import EvictionBus.Transport.Config.Json

/-!
# Configuration files

A configuration file is a document in UTF-8.
-/

namespace EvictionBus.TransportConfig

def fileText (content : Bytes) : Except IoError (List Char) :=
  match Text.Utf8.decode? content with
  | some s => .ok s
  | none => .error .invalidUtf8

/-- Reads the file at `path`, given what the system answers when it is opened. -/
def fromFile (path : String) (content : Except IoError Bytes) :
    Except TransportError TransportConfig :=
  match content.bind fileText with
  | .ok s => fromJson s
  | .error e => .error (.configuration s!"cannot read {path}: {e.message}")

end EvictionBus.TransportConfig
