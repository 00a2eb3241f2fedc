import EvictionBus.Identity
import EvictionBus.Json.Parse
import EvictionBus.Json.Record

/-!
# Identities in JSON

An identity is a record with one field, the list of its sixteen bytes.
-/

namespace EvictionBus.Identity

inductive Field where
  | bytes
  deriving DecidableEq, Repr

def format : Json.RecordFormat Field :=
  ⟨[.bytes], fun .bytes => "bytes"⟩

def byte? (v : Json.Value) : Option UInt8 :=
  (v.natBelow? 256).map UInt8.ofNat

def ofValue? (v : Json.Value) : Option Identity := do
  let fields ← format.givenExactly v
  let bytes ← (← fields.lookup .bytes).list? byte?
  if h : bytes.length = 16 then some ⟨bytes, h⟩ else none

def ofJson? (s : String) : Option Identity :=
  (Json.parse s.toList).bind ofValue?

def toValue (id : Identity) : Json.Value :=
  format.object fun .bytes => .array (id.bytes.map fun b => .ofNat b.toNat)

end EvictionBus.Identity
