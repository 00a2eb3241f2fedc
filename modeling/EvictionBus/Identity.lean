import EvictionBus.Bytes

/-!
# Node identities

Every node stamps its frames with sixteen bytes of its own, by which it recognises what it sent.
-/

namespace EvictionBus

/-- The sixteen bytes that name a node. -/
structure Identity where
  bytes : Bytes
  length_bytes : bytes.length = 16
  deriving DecidableEq

namespace Identity

def size : Nat := 16

/-- The identity at the front of a byte string that is long enough. -/
def ofPrefix? (bs : Bytes) : Option Identity :=
  if h : size ≤ bs.length then some ⟨bs.take size, by simp [size] at h ⊢; omega⟩ else none

def isPrefixOf (id : Identity) (bs : Bytes) : Bool :=
  id.bytes.isPrefixOf bs

/-- The printed form: upper-case hexadecimal digits. -/
def text (id : Identity) : String :=
  Bytes.toHex .upper id.bytes

theorem bytes_inj {a b : Identity} (h : a.bytes = b.bytes) : a = b := by
  cases a
  cases b
  cases h
  rfl

/-- Distinct identities are printed differently. -/
theorem text_inj {a b : Identity} (h : a.text = b.text) : a = b :=
  bytes_inj (Bytes.toHex_inj h)

theorem ofPrefix?_append (id : Identity) (bs : Bytes) :
    ofPrefix? (id.bytes ++ bs) = some id := by
  obtain ⟨own, h⟩ := id
  have hle : size ≤ (own ++ bs).length := by simp [size, h]
  rw [ofPrefix?, dif_pos hle]
  simp [size, h]

end Identity

end EvictionBus
