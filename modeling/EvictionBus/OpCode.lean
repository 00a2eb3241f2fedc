import EvictionBus.Bytes

/-!
# Operation codes

A frame says in one byte what it is for. Three codes have a meaning; the rest are carried as they
are. The top bit of the byte on the wire is reserved and never looked at.
-/

namespace EvictionBus

/-- What a frame is for. -/
inductive OpCode where
  /-- A client announces its name. -/
  | hello
  /-- The relay accepts a client. -/
  | welcome
  /-- A cache entry is to be dropped. -/
  | evict
  | other (code : UInt8)
  deriving DecidableEq, Repr

namespace OpCode

def stripReserved (b : UInt8) : UInt8 := b &&& 0x7f

/-- The operation that a byte on the wire stands for. -/
def ofWire (b : UInt8) : OpCode :=
  match stripReserved b with
  | 1 => .hello
  | 2 => .welcome
  | 4 => .evict
  | code => .other code

/-- The code as it was given, reserved bit included. -/
def code : OpCode → UInt8
  | .hello => 1
  | .welcome => 2
  | .evict => 4
  | .other code => code

def toWire (op : OpCode) : UInt8 :=
  stripReserved op.code

/-- Whether the byte on the wire stands for this operation and no other. -/
def isEncodable (op : OpCode) : Bool :=
  ofWire op.toWire = op

/-- Two lower-case hexadecimal digits after `0x`. -/
def hexText (b : UInt8) : String :=
  "0x" ++ Bytes.toHex .lower [b]

/-- The printed form. -/
def text : OpCode → String
  | .hello => "Hello"
  | .welcome => "Welcome"
  | .evict => "Evict"
  | .other code => "Op(" ++ hexText code ++ ")"

theorem ofWire_stripReserved (b : UInt8) : ofWire (stripReserved b) = ofWire b := by
  have h : stripReserved (stripReserved b) = stripReserved b := by
    simp [stripReserved, UInt8.and_assoc]
  simp [ofWire, h]

end OpCode

end EvictionBus
