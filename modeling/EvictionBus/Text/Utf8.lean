import EvictionBus.Bytes

/-!
# UTF-8

Decoding of byte strings, one scalar value at a time. `decode?` accepts well-formed text only;
`decodeLossy` replaces every maximal ill-formed part by one replacement character.
-/

namespace EvictionBus.Text.Utf8

/-- What a non-empty byte string starts with. -/
inductive Next where
  /-- A whole scalar value, and the bytes after it. -/
  | scalar (c : Char) (rest : Bytes)
  /-- An ill-formed part as long as possible, and the bytes after it. -/
  | malformed (rest : Bytes)

/-- The six payload bits of a continuation byte. -/
def continuation? (b : UInt8) : Option Nat :=
  if 0x80 ≤ b ∧ b ≤ 0xbf then some (b.toNat - 0x80) else none

/-- The second byte of a sequence, which lies in a range that depends on the first. -/
def second? (lo hi b : UInt8) : Option Nat :=
  if lo ≤ b ∧ b ≤ hi then some (b.toNat - 0x80) else none

/-- A sequence of two bytes: `high` comes from the first. -/
def next2 (high : Nat) : Bytes → Next
  | [] => .malformed []
  | b :: rest => match continuation? b with
    | some x => .scalar (Char.ofNat (high * 64 + x)) rest
    | none => .malformed (b :: rest)

/-- A sequence of three bytes, whose second lies between `lo` and `hi`. -/
def next3 (high : Nat) (lo hi : UInt8) : Bytes → Next
  | [] => .malformed []
  | b :: rest => match second? lo hi b with
    | some x => next2 (high * 64 + x) rest
    | none => .malformed (b :: rest)

/-- A sequence of four bytes, whose second lies between `lo` and `hi`. -/
def next4 (high : Nat) (lo hi : UInt8) : Bytes → Next
  | [] => .malformed []
  | b :: rest => match second? lo hi b with
    | some x => next3 (high * 64 + x) 0x80 0xbf rest
    | none => .malformed (b :: rest)

/-- The sequence that starts with `b`. -/
def next (b : UInt8) (rest : Bytes) : Next :=
  if b < 0x80 then .scalar (Char.ofNat b.toNat) rest
  else if b < 0xc2 then .malformed rest
  else if b < 0xe0 then next2 (b.toNat - 0xc0) rest
  else if b = 0xe0 then next3 0 0xa0 0xbf rest
  else if b = 0xed then next3 0xd 0x80 0x9f rest
  else if b < 0xf0 then next3 (b.toNat - 0xe0) 0x80 0xbf rest
  else if b = 0xf0 then next4 0 0x90 0xbf rest
  else if b < 0xf4 then next4 (b.toNat - 0xf0) 0x80 0xbf rest
  else if b = 0xf4 then next4 4 0x80 0x8f rest
  else .malformed rest

/-- The bytes that are left after the first sequence. -/
def Next.rest : Next → Bytes
  | .scalar _ rest => rest
  | .malformed rest => rest

theorem length_rest_next2 (high : Nat) (bs : Bytes) :
    (next2 high bs).rest.length ≤ bs.length := by
  cases bs with
  | nil => simp [next2, Next.rest]
  | cons b rest => cases h : continuation? b <;> simp [next2, h, Next.rest]

theorem length_rest_next3 (high : Nat) (lo hi : UInt8) (bs : Bytes) :
    (next3 high lo hi bs).rest.length ≤ bs.length := by
  cases bs with
  | nil => simp [next3, Next.rest]
  | cons b rest =>
    cases h : second? lo hi b with
    | none => simp [next3, h, Next.rest]
    | some x =>
      have := length_rest_next2 (high * 64 + x) rest
      simp only [next3, h, List.length_cons]
      omega

theorem length_rest_next4 (high : Nat) (lo hi : UInt8) (bs : Bytes) :
    (next4 high lo hi bs).rest.length ≤ bs.length := by
  cases bs with
  | nil => simp [next4, Next.rest]
  | cons b rest =>
    cases h : second? lo hi b with
    | none => simp [next4, h, Next.rest]
    | some x =>
      have := length_rest_next3 (high * 64 + x) 0x80 0xbf rest
      simp only [next4, h, List.length_cons]
      omega

theorem length_rest_next (b : UInt8) (rest : Bytes) : (next b rest).rest.length ≤ rest.length := by
  unfold next
  repeat' split
  all_goals first
    | exact length_rest_next2 _ _
    | exact length_rest_next3 _ _ _ _
    | exact length_rest_next4 _ _ _ _
    | exact Nat.le_refl _

/-- The text that a well-formed byte string writes. -/
def decode? : Bytes → Option (List Char)
  | [] => some []
  | b :: bs =>
    match h : next b bs with
    | .scalar c rest =>
      have : rest.length ≤ bs.length := by simpa [h, Next.rest] using length_rest_next b bs
      (decode? rest).map (c :: ·)
    | .malformed _ => none
termination_by bs => bs.length
decreasing_by simp only [List.length_cons]; omega

/-- The character that stands for an ill-formed part. -/
def replacement : Char := '\uFFFD'

/-- The text of a byte string, with one `replacement` for each maximal ill-formed part. -/
def decodeLossy : Bytes → List Char
  | [] => []
  | b :: bs =>
    match h : next b bs with
    | .scalar c rest =>
      have : rest.length ≤ bs.length := by simpa [h, Next.rest] using length_rest_next b bs
      c :: decodeLossy rest
    | .malformed rest =>
      have : rest.length ≤ bs.length := by simpa [h, Next.rest] using length_rest_next b bs
      replacement :: decodeLossy rest
termination_by bs => bs.length
decreasing_by all_goals simp only [List.length_cons]; omega

def encode (s : String) : Bytes :=
  s.toUTF8.toList

end EvictionBus.Text.Utf8
