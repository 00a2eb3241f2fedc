/-!
# Byte strings

Everything that crosses a wire is a list of octets. This module holds the two views of a byte
string that the rest of the library shares: hexadecimal text, and a three-byte little-endian number.
-/

namespace EvictionBus

abbrev Bytes := List UInt8

namespace Bytes

/-! ## Hexadecimal text -/

/-- The hexadecimal digits in the two letter cases. -/
inductive LetterCase where
  | lower
  | upper
  deriving DecidableEq, Repr

/-- The digit of a value below sixteen. -/
def hexDigit (style : LetterCase) (n : Nat) : Char :=
  if n < 10 then Char.ofNat (48 + n)
  else match style with
    | .lower => Char.ofNat (87 + n)
    | .upper => Char.ofNat (55 + n)

/-- The two digits of one byte, high digit first. -/
def hexByte (style : LetterCase) (b : UInt8) : List Char :=
  [hexDigit style (b.toNat / 16), hexDigit style (b.toNat % 16)]

/-- Two digits per byte, in order. -/
def toHex (style : LetterCase) (bs : Bytes) : String :=
  String.ofList (bs.flatMap (hexByte style))

theorem hexDigit_inj (style : LetterCase) : ∀ m < 16, ∀ n < 16,
    hexDigit style m = hexDigit style n → m = n := by
  cases style <;> decide

theorem hexByte_inj {style : LetterCase} {a b : UInt8} (h : hexByte style a = hexByte style b) :
    a = b := by
  have ha := a.toNat_lt
  have hb := b.toNat_lt
  simp only [hexByte, List.cons.injEq, and_true] at h
  have hhigh := hexDigit_inj style _ (by omega) _ (by omega) h.1
  have hlow := hexDigit_inj style _ (by omega) _ (by omega) h.2
  apply UInt8.toNat.inj
  omega

/-- Bytes are read back from their digits. -/
theorem toHex_inj {style : LetterCase} {as bs : Bytes} (h : toHex style as = toHex style bs) :
    as = bs := by
  have hdigits := String.ofList_injective h
  clear h
  induction as generalizing bs with
  | nil =>
    cases bs with
    | nil => rfl
    | cons b bs => cases hdigits
  | cons a as ih =>
    cases bs with
    | nil => cases hdigits
    | cons b bs =>
      rw [List.flatMap_cons, List.flatMap_cons] at hdigits
      obtain ⟨hbyte, hrest⟩ := List.append_inj hdigits rfl
      rw [hexByte_inj hbyte, ih hrest]

/-! ## Three-byte little-endian numbers -/

/-- The low 24 bits of `n`, least significant byte first. -/
def ofNat24 (n : Nat) : Bytes :=
  [UInt8.ofNat n, UInt8.ofNat (n / 256), UInt8.ofNat (n / 65536)]

/-- The number written by three bytes, least significant byte first. -/
def toNat24 (b₀ b₁ b₂ : UInt8) : Nat :=
  b₀.toNat + 256 * b₁.toNat + 65536 * b₂.toNat

@[simp] theorem length_ofNat24 (n : Nat) : (ofNat24 n).length = 3 := rfl

theorem toNat24_lt (b₀ b₁ b₂ : UInt8) : toNat24 b₀ b₁ b₂ < 0x1000000 := by
  have h₀ := b₀.toNat_lt
  have h₁ := b₁.toNat_lt
  have h₂ := b₂.toNat_lt
  simp only [toNat24]
  omega

theorem toNat24_ofNat (n : Nat) (h : n < 0x1000000) :
    toNat24 (UInt8.ofNat n) (UInt8.ofNat (n / 256)) (UInt8.ofNat (n / 65536)) = n := by
  simp only [toNat24, UInt8.toNat_ofNat']
  omega

theorem ofNat24_toNat24 (b₀ b₁ b₂ : UInt8) :
    ofNat24 (toNat24 b₀ b₁ b₂) = [b₀, b₁, b₂] := by
  have h₀ := b₀.toNat_lt
  have h₁ := b₁.toNat_lt
  have h₂ := b₂.toNat_lt
  simp only [ofNat24, List.cons.injEq, and_true]
  refine ⟨?_, ?_, ?_⟩ <;> apply UInt8.toNat_inj.mp <;>
    simp only [UInt8.toNat_ofNat', toNat24] <;> omega

end Bytes

end EvictionBus
