import EvictionBus.Bytes
import EvictionBus.Text.Radix

/-!
# Percent encoding

In a URI a percent sign and two hexadecimal digits stand for one byte of the text that is meant, and
all other characters stand for their own bytes.  A text that holds no such sequence means itself; one
that does means a shorter text.
-/

namespace EvictionBus.Text

/-- The bytes that a text stands for once its escape sequences are resolved.  A percent sign that two
hexadecimal digits do not follow stands for itself. -/
def unescaped : List Char → Bytes
  | '%' :: x :: y :: s =>
    match valueIn? 16 x, valueIn? 16 y with
    | some high, some low => UInt8.ofNat (16 * high + low) :: unescaped s
    | _, _ => String.utf8EncodeChar '%' ++ unescaped (x :: y :: s)
  | c :: s => String.utf8EncodeChar c ++ unescaped s
  | [] => []

/-- The text that is meant, if the bytes are those of a text. -/
def unescape? (s : List Char) : Option String :=
  String.fromUTF8? (unescaped s).toByteArray

/-- The text starts with an escape sequence. -/
def startsEscape : List Char → Bool
  | '%' :: x :: y :: _ => (valueIn? 16 x).isSome && (valueIn? 16 y).isSome
  | _ => false

def HasEscape (s : List Char) : Prop :=
  ∃ t, t <:+ s ∧ startsEscape t

/-- The number of bytes of a text. -/
def utf8Length (s : List Char) : Nat :=
  (s.flatMap String.utf8EncodeChar).length

variable {c : Char} {s : List Char} {t : String}

@[simp] theorem utf8Length_cons (c : Char) (s : List Char) :
    utf8Length (c :: s) = c.utf8Size + utf8Length s := by
  rw [utf8Length, List.flatMap_cons, List.length_append, String.length_utf8EncodeChar, utf8Length]

@[simp] theorem utf8Length_append (s t : List Char) :
    utf8Length (s ++ t) = utf8Length s + utf8Length t := by
  rw [utf8Length, List.flatMap_append, List.length_append, utf8Length, utf8Length]

/-! ## One sequence -/

theorem hasEscape_cons : HasEscape (c :: s) ↔ startsEscape (c :: s) ∨ HasEscape s := by
  simp only [HasEscape, List.suffix_cons_iff, or_and_right, exists_or, exists_eq_left]

instance decidableHasEscape : (s : List Char) → Decidable (HasEscape s)
  | [] => isFalse <| by
    rintro ⟨t, ht, hstart⟩
    rw [List.suffix_nil.1 ht] at hstart
    cases hstart
  | c :: s =>
    have := decidableHasEscape s
    decidable_of_iff (startsEscape (c :: s) ∨ HasEscape s) hasEscape_cons.symm

theorem unescaped_cons (h : startsEscape (c :: s) = false) :
    unescaped (c :: s) = String.utf8EncodeChar c ++ unescaped s := by
  conv => lhs; unfold unescaped
  split
  next x y rest heq =>
    obtain ⟨rfl, rfl⟩ := List.cons.inj heq
    split
    next hx hy => simp [startsEscape, hx, hy] at h
    next => rfl
  next heq =>
    obtain ⟨rfl, rfl⟩ := List.cons.inj heq
    rfl
  next heq => cases heq

/-- An escape sequence of three characters stands for one byte, whatever follows it. -/
theorem exists_unescaped (h : startsEscape s) : ∃ x y rest b, s = '%' :: x :: y :: rest ∧
    ((valueIn? 16 x).isSome ∧ (valueIn? 16 y).isSome) ∧
      ∀ more, unescaped ('%' :: x :: y :: more) = b :: unescaped more := by
  unfold startsEscape at h
  split at h
  next x y rest =>
    rw [Bool.and_eq_true] at h
    obtain ⟨high, hhigh⟩ := Option.isSome_iff_exists.1 h.1
    obtain ⟨low, hlow⟩ := Option.isSome_iff_exists.1 h.2
    refine ⟨x, y, rest, UInt8.ofNat (16 * high + low), rfl, h, fun more => ?_⟩
    rw [unescaped, hhigh, hlow]
  next => cases h

/-! ## What a text means -/

theorem length_unescaped_le (s : List Char) : (unescaped s).length ≤ utf8Length s := by
  induction hn : s.length using Nat.strongRecOn generalizing s with
  | ind n ih =>
    cases s with
    | nil => exact Nat.le_refl _
    | cons c s =>
      cases h : startsEscape (c :: s) with
      | true =>
        obtain ⟨x, y, rest, b, heq, -, hbytes⟩ := exists_unescaped h
        rw [heq] at hn ⊢
        have hrest := ih rest.length (by rw [← hn]; simp; omega) rest rfl
        have hpos := '%'.utf8Size_pos
        rw [hbytes, List.length_cons]
        simp only [utf8Length_cons]
        omega
      | false =>
        have hrest := ih s.length (by rw [← hn]; simp) s rfl
        rw [unescaped_cons h, List.length_append, String.length_utf8EncodeChar, utf8Length_cons]
        omega

theorem length_unescaped_lt (h : HasEscape s) : (unescaped s).length < utf8Length s := by
  induction s with
  | nil =>
    obtain ⟨t, ht, hstart⟩ := h
    rw [List.suffix_nil.1 ht] at hstart
    cases hstart
  | cons c s ih =>
    cases hc : startsEscape (c :: s) with
    | true =>
      obtain ⟨x, y, rest, b, heq, -, hbytes⟩ := exists_unescaped hc
      have hrest := length_unescaped_le rest
      have hx := x.utf8Size_pos
      have hy := y.utf8Size_pos
      have hpos := '%'.utf8Size_pos
      rw [heq, hbytes, List.length_cons]
      simp only [utf8Length_cons]
      omega
    | false =>
      have hrest := ih ((hasEscape_cons.1 h).resolve_left (by rw [hc]; exact Bool.false_ne_true))
      rw [unescaped_cons hc, List.length_append, String.length_utf8EncodeChar, utf8Length_cons]
      omega

theorem unescaped_eq_self (h : ¬ HasEscape s) : unescaped s = s.flatMap String.utf8EncodeChar := by
  induction s with
  | nil => rfl
  | cons c s ih =>
    rw [hasEscape_cons, not_or, Bool.not_eq_true] at h
    rw [unescaped_cons h.1, ih h.2, List.flatMap_cons]

/-- The bytes of a text in UTF-8 are those of no other text. -/
theorem fromUTF8?_utf8Encode (s : List Char) :
    String.fromUTF8? (s.flatMap String.utf8EncodeChar).toByteArray = some (String.ofList s) :=
  dif_pos (.intro s rfl)

theorem utf8Length_of_unescape? (h : unescape? s = some t) :
    utf8Length t.toList = (unescaped s).length := by
  obtain ⟨l, rfl⟩ := t.exists_eq_ofList
  have hbytes : l.utf8Encode = (unescaped s).toByteArray := by
    unfold unescape? String.fromUTF8? at h
    split at h
    · exact (congrArg String.toByteArray (Option.some.inj h)).symm
    · cases h
  have hsize := congrArg ByteArray.size hbytes
  rw [String.toList_ofList, utf8Length]
  simpa [List.utf8Encode] using hsize

theorem unescape?_le (h : unescape? s = some t) : utf8Length t.toList ≤ utf8Length s := by
  rw [utf8Length_of_unescape? h]
  exact length_unescaped_le s

/-- Exactly the texts without an escape sequence mean themselves. -/
theorem unescape?_eq_self_iff (t : String) : unescape? t.toList = some t ↔ ¬ HasEscape t.toList := by
  constructor
  · intro h hescape
    have hlt := length_unescaped_lt hescape
    rw [utf8Length_of_unescape? h] at hlt
    exact absurd hlt (Nat.lt_irrefl _)
  · intro h
    rw [unescape?, unescaped_eq_self h, fromUTF8?_utf8Encode, String.ofList_toList]

end EvictionBus.Text
