/-!
# Decimal integers in text

A run of ASCII digits, read most significant digit first, with an optional sign.
-/

namespace EvictionBus.Text

def isDigit (c : Char) : Bool :=
  '0' ≤ c && c ≤ '9'

def digitValue (c : Char) : Nat :=
  c.toNat - '0'.toNat

def ofDigits (ds : List Char) : Nat :=
  ds.foldl (fun n c => 10 * n + digitValue c) 0

def digits? (s : List Char) : Option Nat :=
  if s ≠ [] ∧ s.all isDigit then some (ofDigits s) else none

/-- A number below `bound`: digits, after a plus sign if there is one. -/
def natBelow? (bound : Nat) (s : List Char) : Option Nat :=
  let digits := match s with
    | '+' :: rest => rest
    | _ => s
  (digits? digits).filter (· < bound)

theorem ofDigits_toDigits (n : Nat) : ofDigits (Nat.toDigits 10 n) = n :=
  Nat.ofDigitChars_toDigits (by decide) (by decide)

theorem isDigit_of_mem_toDigits {n : Nat} {c : Char} (h : c ∈ Nat.toDigits 10 n) : isDigit c :=
  Nat.isDigit_of_mem_toDigits (by decide) (by decide) h

theorem digits?_eq_some_iff {s : List Char} {n : Nat} :
    digits? s = some n ↔ (s ≠ [] ∧ s.all isDigit) ∧ ofDigits s = n := by
  unfold digits?
  split
  next h => exact ⟨fun hn => ⟨h, Option.some.inj hn⟩, fun hn => congrArg some hn.2⟩
  next h => exact ⟨fun hn => (by cases hn), fun hn => absurd hn.1 h⟩

theorem natBelow?_eq_some_iff {bound n : Nat} {s : List Char} :
    natBelow? bound s = some n ↔
      ∃ digits, (s = digits ∨ s = '+' :: digits) ∧ (digits ≠ [] ∧ digits.all isDigit) ∧
        ofDigits digits = n ∧ n < bound := by
  have hread : ∀ digits, (digits? digits).filter (· < bound) = some n ↔
      (digits ≠ [] ∧ digits.all isDigit) ∧ ofDigits digits = n ∧ n < bound := by
    intro digits
    rw [Option.filter_eq_some_iff, digits?_eq_some_iff, decide_eq_true_eq, and_assoc]
  unfold natBelow?
  split
  next rest =>
    rw [hread]
    constructor
    · exact fun h => ⟨rest, .inr rfl, h⟩
    · rintro ⟨digits, rfl | hsign, h⟩
      · -- The sign is no digit.
        exact absurd h.1.2 (by simp [isDigit])
      · cases hsign
        exact h
  next hsign =>
    rw [hread]
    constructor
    · exact fun h => ⟨s, .inl rfl, h⟩
    · rintro ⟨digits, rfl | rfl, h⟩
      · exact h
      · exact absurd rfl (hsign digits)

/-- An integer in the range of 64-bit words, after a sign if there is one. -/
def int64? (s : List Char) : Option Int :=
  match s with
  | '-' :: rest => ((digits? rest).filter (· ≤ UInt64.size / 2)).map fun n => -(n : Int)
  | _ => (natBelow? (UInt64.size / 2) s).map fun n => (n : Int)

end EvictionBus.Text
