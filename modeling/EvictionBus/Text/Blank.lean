/-!
# White space

The characters with the Unicode property `White_Space`, and trimming by them.  `trims_trim` says what
trimming cuts off.
-/

namespace EvictionBus.Text

/-- The code points that have the property `White_Space`, as closed ranges in increasing order. -/
def whiteSpaceRanges : List (Nat × Nat) :=
  [(0x09, 0x0d), (0x20, 0x20), (0x85, 0x85), (0xa0, 0xa0), (0x1680, 0x1680), (0x2000, 0x200a),
   (0x2028, 0x2029), (0x202f, 0x202f), (0x205f, 0x205f), (0x3000, 0x3000)]

/-- Whether a character has the property `White_Space`. -/
def isBlank (c : Char) : Bool :=
  whiteSpaceRanges.any fun r => r.1 ≤ c.toNat && c.toNat ≤ r.2

def trim (s : List Char) : List Char :=
  ((s.dropWhile isBlank).reverse.dropWhile isBlank).reverse

/-- No blank stands at either end of the text. -/
structure Trimmed (t : List Char) : Prop where
  head : ∀ c, t.head? = some c → isBlank c = false
  last : ∀ c, t.getLast? = some c → isBlank c = false

/-- Cutting the blanks off both ends of `s` leaves `t`. -/
structure Trims (s t : List Char) : Prop extends Trimmed t where
  cut : ∃ before after, s = before ++ t ++ after ∧ before.all isBlank ∧ after.all isBlank

theorem head?_dropWhile_isBlank {s : List Char} {c : Char}
    (h : (s.dropWhile isBlank).head? = some c) : isBlank c = false := by
  have hnot := List.head?_dropWhile_not isBlank s
  rw [h] at hnot
  exact hnot

theorem trims_trim (s : List Char) : Trims s (trim s) := by
  let rest := s.dropWhile isBlank
  let after := (rest.reverse.takeWhile isBlank).reverse
  have hfront : s.takeWhile isBlank ++ rest = s := List.takeWhile_append_dropWhile
  -- What the blanks at the front leave is cut from the back.
  have hback : rest = trim s ++ after := by
    rw [← List.reverse_inj, trim, List.reverse_append, List.reverse_reverse, List.reverse_reverse,
      List.takeWhile_append_dropWhile]
  constructor
  · constructor
    · intro c hc
      apply head?_dropWhile_isBlank (s := s)
      change rest.head? = some c
      rw [hback, List.head?_append, hc]
      rfl
    · intro c hc
      rw [trim, List.getLast?_reverse] at hc
      exact head?_dropWhile_isBlank hc
  · refine ⟨s.takeWhile isBlank, after, ?_, List.all_takeWhile, ?_⟩
    · rw [List.append_assoc, ← hback, hfront]
    · rw [List.all_reverse, List.all_takeWhile]

theorem dropWhile_isBlank_eq_self {t : List Char} (h : ∀ c, t.head? = some c → isBlank c = false) :
    t.dropWhile isBlank = t := by
  cases t with
  | nil => rfl
  | cons c t => rw [List.dropWhile_cons, h c rfl, if_neg Bool.false_ne_true]

theorem trim_eq_self {t : List Char} (h : Trimmed t) : trim t = t := by
  rw [trim, dropWhile_isBlank_eq_self h.head, dropWhile_isBlank_eq_self, List.reverse_reverse]
  intro c hc
  rw [List.head?_reverse] at hc
  exact h.last c hc

end EvictionBus.Text
