/-!
# Cutting a text at a separator

A text is cut at the first or at the last occurrence of a character; `none` says that the character
does not occur. `splitFirst?_eq_some_iff` and `splitLast?_eq_some_iff` say which cut is made.
-/

namespace EvictionBus.Text

/-- The parts before and after the first occurrence of `sep`. -/
def splitFirst? (sep : Char) : List Char → Option (List Char × List Char)
  | [] => none
  | c :: s =>
    if c = sep then some ([], s)
    else (splitFirst? sep s).map fun p => (c :: p.1, p.2)

/-- The parts before and after the last occurrence of `sep`. -/
def splitLast? (sep : Char) (s : List Char) : Option (List Char × List Char) :=
  (splitFirst? sep s.reverse).map fun p => (p.2.reverse, p.1.reverse)

theorem splitFirst?_eq_none_iff (sep : Char) (s : List Char) :
    splitFirst? sep s = none ↔ sep ∉ s := by
  induction s with
  | nil => simp [splitFirst?]
  | cons c s ih =>
    by_cases h : c = sep
    · simp [splitFirst?, h]
    · simp [splitFirst?, h, ih, Ne.symm h]

theorem splitFirst?_eq_some_iff (sep : Char) (s a b : List Char) :
    splitFirst? sep s = some (a, b) ↔ s = a ++ sep :: b ∧ sep ∉ a := by
  induction s generalizing a with
  | nil => simp [splitFirst?]
  | cons c s ih =>
    by_cases h : c = sep
    · subst h
      cases a with
      | nil => simp [splitFirst?]
      | cons x a => simp +contextual [splitFirst?]
    · cases a with
      | nil => simp [splitFirst?, h]
      | cons x a =>
        simp only [splitFirst?, h, if_false, Option.map_eq_some_iff, Prod.mk.injEq, Prod.exists,
          List.cons.injEq, List.cons_append, List.mem_cons, not_or]
        constructor
        · rintro ⟨a', b', hs, ⟨rfl, rfl⟩, rfl⟩
          have := (ih a').1 hs
          exact ⟨⟨rfl, this.1⟩, fun e => h e.symm, this.2⟩
        · rintro ⟨⟨rfl, hs⟩, _, hn⟩
          exact ⟨a, b, (ih a).2 ⟨hs, hn⟩, ⟨rfl, rfl⟩, rfl⟩

theorem splitLast?_eq_none_iff (sep : Char) (s : List Char) :
    splitLast? sep s = none ↔ sep ∉ s := by
  simp [splitLast?, splitFirst?_eq_none_iff]

theorem splitLast?_eq_some_iff (sep : Char) (s a b : List Char) :
    splitLast? sep s = some (a, b) ↔ s = a ++ sep :: b ∧ sep ∉ b := by
  simp only [splitLast?, Option.map_eq_some_iff, Prod.exists, Prod.mk.injEq]
  constructor
  · rintro ⟨u, v, h, rfl, rfl⟩
    obtain ⟨hs, hn⟩ := (splitFirst?_eq_some_iff sep _ u v).1 h
    refine ⟨?_, by simpa using hn⟩
    rw [← List.reverse_inj, hs]
    simp
  · rintro ⟨rfl, hn⟩
    refine ⟨b.reverse, a.reverse, ?_, by simp, by simp⟩
    exact (splitFirst?_eq_some_iff sep _ _ _).2 ⟨by simp, by simpa using hn⟩

end EvictionBus.Text
