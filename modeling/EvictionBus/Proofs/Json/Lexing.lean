import EvictionBus.Proofs.Json.Tokens

/-!
# The tokens of a text

A JSON text is cut into marks, strings and words.  White space ends a word, and but for that it is
lost: two texts of the same tokens differ in white space that has no meaning.

What the readers of strings and of numbers take from the front of a text is one token, and they take
the same from it whatever stands behind it.
-/

namespace EvictionBus.Json

/-! ## Tokens -/

/-- A brace, a bracket, a colon or a comma. -/
def isMark (c : Char) : Bool :=
  c = '{' || c = '}' || c = '[' || c = ']' || c = ':' || c = ','

def isWord (c : Char) : Bool :=
  !isSpace c && !isMark c && c != '"'

/-- The rest of a string up to and including its closing quote, and the text behind it. -/
def quoted : List Char → List Char × List Char
  | [] => ([], [])
  | '"' :: s => (['"'], s)
  | '\\' :: c :: s => ('\\' :: c :: (quoted s).1, (quoted s).2)
  | c :: s => (c :: (quoted s).1, (quoted s).2)

inductive Token where
  /-- A character that is a token by itself. -/
  | mark (c : Char)
  /-- A string as it is written, behind its opening quote. -/
  | text (q : List Char)
  /-- What stands between white space, marks and strings. -/
  | word (w : List Char)
  deriving DecidableEq, Repr

theorem quoted_append (s : List Char) : (quoted s).1 ++ (quoted s).2 = s := by
  fun_induction quoted s with
  | case1 => rfl
  | case2 s => rfl
  | case3 c s ih => rw [List.cons_append, List.cons_append, ih]
  | case4 c s _ _ ih => rw [List.cons_append, ih]

theorem length_quoted_le (s : List Char) : (quoted s).2.length ≤ s.length := by
  have h : ((quoted s).1 ++ (quoted s).2).length = s.length := by rw [quoted_append]
  rw [List.length_append] at h
  omega

theorem length_dropWord_le (s : List Char) : (s.dropWhile isWord).length ≤ s.length :=
  (List.dropWhile_suffix _).length_le

/-- The tokens of a text. -/
def tokens (s : List Char) : List Token :=
  match s with
  | [] => []
  | c :: s =>
    if isSpace c then tokens s
    else if isMark c then .mark c :: tokens s
    else if c = '"' then .text (quoted s).1 :: tokens (quoted s).2
    else .word (c :: s.takeWhile isWord) :: tokens (s.dropWhile isWord)
termination_by s.length
decreasing_by
  · exact Nat.lt_succ_self _
  · exact Nat.lt_succ_self _
  · exact Nat.lt_succ_of_le (length_quoted_le s)
  · exact Nat.lt_succ_of_le (length_dropWord_le s)

theorem tokens_nil : tokens [] = [] := by
  rw [tokens]

theorem tokens_space {c : Char} (hc : isSpace c = true) (s : List Char) :
    tokens (c :: s) = tokens s := by
  rw [tokens, if_pos hc]

theorem isSpace_eq_false_of_isMark {c : Char} (hc : isMark c = true) : isSpace c = false := by
  simp only [isMark, Bool.or_eq_true, decide_eq_true_eq] at hc
  rcases hc with ((((rfl | rfl) | rfl) | rfl) | rfl) | rfl <;> rfl

theorem tokens_mark {c : Char} (hc : isMark c = true) (s : List Char) :
    tokens (c :: s) = .mark c :: tokens s := by
  rw [tokens, isSpace_eq_false_of_isMark hc, if_neg Bool.false_ne_true, if_pos hc]

theorem tokens_quote (s : List Char) :
    tokens ('"' :: s) = .text (quoted s).1 :: tokens (quoted s).2 := by
  rw [tokens]
  rfl

theorem tokens_skipSpace (s : List Char) : tokens (skipSpace s) = tokens s := by
  induction s with
  | nil => rfl
  | cons c s ih =>
    by_cases hc : isSpace c = true
    · rw [skipSpace, List.dropWhile_cons, if_pos hc, tokens_space hc, ← ih, skipSpace]
    · rw [skipSpace, List.dropWhile_cons, if_neg hc]

/-- A text that does not go on with a word. -/
def Bounded (s : List Char) : Prop :=
  ∀ c ∈ s.head?, isWord c = false

theorem isWord_iff {c : Char} :
    isWord c = true ↔ isSpace c = false ∧ isMark c = false ∧ c ≠ '"' := by
  simp [isWord, and_assoc]

/-- A word in front of something else is a token. -/
theorem tokens_word {w s : List Char} (hne : w ≠ []) (hw : ∀ c ∈ w, isWord c = true)
    (hs : Bounded s) : tokens (w ++ s) = .word w :: tokens s := by
  obtain ⟨c, w, rfl⟩ := List.exists_cons_of_ne_nil hne
  obtain ⟨hspace, hmark, hquote⟩ := isWord_iff.1 (hw c List.mem_cons_self)
  have hrest : ∀ d ∈ w, isWord d = true := fun d hd => hw d (List.mem_cons_of_mem _ hd)
  obtain ⟨htake, hdrop⟩ := span_append hrest hs
  rw [List.cons_append, tokens, hspace, hmark, if_neg Bool.false_ne_true,
    if_neg Bool.false_ne_true, if_neg hquote, htake, hdrop]

theorem isSpace_of_skipSpace {s t : List Char} {c : Char} (h : skipSpace s = c :: t) :
    isSpace c = false := by
  have hhead := List.head?_dropWhile_not isSpace s
  rw [show s.dropWhile isSpace = c :: t from h] at hhead
  simpa using hhead

/-- What a text starts with behind its white space. -/
theorem exists_of_tokens_eq_cons {s : List Char} {t : Token} {us : List Token}
    (h : tokens s = t :: us) : ∃ c r, skipSpace s = c :: r ∧ isSpace c = false ∧
      tokens (c :: r) = t :: us := by
  rw [← tokens_skipSpace] at h
  cases hs : skipSpace s with
  | nil =>
    rw [hs, tokens_nil] at h
    cases h
  | cons c r =>
    rw [hs] at h
    exact ⟨c, r, rfl, isSpace_of_skipSpace hs, h⟩

theorem skipSpace_of_tokens_eq_nil {s : List Char} (h : tokens s = []) : skipSpace s = [] := by
  cases hs : skipSpace s with
  | nil => rfl
  | cons c r =>
    rw [← tokens_skipSpace, hs, tokens, isSpace_of_skipSpace hs, if_neg Bool.false_ne_true] at h
    split at h
    · cases h
    · split at h <;> cases h

theorem exists_of_tokens_mark {s : List Char} {c : Char} {us : List Token}
    (h : tokens s = .mark c :: us) : ∃ r, skipSpace s = c :: r ∧ tokens r = us := by
  obtain ⟨d, r, hs, hspace, h⟩ := exists_of_tokens_eq_cons h
  rw [tokens, hspace, if_neg Bool.false_ne_true] at h
  split at h
  · cases h
    exact ⟨r, hs, rfl⟩
  · split at h <;> cases h

theorem exists_of_tokens_text {s q : List Char} {us : List Token}
    (h : tokens s = .text q :: us) : ∃ r, skipSpace s = '"' :: (q ++ r) ∧ tokens r = us := by
  obtain ⟨d, r, hs, hspace, h⟩ := exists_of_tokens_eq_cons h
  rw [tokens, hspace, if_neg Bool.false_ne_true] at h
  split at h
  · cases h
  · split at h
    next hquote =>
      cases h
      exact ⟨(quoted r).2, by rw [hs, hquote, quoted_append], rfl⟩
    next => cases h

theorem exists_of_tokens_word {s w : List Char} {us : List Token} (h : tokens s = .word w :: us) :
    ∃ r, skipSpace s = w ++ r ∧ Bounded r ∧ tokens r = us := by
  obtain ⟨d, r, hs, hspace, h⟩ := exists_of_tokens_eq_cons h
  rw [tokens, hspace, if_neg Bool.false_ne_true] at h
  split at h
  · cases h
  · split at h
    next => cases h
    next =>
      cases h
      refine ⟨r.dropWhile isWord, ?_, fun c hc => ?_, rfl⟩
      · rw [hs, List.cons_append, List.takeWhile_append_dropWhile]
      · have hhead := List.head?_dropWhile_not isWord r
        rw [hc] at hhead
        simpa using hhead

theorem length_tokens_le (s : List Char) : (tokens s).length ≤ s.length := by
  fun_induction tokens s with
  | case1 => exact Nat.le_refl 0
  | case2 c s _ ih => exact Nat.le_succ_of_le ih
  | case3 c s _ _ ih => exact Nat.succ_le_succ ih
  | case4 s _ _ ih => exact Nat.succ_le_succ (Nat.le_trans ih (length_quoted_le s))
  | case5 c s _ _ _ ih => exact Nat.succ_le_succ (Nat.le_trans ih (length_dropWord_le s))

/-! ## Strings -/

theorem quoted_plain {c : Char} (hquote : c ≠ '"') (hslash : c ≠ '\\') (s : List Char) :
    quoted (c :: s) = (c :: (quoted s).1, (quoted s).2) := by
  rw [quoted]
  · exact hquote
  · intro _ _ h
    exact absurd h hslash

/-- What is taken for a number has no quote and no backslash in it. -/
theorem plain_of_hex4? {a b c d : Char} {n : Nat} (h : hex4? a b c d = some n) :
    ∀ x ∈ [a, b, c, d], x ≠ '"' ∧ x ≠ '\\' := by
  have hdigits : ∀ {xs : List Char} {k m : Nat}, Text.continueIn? 16 k xs = some m →
      ∀ x ∈ xs, (Text.valueIn? 16 x).isSome := by
    intro xs
    induction xs with
    | nil => exact fun _ _ hx => by cases hx
    | cons x xs ih =>
      intro k m h y hy
      obtain ⟨v, hv, hrest⟩ := Option.bind_eq_some_iff.1 h
      rcases List.mem_cons.1 hy with rfl | hy
      · rw [hv]
        rfl
      · exact ih hrest y hy
  intro x hx
  have hvalue : (Text.valueIn? 16 x).isSome := hdigits h x hx
  constructor
  · rintro rfl
    cases hvalue
  · rintro rfl
    cases hvalue

/-- A text that is read as one piece of a string, and has no quote that could end it. -/
structure RawPiece.Writes (p : RawPiece) (w : List Char) : Prop where
  reads : ∀ s, rawString (w ++ s) = (rawString s).map fun r => (p :: r.1, r.2)
  passes : ∀ s, quoted (w ++ s) = (w ++ (quoted s).1, (quoted s).2)

theorem RawPiece.writes_unit {a b c d : Char} {n : Nat} (h : hex4? a b c d = some n) :
    (RawPiece.unit n).Writes ['\\', 'u', a, b, c, d] where
  reads := rawString_unit h
  passes s := by
    have hplain := plain_of_hex4? h
    have hdigit : ∀ {x t}, x ∈ [a, b, c, d] → quoted (x :: t) = (x :: (quoted t).1, (quoted t).2) :=
      fun hx => quoted_plain (hplain _ hx).1 (hplain _ hx).2 _
    simp only [List.cons_append, List.nil_append, quoted, hdigit (x := a) (by simp),
      hdigit (x := b) (by simp), hdigit (x := c) (by simp), hdigit (x := d) (by simp)]

theorem RawPiece.writes_escape {e c : Char} (hu : e ≠ 'u') (h : simpleEscape? e = some c) :
    (RawPiece.char c).Writes ['\\', e] where
  reads := rawString_simpleEscape hu h
  passes s := by
    rw [List.cons_append, List.cons_append, List.nil_append, quoted]
    rfl

theorem RawPiece.writes_plain {c : Char} (hquote : c ≠ '"') (hslash : c ≠ '\\')
    (hc : ¬ c.toNat < 0x20) : (RawPiece.char c).Writes [c] where
  reads := rawString_plain hquote hslash hc
  passes := quoted_plain hquote hslash

/-- A string that is read ends at once, or starts with one piece. -/
theorem rawString_cases {s rest : List Char} {ps : List RawPiece}
    (h : rawString s = some (ps, rest)) : s = '"' :: rest ∧ ps = [] ∨
      ∃ p w t qs, RawPiece.Writes p w ∧ s = w ++ t ∧ ps = p :: qs ∧
        rawString t = some (qs, rest) := by
  have piece : ∀ {p w t}, RawPiece.Writes p w → s = w ++ t → ∃ p w t qs, RawPiece.Writes p w ∧
      s = w ++ t ∧ ps = p :: qs ∧ rawString t = some (qs, rest) := by
    rintro p w t hw rfl
    rw [hw.reads] at h
    obtain ⟨r, hr, heq⟩ := Option.map_eq_some_iff.1 h
    cases heq
    exact ⟨p, w, t, r.1, hw, rfl, rfl, hr⟩
  have hread := h
  unfold rawString at h
  split at h
  next => cases h
  next =>
    cases h
    exact .inl ⟨rfl, rfl⟩
  next a b c d t =>
    obtain ⟨n, hn, -⟩ := Option.bind_eq_some_iff.1 h
    exact .inr (piece (RawPiece.writes_unit hn) rfl)
  next e t hu =>
    obtain ⟨c, hc, -⟩ := Option.bind_eq_some_iff.1 h
    refine .inr (piece (RawPiece.writes_escape (fun he => ?_) hc) rfl)
    rw [he] at hc
    cases hc
  next c t hquote _ _ =>
    by_cases hc : c.toNat < 0x20 ∨ c = '\\'
    · rw [if_pos hc] at h
      cases h
    · obtain ⟨hlow, hslash⟩ := not_or.1 hc
      exact .inr (piece (RawPiece.writes_plain hquote hslash hlow) rfl)

/-- A string is read up to the quote where it ends, whatever stands behind it. -/
theorem rawString_quoted {s rest : List Char} {ps : List RawPiece}
    (h : rawString s = some (ps, rest)) :
    (quoted s).2 = rest ∧ ∀ r, rawString ((quoted s).1 ++ r) = some (ps, r) := by
  induction ps generalizing s with
  | nil =>
    rcases rawString_cases h with ⟨rfl, -⟩ | ⟨p, w, t, qs, hw, hs, hps, ht⟩
    · exact ⟨rfl, fun r => by rw [quoted]; rfl⟩
    · cases hps
  | cons p ps ih =>
    rcases rawString_cases h with ⟨-, hps⟩ | ⟨p, w, t, qs, hw, rfl, hps, ht⟩
    · cases hps
    · cases hps
      obtain ⟨hrest, hreads⟩ := ih ht
      rw [hw.passes]
      refine ⟨hrest, fun r => ?_⟩
      rw [List.append_assoc, hw.reads, hreads]
      rfl

theorem stringBody_quoted {s rest : List Char} {t : Text} (h : stringBody s = some (t, rest)) :
    (quoted s).2 = rest ∧ ∀ r, stringBody ((quoted s).1 ++ r) = some (t, r) := by
  obtain ⟨p, hp, heq⟩ := Option.map_eq_some_iff.1 h
  cases heq
  obtain ⟨hrest, hreads⟩ := rawString_quoted hp
  exact ⟨hrest, fun r => by rw [stringBody, hreads, Option.map_some]⟩

/-- A whole string is read in front of every text. -/
theorem stringBody_append {q : List Char} {t : Text} (h : stringBody q = some (t, []))
    (r : List Char) : stringBody (q ++ r) = some (t, r) := by
  obtain ⟨hrest, hreads⟩ := stringBody_quoted h
  have hq : (quoted q).1 = q := by
    have happend := quoted_append q
    rwa [hrest, List.append_nil] at happend
  rw [← hq]
  exact hreads r

/-! ## Numbers -/

theorem eq_append_of_digitRun {s ds rest : List Char} (h : digitRun s = some (ds, rest)) :
    s = ds ++ rest ∧ IsRun ds := by
  unfold digitRun at h
  dsimp only at h
  split at h
  next => cases h
  next hne =>
    cases h
    exact ⟨List.takeWhile_append_dropWhile.symm, hne, List.all_eq_true.1 List.all_takeWhile⟩

theorem eq_append_of_wholePart {s ds rest : List Char} (h : wholePart s = some (ds, rest)) :
    s = ds ++ rest ∧ (ds = ['0'] ∨ IsRun ds ∧ ds.head? ≠ some '0') := by
  unfold wholePart at h
  split at h
  next =>
    cases h
    exact ⟨rfl, .inl rfl⟩
  next hzero =>
    obtain ⟨rfl, hrun⟩ := eq_append_of_digitRun h
    refine ⟨rfl, .inr ⟨hrun, fun hhead => ?_⟩⟩
    obtain ⟨ds, rfl⟩ := List.head?_eq_some_iff.1 hhead
    exact hzero _ rfl

theorem eq_append_of_fractionPart {s rest : List Char} {f : Option (List Char)}
    (h : fractionPart s = some (f, rest)) : s = fractionText f ++ rest ∧ ∀ ds ∈ f, IsRun ds := by
  unfold fractionPart at h
  split at h
  next =>
    obtain ⟨p, hp, heq⟩ := Option.map_eq_some_iff.1 h
    cases heq
    obtain ⟨rfl, hrun⟩ := eq_append_of_digitRun hp
    exact ⟨rfl, fun ds hds => Option.some.inj hds ▸ hrun⟩
  next =>
    cases h
    exact ⟨rfl, fun ds hds => by cases hds⟩

/-- The digits of an exponent behind its sign. -/
theorem exists_of_map_digitRun {s rest : List Char} {negative : Bool}
    {e : Option (Bool × List Char)}
    (h : (digitRun s).map (fun p => (some (negative, p.1), p.2)) = some (e, rest)) :
    ∃ ds, e = some (negative, ds) ∧ s = ds ++ rest ∧ IsRun ds := by
  obtain ⟨p, hp, heq⟩ := Option.map_eq_some_iff.1 h
  cases heq
  exact ⟨p.1, rfl, eq_append_of_digitRun hp⟩

theorem WritesExponent.isRun {e : Option (Bool × List Char)} {t : List Char}
    (h : WritesExponent e t) : ∀ x ∈ e, IsRun x.2 := by
  intro x hx
  cases h with
  | none => cases hx
  | negative _ hds | plus _ hds | unsigned _ hds =>
    cases hx
    exact hds

theorem exists_of_exponentPart {s rest : List Char} {e : Option (Bool × List Char)}
    (h : exponentPart s = some (e, rest)) : ∃ t, WritesExponent e t ∧ s = t ++ rest := by
  unfold exponentPart at h
  dsimp only at h
  split at h
  next =>
    split at h
    all_goals obtain ⟨ds, rfl, rfl, hds⟩ := exists_of_map_digitRun h
    · exact ⟨_, .negative (.inl rfl) hds, rfl⟩
    · exact ⟨_, .plus (.inl rfl) hds, rfl⟩
    · exact ⟨_, .unsigned (.inl rfl) hds, rfl⟩
  next =>
    split at h
    all_goals obtain ⟨ds, rfl, rfl, hds⟩ := exists_of_map_digitRun h
    · exact ⟨_, .negative (.inr rfl) hds, rfl⟩
    · exact ⟨_, .plus (.inr rfl) hds, rfl⟩
    · exact ⟨_, .unsigned (.inr rfl) hds, rfl⟩
  next =>
    cases h
    exact ⟨[], .none, rfl⟩

/-- What is read as a number is one way to write it. -/
theorem exists_of_numeral {s rest : List Char} {n : Numeral} (h : numeral s = some (n, rest)) :
    ∃ w, n.Writes w ∧ s = w ++ rest := by
  unfold numeral at h
  split at h
  next negative t hsigned =>
    have hsign : s = (if negative then ['-'] else []) ++ t := by
      split at hsigned <;> cases hsigned <;> rfl
    obtain ⟨⟨whole, t⟩, hwhole, h⟩ := Option.bind_eq_some_iff.1 h
    obtain ⟨⟨fraction, t⟩, hfraction, h⟩ := Option.bind_eq_some_iff.1 h
    obtain ⟨⟨exponent, t⟩, hexponent, h⟩ := Option.bind_eq_some_iff.1 h
    cases h
    obtain ⟨rfl, hdigits⟩ := eq_append_of_wholePart hwhole
    obtain ⟨rfl, hruns⟩ := eq_append_of_fractionPart hfraction
    obtain ⟨e, he, rfl⟩ := exists_of_exponentPart hexponent
    refine ⟨_, ⟨⟨hdigits, hruns, he.isRun⟩, e, he, rfl⟩, ?_⟩
    rw [hsign, List.append_assoc, List.append_assoc, List.append_assoc]

theorem isWord_of_isDigit {c : Char} (hc : Text.isDigit c = true) : isWord c = true := by
  cases hword : isWord c with
  | true => rfl
  | false =>
    simp only [isWord, isSpace, isMark, Bool.and_eq_false_iff, Bool.not_eq_false', Bool.or_eq_true,
      decide_eq_true_eq, bne_eq_false_iff_eq] at hword
    -- None of the characters that end a word is a digit.
    rcases hword with ((((rfl | rfl) | rfl) | rfl) |
      ((((rfl | rfl) | rfl) | rfl) | rfl) | rfl) | rfl <;> cases hc

theorem IsRun.isWord {ds : List Char} (hds : IsRun ds) : ∀ c ∈ ds, isWord c = true :=
  fun c hc => isWord_of_isDigit (hds.digits c hc)

theorem WritesExponent.isWord {e : Option (Bool × List Char)} {t : List Char}
    (h : WritesExponent e t) : ∀ c ∈ t, isWord c = true := by
  have hletter : ∀ {c : Char}, c = 'e' ∨ c = 'E' → Json.isWord c = true := by
    rintro c (rfl | rfl) <;> rfl
  cases h with
  | none => exact fun c hc => by cases hc
  | negative h hds | plus h hds =>
    exact List.forall_mem_cons.2 ⟨hletter h, List.forall_mem_cons.2 ⟨rfl, hds.isWord⟩⟩
  | unsigned h hds => exact List.forall_mem_cons.2 ⟨hletter h, hds.isWord⟩

/-- A number is a word. -/
theorem Numeral.Writes.isWord {n : Numeral} {w : List Char} (h : n.Writes w) :
    w ≠ [] ∧ ∀ c ∈ w, isWord c = true := by
  obtain ⟨hn, e, he, rfl⟩ := h
  obtain ⟨d, ds, hd, -⟩ := hn.exists_digit
  refine ⟨by simp [hd], fun c hc => ?_⟩
  simp only [List.mem_append] at hc
  rcases hc with hc | hc | hc | hc
  · split at hc
    · rw [List.mem_singleton.1 hc]
      rfl
    · cases hc
  · rcases hn.whole with hzero | ⟨hrun, -⟩
    · rw [hzero] at hc
      rw [List.mem_singleton.1 hc]
      rfl
    · exact hrun.isWord c hc
  · cases hfraction : n.fraction with
    | none =>
      rw [hfraction] at hc
      cases hc
    | some fs =>
      rw [hfraction] at hc
      rcases List.mem_cons.1 hc with rfl | hc
      · rfl
      · exact (hn.fraction fs hfraction).isWord c hc
  · exact he.isWord c hc

/-- A text that does not go on with a word does not go on with a number. -/
theorem Bounded.stops {s : List Char} (h : Bounded s) : Stops s := by
  intro c hc
  have hword : Json.isWord c = false := h c hc
  refine ⟨?_, ?_, ?_, ?_⟩
  · cases hdigit : Text.isDigit c with
    | false => rfl
    | true =>
      rw [isWord_of_isDigit hdigit] at hword
      cases hword
  all_goals
    rintro rfl
    cases hword

end EvictionBus.Json
