import EvictionBus.Json.Parse
import EvictionBus.Json.Print

/-!
# Strings and numbers are read back

Every string is read back as it was: each character stands for itself or for an escape, and what is
read for it is that character again.  A number is read back digit by digit if it is written as JSON
has it; that nothing is read beyond its end depends on the text that follows.
-/

namespace EvictionBus.Json

/-! ## Strings -/

theorem hex4?_hexDigits : ∀ n < 0x20,
    hex4? (Bytes.hexDigit .lower (n / 4096 % 16)) (Bytes.hexDigit .lower (n / 256 % 16))
      (Bytes.hexDigit .lower (n / 16 % 16)) (Bytes.hexDigit .lower (n % 16)) = some n := by
  decide

theorem rawString_unit {a b c d : Char} {n : Nat} (h : hex4? a b c d = some n) (s : List Char) :
    rawString ('\\' :: 'u' :: a :: b :: c :: d :: s) =
      (rawString s).map fun r => (.unit n :: r.1, r.2) := by
  rw [rawString, h]
  cases rawString s <;> rfl

theorem rawString_hexUnit {n : Nat} (hn : n < 0x20) (s : List Char) :
    rawString (hexUnit n ++ s) = (rawString s).map fun r => (.unit n :: r.1, r.2) :=
  rawString_unit (hex4?_hexDigits n hn) s

theorem rawString_simpleEscape {e c : Char} (hu : e ≠ 'u') (h : simpleEscape? e = some c)
    (s : List Char) :
    rawString ('\\' :: e :: s) = (rawString s).map fun r => (.char c :: r.1, r.2) := by
  rw [rawString, h]
  · cases rawString s <;> rfl
  · intro _ _ _ _ _ he
    exact absurd he hu

theorem rawString_plain {c : Char} (hquote : c ≠ '"') (hslash : c ≠ '\\') (hc : ¬ c.toNat < 0x20)
    (s : List Char) :
    rawString (c :: s) = (rawString s).map fun r => (.char c :: r.1, r.2) := by
  rw [rawString, if_neg (not_or.2 ⟨hc, hslash⟩)]
  · cases rawString s <;> rfl
  · exact hquote
  · intro _ _ _ _ _ he
    exact absurd he hslash
  · intro _ _ he
    exact absurd he hslash

/-- A code unit below the surrogates is a character whatever follows. -/
theorem pairSurrogates_unit {n : Nat} (hn : n < 0x20) (ps : List RawPiece) :
    pairSurrogates (.unit n :: ps) = .char (Char.ofNat n) :: pairSurrogates ps := by
  have hhigh : isHighSurrogate n = false := by
    simp only [isHighSurrogate, Bool.and_eq_false_iff, decide_eq_false_iff_not]
    omega
  have hlow : isLowSurrogate n = false := by
    simp only [isLowSurrogate, Bool.and_eq_false_iff, decide_eq_false_iff_not]
    omega
  cases ps with
  | nil => simp [pairSurrogates, hhigh, hlow]
  | cons p ps => cases p <;> simp [pairSurrogates, hhigh, hlow]

/-- A character is read back from what is written for it. -/
theorem exists_rawString_escapeChar (c : Char) : ∃ p : RawPiece,
    (∀ s, rawString (escapeChar c ++ s) = (rawString s).map fun r => (p :: r.1, r.2)) ∧
    ∀ ps, pairSurrogates (p :: ps) = .char c :: pairSurrogates ps := by
  -- Seven characters have an escape of one letter, other control characters one of four digits.
  have simple : ∀ {e c : Char}, e ≠ 'u' → simpleEscape? e = some c → ∃ p : RawPiece,
      (∀ s, rawString (['\\', e] ++ s) = (rawString s).map fun r => (p :: r.1, r.2)) ∧
      ∀ ps, pairSurrogates (p :: ps) = .char c :: pairSurrogates ps :=
    fun {e c} hu h => ⟨.char c, rawString_simpleEscape hu h, fun _ => by rw [pairSurrogates]⟩
  unfold escapeChar
  split
  case h_8 hquote hslash _ _ _ _ _ =>
    split
    next hc =>
      refine ⟨.unit c.toNat, rawString_hexUnit hc, fun ps => ?_⟩
      rw [pairSurrogates_unit hc, Char.ofNat_toNat]
    next hc => exact ⟨.char c, rawString_plain hquote hslash hc, fun _ => by rw [pairSurrogates]⟩
  all_goals exact simple (by decide) rfl

/-- A string is read back, and what is behind it is left. -/
theorem stringBody_ofString (cs rest : List Char) :
    stringBody (cs.flatMap escapeChar ++ '"' :: rest) = some (cs.map .char, rest) := by
  have h : ∃ ps, rawString (cs.flatMap escapeChar ++ '"' :: rest) = some (ps, rest) ∧
      pairSurrogates ps = cs.map .char := by
    induction cs with
    | nil => exact ⟨[], by rw [List.flatMap_nil, List.nil_append, rawString], rfl⟩
    | cons c cs ih =>
      obtain ⟨ps, hps, hpaired⟩ := ih
      obtain ⟨p, hread, hp⟩ := exists_rawString_escapeChar c
      refine ⟨p :: ps, ?_, by rw [hp, hpaired, List.map_cons]⟩
      rw [List.flatMap_cons, List.append_assoc, hread, hps]
      rfl
  obtain ⟨ps, hps, hpaired⟩ := h
  rw [stringBody, hps, Option.map_some, hpaired]

/-! ## Numbers -/

/-- A run of digits that is not empty. -/
structure IsRun (ds : List Char) : Prop where
  ne_nil : ds ≠ []
  digits : ∀ c ∈ ds, Text.isDigit c = true

/-- A number as JSON writes it: no digits are missing and none are in excess. -/
structure Numeral.WellFormed (n : Numeral) : Prop where
  whole : n.whole = ['0'] ∨ IsRun n.whole ∧ n.whole.head? ≠ some '0'
  fraction : ∀ ds ∈ n.fraction, IsRun ds
  exponent : ∀ e ∈ n.exponent, IsRun e.2

/-- A text that does not go on with what could belong to a number before it. -/
def Stops (s : List Char) : Prop :=
  ∀ c ∈ s.head?, Text.isDigit c = false ∧ c ≠ '.' ∧ c ≠ 'e' ∧ c ≠ 'E'

/-- A text that does not go on with a digit. -/
def NoDigit (s : List Char) : Prop :=
  ∀ c ∈ s.head?, Text.isDigit c = false

theorem Stops.noDigit {s : List Char} (h : Stops s) : NoDigit s :=
  fun c hc => (h c hc).1

/-- A run of characters of one kind ends where a character of another kind stands. -/
theorem span_append {p : Char → Bool} {w s : List Char} (hw : ∀ c ∈ w, p c = true)
    (hs : ∀ c ∈ s.head?, p c = false) : (w ++ s).takeWhile p = w ∧ (w ++ s).dropWhile p = s := by
  have hrest : s.takeWhile p = [] ∧ s.dropWhile p = s := by
    cases s with
    | nil => exact ⟨rfl, rfl⟩
    | cons c s =>
      rw [List.takeWhile_cons, List.dropWhile_cons, hs c rfl]
      exact ⟨rfl, rfl⟩
  rw [List.takeWhile_append_of_pos hw, List.dropWhile_append_of_pos hw, hrest.1, hrest.2,
    List.append_nil]
  exact ⟨rfl, rfl⟩

theorem digitRun_append {ds s : List Char} (hds : IsRun ds) (hs : NoDigit s) :
    digitRun (ds ++ s) = some (ds, s) := by
  obtain ⟨htake, hdrop⟩ := span_append hds.digits hs
  rw [digitRun, htake, hdrop, if_neg hds.ne_nil]

theorem wholePart_append {ds s : List Char}
    (hds : ds = ['0'] ∨ IsRun ds ∧ ds.head? ≠ some '0') (hs : NoDigit s) :
    wholePart (ds ++ s) = some (ds, s) := by
  rcases hds with rfl | ⟨hrun, hhead⟩
  · rfl
  · unfold wholePart
    split
    next rest heq =>
      cases ds with
      | nil => exact absurd rfl hrun.ne_nil
      | cons d ds =>
        rw [List.cons_append] at heq
        exact absurd (congrArg some (List.cons.inj heq).1) hhead
    next => exact digitRun_append hrun hs

/-- What is written for the digits after the point. -/
def fractionText : Option (List Char) → List Char
  | none => []
  | some ds => '.' :: ds

/-- What is written for an exponent. -/
def exponentText : Option (Bool × List Char) → List Char
  | none => []
  | some (negative, ds) => 'e' :: if negative then '-' :: ds else ds

theorem printNumeral_eq (n : Numeral) : printNumeral n =
    (if n.negative then ['-'] else []) ++
      (n.whole ++ (fractionText n.fraction ++ exponentText n.exponent)) := by
  simp only [printNumeral, List.append_assoc]
  rfl

theorem fractionPart_append {f : Option (List Char)} {s : List Char} (hf : ∀ ds ∈ f, IsRun ds)
    (hs : NoDigit s) (hpoint : s.head? ≠ some '.') :
    fractionPart (fractionText f ++ s) = some (f, s) := by
  cases f with
  | none =>
    rw [fractionText, List.nil_append]
    unfold fractionPart
    split
    next => exact absurd rfl hpoint
    next => rfl
  | some ds =>
    rw [fractionText, List.cons_append, fractionPart, digitRun_append (hf ds rfl) hs]
    rfl

/-- How an exponent may be written: with either letter, and with a plus sign or no sign if it is not
negative. -/
inductive WritesExponent : Option (Bool × List Char) → List Char → Prop
  | none : WritesExponent none []
  | negative {letter : Char} {ds : List Char} (hletter : letter = 'e' ∨ letter = 'E')
      (hds : IsRun ds) : WritesExponent (some (true, ds)) (letter :: '-' :: ds)
  | plus {letter : Char} {ds : List Char} (hletter : letter = 'e' ∨ letter = 'E')
      (hds : IsRun ds) : WritesExponent (some (false, ds)) (letter :: '+' :: ds)
  | unsigned {letter : Char} {ds : List Char} (hletter : letter = 'e' ∨ letter = 'E')
      (hds : IsRun ds) : WritesExponent (some (false, ds)) (letter :: ds)

theorem writesExponent_exponentText {e : Option (Bool × List Char)} (he : ∀ x ∈ e, IsRun x.2) :
    WritesExponent e (exponentText e) := by
  cases e with
  | none => exact .none
  | some x =>
    obtain ⟨negative, ds⟩ := x
    have hrun : IsRun ds := he _ rfl
    cases negative with
    | true => exact .negative (.inl rfl) hrun
    | false => exact .unsigned (.inl rfl) hrun

theorem exponentPart_append {e : Option (Bool × List Char)} {t s : List Char}
    (he : WritesExponent e t) (hs : Stops s) : exponentPart (t ++ s) = some (e, s) := by
  cases he with
  | none =>
    rw [List.nil_append]
    unfold exponentPart
    dsimp only
    split
    next => exact absurd rfl (hs 'e' rfl).2.2.1
    next => exact absurd rfl (hs 'E' rfl).2.2.2
    next => rfl
  | negative hletter hds =>
    rcases hletter with rfl | rfl
    all_goals
      change (digitRun (_ ++ s)).map _ = _
      rw [digitRun_append hds hs.noDigit]
      rfl
  | plus hletter hds =>
    rcases hletter with rfl | rfl
    all_goals
      change (digitRun (_ ++ s)).map _ = _
      rw [digitRun_append hds hs.noDigit]
      rfl
  | unsigned hletter hds =>
    -- The digits do not start with a sign.
    obtain ⟨d, ds, rfl⟩ := List.exists_cons_of_ne_nil hds.ne_nil
    have hd : Text.isDigit d = true := hds.digits d List.mem_cons_self
    rcases hletter with rfl | rfl
    all_goals
      simp only [List.cons_append, exponentPart]
      split
      next heq => rw [(List.cons.inj heq).1] at hd; cases hd
      next heq => rw [(List.cons.inj heq).1] at hd; cases hd
      next => rw [← List.cons_append, digitRun_append hds hs.noDigit]; rfl

/-- In front of an exponent the digits of a number end, and so they do if there is none. -/
theorem WritesExponent.head_append {e : Option (Bool × List Char)} {t s : List Char}
    (he : WritesExponent e t) (hs : Stops s) : NoDigit (t ++ s) ∧ (t ++ s).head? ≠ some '.' := by
  have hletter : ∀ {c : Char}, c = 'e' ∨ c = 'E' → Text.isDigit c = false ∧ c ≠ '.' := by
    rintro c (rfl | rfl) <;> decide
  cases he with
  | none => exact ⟨hs.noDigit, fun h => (hs '.' h).2.1 rfl⟩
  | negative h | plus h | unsigned h =>
    exact ⟨fun c hc => Option.some.inj hc ▸ (hletter h).1,
      fun hpoint => (hletter h).2 (Option.some.inj hpoint)⟩

/-- What is read of a number behind its sign. -/
theorem unsigned_append {n : Numeral} (hn : n.WellFormed) {e : List Char}
    (he : WritesExponent n.exponent e) {s : List Char} (hs : Stops s) :
    (wholePart (n.whole ++ (fractionText n.fraction ++ (e ++ s))) =
      some (n.whole, fractionText n.fraction ++ (e ++ s))) ∧
    (fractionPart (fractionText n.fraction ++ (e ++ s)) = some (n.fraction, e ++ s)) ∧
    exponentPart (e ++ s) = some (n.exponent, s) := by
  have hpart : exponentPart (e ++ s) = some (n.exponent, s) := exponentPart_append he hs
  have hexponent := he.head_append hs
  have hfraction : NoDigit (fractionText n.fraction ++ (e ++ s)) := by
    cases n.fraction with
    | none => exact hexponent.1
    | some ds =>
      intro c hc
      cases hc
      rfl
  exact ⟨wholePart_append hn.whole hfraction,
    fractionPart_append hn.fraction hexponent.1 hexponent.2, hpart⟩

theorem Numeral.WellFormed.exists_digit {n : Numeral} (hn : n.WellFormed) :
    ∃ d ds, n.whole = d :: ds ∧ Text.isDigit d = true := by
  rcases hn.whole with h | ⟨h, -⟩
  · exact ⟨'0', [], h, rfl⟩
  · obtain ⟨d, ds, hds⟩ := List.exists_cons_of_ne_nil h.ne_nil
    exact ⟨d, ds, hds, h.digits d (by rw [hds]; exact List.mem_cons_self)⟩

/-- How a number may be written. -/
structure Numeral.Writes (n : Numeral) (w : List Char) : Prop where
  wellFormed : n.WellFormed
  text : ∃ e, WritesExponent n.exponent e ∧
    w = (if n.negative then ['-'] else []) ++ (n.whole ++ (fractionText n.fraction ++ e))

theorem Numeral.WellFormed.writes {n : Numeral} (hn : n.WellFormed) : n.Writes (printNumeral n) :=
  ⟨hn, exponentText n.exponent, writesExponent_exponentText hn.exponent, printNumeral_eq n⟩

/-- A number is read as far as it goes, and what is behind it is left. -/
theorem Numeral.Writes.reads {n : Numeral} {w s : List Char} (hw : n.Writes w) (hs : Stops s) :
    numeral (w ++ s) = some (n, s) := by
  obtain ⟨hn, e, he, rfl⟩ := hw
  obtain ⟨hwhole, hfraction, hexponent⟩ := unsigned_append hn he hs
  obtain ⟨d, ds, hd, hdigit⟩ := hn.exists_digit
  obtain ⟨negative, whole, fraction, exponent⟩ := n
  rw [List.append_assoc, List.append_assoc, List.append_assoc]
  dsimp only at *
  cases negative with
  | true => simp [numeral, hwhole, hfraction, hexponent]
  | false =>
    subst hd
    -- The first digit is not taken for a sign.
    have hminus : d ≠ '-' := by
      rintro rfl
      cases hdigit
    rw [List.cons_append] at hwhole
    simp [numeral, hminus, hwhole, hfraction, hexponent]

theorem Numeral.Writes.head {n : Numeral} {w : List Char} (h : n.Writes w) :
    ∃ c s, w = c :: s ∧ ∀ x, x ≠ '-' → Text.isDigit x = false → c ≠ x := by
  obtain ⟨hn, e, -, rfl⟩ := h
  obtain ⟨d, ds, hd, hdigit⟩ := hn.exists_digit
  rw [hd]
  cases n.negative with
  | true => exact ⟨'-', _, rfl, fun x hx _ => hx.symm⟩
  | false =>
    refine ⟨d, _, rfl, fun x _ hx heq => ?_⟩
    rw [← heq, hdigit] at hx
    cases hx

/-- A value that starts as a number does is a number. -/
theorem Numeral.Writes.value {n : Numeral} {w s : List Char} (hw : n.Writes w) (hs : Stops s)
    (fuel : Nat) : value (fuel + 1) (w ++ s) = some (.number n, s) := by
  have hread := hw.reads hs
  obtain ⟨c, u, rfl, hne⟩ := hw.head
  rw [List.cons_append] at hread ⊢
  -- The first character leaves no other kind of value.
  rw [Json.value, hread]
  · rfl
  all_goals
    intro _ heq
    exact absurd (List.cons.inj heq).1 (hne _ (by decide) rfl)

end EvictionBus.Json
