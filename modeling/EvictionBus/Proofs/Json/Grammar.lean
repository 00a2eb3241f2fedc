import EvictionBus.Proofs.Json.Lexing

/-!
# The grammar of JSON

A text is read as a value if and only if its tokens spell that value (`parse_eq_some_iff`).  So what
is read depends on the tokens of a text only, and white space between them does not matter.
-/

namespace EvictionBus.Json

/-! ## The grammar -/

/-- A value, or what stands between the brackets of an array or the braces of an object. -/
inductive Phrase where
  | value (v : Value)
  | items (vs : List Value)
  | members (ms : List (Text × Value))

/-- The tokens that spell a phrase. -/
inductive Spells : Phrase → List Token → Prop
  | null : Spells (.value .null) [.word ['n', 'u', 'l', 'l']]
  | true : Spells (.value (.bool true)) [.word ['t', 'r', 'u', 'e']]
  | false : Spells (.value (.bool false)) [.word ['f', 'a', 'l', 's', 'e']]
  | number {n : Numeral} {w : List Char} (h : n.Writes w) : Spells (.value (.number n)) [.word w]
  | string {t : Text} {q : List Char} (h : stringBody q = some (t, [])) :
      Spells (.value (.string t)) [.text q]
  | emptyArray : Spells (.value (.array [])) [.mark '[', .mark ']']
  | array {vs : List Value} {ts : List Token} (h : Spells (.items vs) ts) :
      Spells (.value (.array vs)) (.mark '[' :: (ts ++ [.mark ']']))
  | emptyObject : Spells (.value (.object [])) [.mark '{', .mark '}']
  | object {ms : List (Text × Value)} {ts : List Token} (h : Spells (.members ms) ts) :
      Spells (.value (.object ms)) (.mark '{' :: (ts ++ [.mark '}']))
  | item {v : Value} {ts : List Token} (h : Spells (.value v) ts) : Spells (.items [v]) ts
  | items {v : Value} {vs : List Value} {ts us : List Token} (h : Spells (.value v) ts)
      (hs : Spells (.items vs) us) : Spells (.items (v :: vs)) (ts ++ .mark ',' :: us)
  | member {name : Text} {q : List Char} {v : Value} {ts : List Token}
      (hname : stringBody q = some (name, [])) (h : Spells (.value v) ts) :
      Spells (.members [(name, v)]) (.text q :: .mark ':' :: ts)
  | members {name : Text} {q : List Char} {v : Value} {ms : List (Text × Value)}
      {ts us : List Token} (hname : stringBody q = some (name, [])) (h : Spells (.value v) ts)
      (hs : Spells (.members ms) us) :
      Spells (.members ((name, v) :: ms)) (.text q :: .mark ':' :: (ts ++ .mark ',' :: us))

/-- Nothing that is spelled starts with a closing bracket or brace. -/
theorem Spells.head {p : Phrase} {ts : List Token} (h : Spells p ts) :
    ∃ t us, ts = t :: us ∧ t ≠ .mark ']' ∧ t ≠ .mark '}' := by
  induction h with
  | items _ _ ih _ =>
    obtain ⟨t, us, rfl, ht⟩ := ih
    exact ⟨t, _, rfl, ht⟩
  | item _ ih => exact ih
  | null | true | false | number | string | emptyArray | array | emptyObject | object | member
  | members => exact ⟨_, _, rfl, by simp, by simp⟩

/-! ## What the reader does with the parts -/

theorem expect_append (word rest : List Char) : expect word (word ++ rest) = some rest := by
  rw [expect, if_pos (List.isPrefixOf_iff_prefix.2 (List.prefix_append word rest)), List.drop_left]

theorem eq_append_of_expect {word s rest : List Char} (h : expect word s = some rest) :
    s = word ++ rest := by
  unfold expect at h
  split at h
  next hprefix =>
    cases h
    exact (List.prefix_iff_eq_append.1 (List.isPrefixOf_iff_prefix.1 hprefix)).symm
  next => cases h

theorem bounded_nil : Bounded [] :=
  fun c hc => by cases hc

theorem bounded_cons {c : Char} (hc : isWord c = false) (s : List Char) : Bounded (c :: s) :=
  fun _ hd => Option.some.inj hd ▸ hc

theorem bounded_of_skipSpace {s : List Char} (h : Bounded (skipSpace s)) : Bounded s := by
  cases s with
  | nil => exact bounded_nil
  | cons c s =>
    cases hc : isSpace c with
    | true => exact bounded_cons (by rw [isWord, hc]; rfl) s
    | false =>
      rw [skipSpace, List.dropWhile_cons, hc] at h
      exact h

/-! ## What is read is spelled -/

/-- What is read with some fuel is spelled by the tokens that are gone. -/
structure Sound (fuel : Nat) : Prop where
  value : ∀ {s v rest}, Json.value fuel s = some (v, rest) → Bounded rest →
    ∃ ts, Spells (.value v) ts ∧ tokens s = ts ++ tokens rest
  items : ∀ {s vs rest}, Json.items fuel s = some (vs, rest) →
    ∃ ts, Spells (.items vs) ts ∧ tokens s = ts ++ .mark ']' :: tokens rest
  members : ∀ {s ms rest}, Json.members fuel s = some (ms, rest) →
    ∃ ts, Spells (.members ms) ts ∧ tokens s = ts ++ .mark '}' :: tokens rest

/-- A literal that is read is a word. -/
theorem exists_of_literal {c : Char} {w s rest : List Char} {u v : Value}
    (hread : (expect w s).map (fun t => (u, t)) = some (v, rest))
    (hu : Spells (.value u) [.word (c :: w)]) (hw : (c :: w).all isWord = true)
    (hrest : Bounded rest) : ∃ ts, Spells (.value v) ts ∧ tokens (c :: s) = ts ++ tokens rest := by
  obtain ⟨t, ht, hv⟩ := Option.map_eq_some_iff.1 hread
  cases hv
  rw [eq_append_of_expect ht]
  exact ⟨_, hu, tokens_word (List.cons_ne_nil c w) (List.all_eq_true.1 hw) hrest⟩

theorem Sound.value_succ {fuel : Nat} (h : Sound fuel) {s rest : List Char} {v : Value}
    (hread : Json.value (fuel + 1) s = some (v, rest)) (hrest : Bounded rest) :
    ∃ ts, Spells (.value v) ts ∧ tokens s = ts ++ tokens rest := by
  unfold Json.value at hread
  split at hread
  next s =>
    rw [tokens_mark rfl, ← tokens_skipSpace]
    split at hread
    next s heq =>
      cases hread
      rw [heq, tokens_mark rfl]
      exact ⟨_, .emptyObject, rfl⟩
    next =>
      obtain ⟨p, hp, hv⟩ := Option.map_eq_some_iff.1 hread
      cases hv
      obtain ⟨ts, hts, htokens⟩ := h.members hp
      exact ⟨_, .object hts, by rw [htokens]; simp⟩
  next s =>
    rw [tokens_mark rfl, ← tokens_skipSpace]
    split at hread
    next s heq =>
      cases hread
      rw [heq, tokens_mark rfl]
      exact ⟨_, .emptyArray, rfl⟩
    next =>
      obtain ⟨p, hp, hv⟩ := Option.map_eq_some_iff.1 hread
      cases hv
      obtain ⟨ts, hts, htokens⟩ := h.items hp
      exact ⟨_, .array hts, by rw [htokens]; simp⟩
  next s =>
    obtain ⟨p, hp, hv⟩ := Option.map_eq_some_iff.1 hread
    cases hv
    obtain ⟨hend, hreads⟩ := stringBody_quoted hp
    have hq := hreads []
    rw [List.append_nil] at hq
    rw [tokens_quote, hend]
    exact ⟨_, .string hq, rfl⟩
  next => exact exists_of_literal hread .null rfl hrest
  next => exact exists_of_literal hread .true rfl hrest
  next => exact exists_of_literal hread .false rfl hrest
  next =>
    obtain ⟨p, hp, hv⟩ := Option.map_eq_some_iff.1 hread
    cases hv
    obtain ⟨w, hw, rfl⟩ := exists_of_numeral hp
    exact ⟨_, .number hw, tokens_word hw.isWord.1 hw.isWord.2 hrest⟩

theorem Sound.items_succ {fuel : Nat} (h : Sound fuel) {s rest : List Char} {vs : List Value}
    (hread : Json.items (fuel + 1) s = some (vs, rest)) :
    ∃ ts, Spells (.items vs) ts ∧ tokens s = ts ++ .mark ']' :: tokens rest := by
  unfold Json.items at hread
  obtain ⟨⟨v, t⟩, hv, hread⟩ := Option.bind_eq_some_iff.1 hread
  dsimp only at hread
  split at hread
  next u heq =>
    cases hread
    have ht : Bounded t := bounded_of_skipSpace (heq ▸ bounded_cons rfl _)
    obtain ⟨ts, hts, htokens⟩ := h.value hv ht
    rw [htokens, ← tokens_skipSpace t, heq, tokens_mark rfl]
    exact ⟨ts, .item hts, rfl⟩
  next u heq =>
    obtain ⟨⟨ws, r⟩, hws, hread⟩ := Option.bind_eq_some_iff.1 hread
    cases hread
    have ht : Bounded t := bounded_of_skipSpace (heq ▸ bounded_cons rfl _)
    obtain ⟨ts, hts, htokens⟩ := h.value hv ht
    obtain ⟨us, hus, hmore⟩ := h.items hws
    rw [tokens_skipSpace] at hmore
    rw [htokens, ← tokens_skipSpace t, heq, tokens_mark rfl, hmore]
    exact ⟨_, .items hts hus, by simp⟩
  next => cases hread

theorem Sound.members_succ {fuel : Nat} (h : Sound fuel) {s rest : List Char}
    {ms : List (Text × Value)} (hread : Json.members (fuel + 1) s = some (ms, rest)) :
    ∃ ts, Spells (.members ms) ts ∧ tokens s = ts ++ .mark '}' :: tokens rest := by
  unfold Json.members at hread
  obtain ⟨a, ha, hread⟩ := Option.bind_eq_some_iff.1 hread
  obtain ⟨⟨name, b⟩, hb, hread⟩ := Option.bind_eq_some_iff.1 hread
  obtain ⟨c, hc, hread⟩ := Option.bind_eq_some_iff.1 hread
  obtain ⟨⟨v, t⟩, hv, hread⟩ := Option.bind_eq_some_iff.1 hread
  dsimp only at hc hread
  obtain ⟨hend, hreads⟩ := stringBody_quoted hb
  have hname := hreads []
  rw [List.append_nil] at hname
  -- The name, the colon and the value behind it.
  have hstart : tokens s = .text (quoted a).1 :: .mark ':' :: tokens (skipSpace c) := by
    rw [eq_append_of_expect ha, List.singleton_append, tokens_quote, hend, ← tokens_skipSpace b,
      eq_append_of_expect hc, List.singleton_append, tokens_mark rfl, tokens_skipSpace]
  split at hread
  next u heq =>
    cases hread
    have ht : Bounded t := bounded_of_skipSpace (heq ▸ bounded_cons rfl _)
    obtain ⟨ts, hts, htokens⟩ := h.value hv ht
    rw [hstart, htokens, ← tokens_skipSpace t, heq, tokens_mark rfl]
    exact ⟨_, .member hname hts, rfl⟩
  next u heq =>
    obtain ⟨⟨ns, r⟩, hns, hread⟩ := Option.bind_eq_some_iff.1 hread
    cases hread
    have ht : Bounded t := bounded_of_skipSpace (heq ▸ bounded_cons rfl _)
    obtain ⟨ts, hts, htokens⟩ := h.value hv ht
    obtain ⟨us, hus, hmore⟩ := h.members hns
    rw [tokens_skipSpace] at hmore
    rw [hstart, htokens, ← tokens_skipSpace t, heq, tokens_mark rfl, hmore]
    exact ⟨_, .members hname hts hus, by simp⟩
  next => cases hread

theorem sound (fuel : Nat) : Sound fuel := by
  induction fuel with
  | zero =>
    refine ⟨fun h => ?_, fun h => ?_, fun h => ?_⟩
    · rw [Json.value] at h
      cases h
    · rw [Json.items] at h
      cases h
    · rw [Json.members] at h
      cases h
  | succ fuel ih => exact ⟨ih.value_succ, ih.items_succ, ih.members_succ⟩

/-! ## What is spelled is read -/

/-- A phrase is read from every text that goes on behind its tokens with what closes it.  Each token
pays for two units of fuel. -/
def Phrase.ReadFrom : Phrase → List Token → Prop
  | .value v, ts => ∀ fuel {s us}, 2 * ts.length ≤ fuel + 1 → tokens s = ts ++ us →
      ∃ rest, Json.value fuel (skipSpace s) = some (v, rest) ∧ tokens rest = us
  | .items vs, ts => ∀ fuel {s us}, 2 * ts.length ≤ fuel → tokens s = ts ++ .mark ']' :: us →
      ∃ rest, Json.items fuel (skipSpace s) = some (vs, rest) ∧ tokens rest = us
  | .members ms, ts => ∀ fuel {s us}, 2 * ts.length ≤ fuel → tokens s = ts ++ .mark '}' :: us →
      ∃ rest, Json.members fuel (skipSpace s) = some (ms, rest) ∧ tokens rest = us

theorem exists_succ_of_fuel {fuel n : Nat} (h : 2 * (n + 1) ≤ fuel + 1) : ∃ k, fuel = k + 1 :=
  Nat.exists_eq_succ_of_ne_zero (by omega)

theorem exists_succ_of_spells {p : Phrase} {ts : List Token} (hts : Spells p ts) {fuel : Nat}
    (h : 2 * ts.length ≤ fuel) : ∃ k, fuel = k + 1 := by
  obtain ⟨t, us, rfl, -⟩ := hts.head
  rw [List.length_cons] at h
  exact Nat.exists_eq_succ_of_ne_zero (by omega)

theorem Phrase.readFrom_literal {v : Value} {w : List Char}
    (h : ∀ fuel rest, Bounded rest → Json.value (fuel + 1) (w ++ rest) = some (v, rest)) :
    (Phrase.value v).ReadFrom [.word w] := by
  intro fuel s us hfuel hs
  obtain ⟨fuel, rfl⟩ := exists_succ_of_fuel hfuel
  obtain ⟨rest, hskip, hrest, htokens⟩ := exists_of_tokens_word hs
  exact ⟨rest, by rw [hskip, h fuel rest hrest], htokens⟩

theorem Phrase.readFrom_string {t : Text} {q : List Char} (h : stringBody q = some (t, [])) :
    (Phrase.value (.string t)).ReadFrom [.text q] := by
  intro fuel s us hfuel hs
  obtain ⟨fuel, rfl⟩ := exists_succ_of_fuel hfuel
  obtain ⟨rest, hskip, htokens⟩ := exists_of_tokens_text hs
  refine ⟨rest, ?_, htokens⟩
  rw [hskip]
  change (stringBody (q ++ rest)).map _ = _
  rw [stringBody_append h]
  rfl

theorem Phrase.readFrom_emptyArray :
    (Phrase.value (.array [])).ReadFrom [.mark '[', .mark ']'] := by
  intro fuel s us hfuel hs
  obtain ⟨fuel, rfl⟩ := exists_succ_of_fuel hfuel
  obtain ⟨t, hskip, ht⟩ := exists_of_tokens_mark hs
  obtain ⟨rest, hclose, htokens⟩ := exists_of_tokens_mark ht
  refine ⟨rest, ?_, htokens⟩
  rw [hskip, Json.value, hclose]
  rfl

theorem Phrase.readFrom_emptyObject :
    (Phrase.value (.object [])).ReadFrom [.mark '{', .mark '}'] := by
  intro fuel s us hfuel hs
  obtain ⟨fuel, rfl⟩ := exists_succ_of_fuel hfuel
  obtain ⟨t, hskip, ht⟩ := exists_of_tokens_mark hs
  obtain ⟨rest, hclose, htokens⟩ := exists_of_tokens_mark ht
  refine ⟨rest, ?_, htokens⟩
  rw [hskip, Json.value, hclose]
  rfl

/-- A text whose first token is no closing mark does not start with that mark. -/
theorem skipSpace_ne_mark {s r : List Char} {c : Char} {t : Token} {us : List Token}
    (hc : isMark c = true) (hs : tokens s = t :: us) (ht : t ≠ .mark c) :
    skipSpace s ≠ c :: r := by
  intro hskip
  rw [← tokens_skipSpace, hskip, tokens_mark hc] at hs
  exact ht (List.cons.inj hs).1.symm

theorem Phrase.ReadFrom.array {vs : List Value} {ts : List Token} (hts : Spells (.items vs) ts)
    (h : (Phrase.items vs).ReadFrom ts) :
    (Phrase.value (.array vs)).ReadFrom (.mark '[' :: (ts ++ [.mark ']'])) := by
  intro fuel s us hfuel hs
  obtain ⟨fuel, rfl⟩ := exists_succ_of_fuel hfuel
  rw [List.length_cons, List.length_append, List.length_singleton] at hfuel
  rw [List.cons_append, List.append_assoc] at hs
  obtain ⟨t, hskip, ht⟩ := exists_of_tokens_mark hs
  obtain ⟨rest, hread, htokens⟩ := h fuel (by omega) ht
  refine ⟨rest, ?_, htokens⟩
  obtain ⟨first, more, rfl, hfirst, -⟩ := hts.head
  rw [hskip, Json.value]
  split
  next heq => exact absurd heq (skipSpace_ne_mark rfl ht hfirst)
  next =>
    rw [hread]
    rfl

theorem Phrase.ReadFrom.object {ms : List (Text × Value)} {ts : List Token}
    (hts : Spells (.members ms) ts) (h : (Phrase.members ms).ReadFrom ts) :
    (Phrase.value (.object ms)).ReadFrom (.mark '{' :: (ts ++ [.mark '}'])) := by
  intro fuel s us hfuel hs
  obtain ⟨fuel, rfl⟩ := exists_succ_of_fuel hfuel
  rw [List.length_cons, List.length_append, List.length_singleton] at hfuel
  rw [List.cons_append, List.append_assoc] at hs
  obtain ⟨t, hskip, ht⟩ := exists_of_tokens_mark hs
  obtain ⟨rest, hread, htokens⟩ := h fuel (by omega) ht
  refine ⟨rest, ?_, htokens⟩
  obtain ⟨first, more, rfl, -, hfirst⟩ := hts.head
  rw [hskip, Json.value]
  split
  next heq => exact absurd heq (skipSpace_ne_mark rfl ht hfirst)
  next =>
    rw [hread]
    rfl

theorem Phrase.ReadFrom.item {v : Value} {ts : List Token} (hts : Spells (.value v) ts)
    (h : (Phrase.value v).ReadFrom ts) : (Phrase.items [v]).ReadFrom ts := by
  intro fuel s us hfuel hs
  obtain ⟨fuel, rfl⟩ := exists_succ_of_spells hts hfuel
  obtain ⟨t, hread, ht⟩ := h fuel hfuel hs
  obtain ⟨rest, hclose, htokens⟩ := exists_of_tokens_mark ht
  refine ⟨rest, ?_, htokens⟩
  rw [Json.items, hread]
  simp only [Option.bind_eq_bind, Option.bind_some, hclose]

theorem Phrase.ReadFrom.items {v : Value} {vs : List Value} {ts us : List Token}
    (h : (Phrase.value v).ReadFrom ts) (hmore : (Phrase.items vs).ReadFrom us) :
    (Phrase.items (v :: vs)).ReadFrom (ts ++ .mark ',' :: us) := by
  intro fuel s rs hfuel hs
  rw [List.length_append, List.length_cons] at hfuel
  rw [List.append_assoc, List.cons_append] at hs
  obtain ⟨fuel, rfl⟩ : ∃ k, fuel = k + 1 := Nat.exists_eq_succ_of_ne_zero (by omega)
  obtain ⟨t, hread, ht⟩ := h fuel (by omega) hs
  obtain ⟨u, hcomma, hu⟩ := exists_of_tokens_mark ht
  obtain ⟨rest, hreads, htokens⟩ := hmore fuel (by omega) hu
  refine ⟨rest, ?_, htokens⟩
  rw [Json.items, hread]
  simp only [Option.bind_eq_bind, Option.bind_some, hcomma, hreads]

/-- The name of a member, its colon and its value are read one after another. -/
theorem Phrase.ReadFrom.member_start {name : Text} {q : List Char} {v : Value}
    {ts us : List Token} (h : (Phrase.value v).ReadFrom ts)
    (hname : stringBody q = some (name, [])) (fuel : Nat) {s : List Char}
    (hfuel : 2 * ts.length ≤ fuel + 1) (hs : tokens s = .text q :: .mark ':' :: (ts ++ us)) :
    ∃ a b c t, expect ['"'] (skipSpace s) = some a ∧ stringBody a = some (name, b) ∧
      expect [':'] (skipSpace b) = some c ∧ Json.value fuel (skipSpace c) = some (v, t) ∧
      tokens t = us := by
  obtain ⟨b, hquote, hb⟩ := exists_of_tokens_text hs
  obtain ⟨c, hcolon, hc⟩ := exists_of_tokens_mark hb
  obtain ⟨t, hread, ht⟩ := h fuel hfuel hc
  refine ⟨q ++ b, b, c, t, ?_, stringBody_append hname b, ?_, hread, ht⟩
  · rw [hquote]
    exact expect_append ['"'] (q ++ b)
  · rw [hcolon]
    exact expect_append [':'] c

theorem Phrase.ReadFrom.member {name : Text} {q : List Char} {v : Value} {ts : List Token}
    (h : (Phrase.value v).ReadFrom ts) (hname : stringBody q = some (name, [])) :
    (Phrase.members [(name, v)]).ReadFrom (.text q :: .mark ':' :: ts) := by
  intro fuel s us hfuel hs
  rw [List.length_cons, List.length_cons] at hfuel
  obtain ⟨fuel, rfl⟩ : ∃ k, fuel = k + 1 := Nat.exists_eq_succ_of_ne_zero (by omega)
  obtain ⟨a, b, c, t, ha, hb, hc, hread, ht⟩ := h.member_start hname fuel (by omega) hs
  obtain ⟨rest, hclose, htokens⟩ := exists_of_tokens_mark ht
  refine ⟨rest, ?_, htokens⟩
  rw [Json.members, ha]
  simp only [Option.bind_eq_bind, Option.bind_some, hb, hc, hread, hclose]

theorem Phrase.ReadFrom.members {name : Text} {q : List Char} {v : Value}
    {ms : List (Text × Value)} {ts us : List Token} (h : (Phrase.value v).ReadFrom ts)
    (hname : stringBody q = some (name, [])) (hmore : (Phrase.members ms).ReadFrom us) :
    (Phrase.members ((name, v) :: ms)).ReadFrom
      (.text q :: .mark ':' :: (ts ++ .mark ',' :: us)) := by
  intro fuel s rs hfuel hs
  rw [List.length_cons, List.length_cons, List.length_append, List.length_cons] at hfuel
  rw [List.cons_append, List.cons_append, List.append_assoc, List.cons_append] at hs
  obtain ⟨fuel, rfl⟩ : ∃ k, fuel = k + 1 := Nat.exists_eq_succ_of_ne_zero (by omega)
  obtain ⟨a, b, c, t, ha, hb, hc, hread, ht⟩ := h.member_start hname fuel (by omega) hs
  obtain ⟨u, hcomma, hu⟩ := exists_of_tokens_mark ht
  obtain ⟨rest, hreads, htokens⟩ := hmore fuel (by omega) hu
  refine ⟨rest, ?_, htokens⟩
  rw [Json.members, ha]
  simp only [Option.bind_eq_bind, Option.bind_some, hb, hc, hread, hcomma, hreads]

theorem Spells.readFrom {p : Phrase} {ts : List Token} (h : Spells p ts) : p.ReadFrom ts := by
  induction h with
  | null | true | false => exact Phrase.readFrom_literal fun _ _ _ => rfl
  | number h => exact Phrase.readFrom_literal fun fuel _ hrest => h.value hrest.stops fuel
  | string h => exact Phrase.readFrom_string h
  | emptyArray => exact Phrase.readFrom_emptyArray
  | array h ih => exact ih.array h
  | emptyObject => exact Phrase.readFrom_emptyObject
  | object h ih => exact ih.object h
  | item h ih => exact ih.item h
  | items _ _ ih ihs => exact ih.items ihs
  | member hname _ ih => exact ih.member hname
  | members hname _ _ ih ihs => exact ih.members hname ihs

/-- A text is read as a value if and only if its tokens spell that value. -/
theorem parse_eq_some_iff {s : List Char} {v : Value} :
    parse s = some v ↔ Spells (.value v) (tokens s) := by
  constructor
  · intro h
    unfold parse at h
    split at h
    next w rest hread =>
      split at h
      next hend =>
        cases h
        have hrest : Bounded rest := bounded_of_skipSpace (hend ▸ bounded_nil)
        obtain ⟨ts, hts, htokens⟩ := (sound _).value hread hrest
        rw [tokens_skipSpace, ← tokens_skipSpace rest, hend, tokens_nil, List.append_nil] at htokens
        rwa [htokens]
      next => cases h
    next => cases h
  · intro h
    have hfuel : 2 * (tokens s).length ≤ 2 * s.length + 2 + 1 := by
      have hlength := length_tokens_le s
      omega
    obtain ⟨rest, hread, hrest⟩ := h.readFrom (2 * s.length + 2) hfuel (List.append_nil _).symm
    rw [parse, hread]
    exact if_pos (skipSpace_of_tokens_eq_nil hrest)

end EvictionBus.Json
