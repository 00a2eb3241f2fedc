import EvictionBus.Json.Record
import EvictionBus.Proofs.Json.Numbers

/-!
# Values are read back

What the writer makes of a value is read as that value, if its numbers are well-formed and its
strings are texts.  The reader's fuel suffices, since every call of the reader consumes a character
of its own.
-/

namespace EvictionBus.Json

/-! ## Values that can be written -/

namespace Value

/-- A value whose numbers are well-formed and whose strings, names included, are texts. -/
inductive Plain : Value → Prop
  | null : Plain .null
  | bool (b : Bool) : Plain (.bool b)
  | number {n : Numeral} (h : n.WellFormed) : Plain (.number n)
  | text (s : String) : Plain (.string (.ofString s))
  | array {vs : List Value} (h : ∀ v ∈ vs, Plain v) : Plain (.array vs)
  | object {ms : List (Text × Value)} (hnames : ∀ m ∈ ms, ∃ s, m.1 = .ofString s)
      (h : ∀ m ∈ ms, Plain m.2) : Plain (.object ms)

theorem plain_ofNat (n : Nat) : (ofNat n).Plain :=
  .number (Numeral.wellFormed_ofNat n)

theorem plain_ofFloat (x : Float) : (ofFloat x).Plain := by
  unfold ofFloat
  split
  next n h => exact .number (Numeral.wellFormed_ofFloat? h)
  next => exact .null

theorem plain_ofText (s : String) : (ofText s).Plain :=
  .text s

theorem plain_ofOption {α : Type} {write : α → Value} (h : ∀ a, (write a).Plain) (o : Option α) :
    (ofOption write o).Plain := by
  cases o with
  | none => exact .null
  | some a => exact h a

theorem plain_array_singleton {v : Value} (h : v.Plain) : (array [v]).Plain :=
  .array fun _ hw => List.mem_singleton.1 hw ▸ h

theorem plain_object_nil : (object []).Plain :=
  .object (fun _ hm => absurd hm List.not_mem_nil) fun _ hm => absurd hm List.not_mem_nil

theorem plain_object_cons {name : Text} {v : Value} {ms : List (Text × Value)}
    (hname : ∃ s, name = .ofString s) (hv : v.Plain) (h : (object ms).Plain) :
    (object ((name, v) :: ms)).Plain := by
  cases h with
  | object hnames h =>
    exact .object (List.forall_mem_cons.2 ⟨hname, hnames⟩) (List.forall_mem_cons.2 ⟨hv, h⟩)

/-- A value that starts with something to read, and is read back in front of every text that does
not go on with a number. -/
structure ReadBack (v : Value) : Prop where
  head : ∃ c s, print v = c :: s ∧ isSpace c = false ∧ c ≠ ']'
  reads : ∀ {fuel : Nat} {rest : List Char}, 2 * (print v).length ≤ fuel + 1 → Stops rest →
    value fuel (print v ++ rest) = some (v, rest)

end Value

/-! ## Elements and members -/

theorem skipSpace_cons {c : Char} (hc : isSpace c = false) (s : List Char) :
    skipSpace (c :: s) = c :: s := by
  rw [skipSpace, List.dropWhile_cons, hc]
  rfl

theorem Value.ReadBack.skipSpace_append {v : Value} (h : v.ReadBack) (s : List Char) :
    skipSpace (print v ++ s) = print v ++ s := by
  obtain ⟨c, t, hprint, hc, -⟩ := h.head
  rw [hprint]
  exact skipSpace_cons hc _

theorem stops_of_head {c : Char} (hc : c = ',' ∨ c = ']' ∨ c = '}') (s : List Char) :
    Stops (c :: s) := by
  intro d hd
  cases hd
  rcases hc with rfl | rfl | rfl <;> decide

theorem printItems_cons (v w : Value) (vs : List Value) :
    printItems (v :: w :: vs) = print v ++ ',' :: printItems (w :: vs) := by
  rw [printItems]
  exact List.cons_ne_nil w vs

/-- Elements start with what their first one starts with. -/
theorem exists_head_printItems {v : Value} (h : v.ReadBack) (vs : List Value) (s : List Char) :
    ∃ c t, printItems (v :: vs) ++ s = c :: t ∧ isSpace c = false ∧ c ≠ ']' := by
  obtain ⟨c, t, hprint, hc⟩ := h.head
  cases vs with
  | nil => exact ⟨c, t ++ s, by rw [printItems, hprint, List.cons_append], hc⟩
  | cons w vs =>
    refine ⟨c, t ++ ',' :: printItems (w :: vs) ++ s, ?_, hc⟩
    rw [printItems_cons, hprint, List.cons_append, List.cons_append]

/-- The elements of an array are read back. -/
theorem items_printItems {vs : List Value} (hne : vs ≠ []) (h : ∀ v ∈ vs, v.ReadBack) {fuel : Nat}
    (hfuel : 2 * (printItems vs).length + 2 ≤ fuel) (rest : List Char) :
    items fuel (printItems vs ++ ']' :: rest) = some (vs, rest) := by
  -- Each element takes one unit of fuel, which its comma or the bracket has brought along.
  induction vs generalizing fuel with
  | nil => exact absurd rfl hne
  | cons v vs ih =>
    obtain ⟨fuel, rfl⟩ : ∃ n, fuel = n + 1 := Nat.exists_eq_succ_of_ne_zero (by omega)
    have hv : v.ReadBack := h v List.mem_cons_self
    cases vs with
    | nil =>
      rw [printItems] at hfuel ⊢
      rw [items, hv.reads (by omega) (stops_of_head (.inr (.inl rfl)) rest)]
      rfl
    | cons w vs =>
      have hw : w.ReadBack := h w (List.mem_cons_of_mem _ List.mem_cons_self)
      rw [printItems_cons] at hfuel ⊢
      rw [List.length_append, List.length_cons] at hfuel
      have hrest : items fuel (printItems (w :: vs) ++ ']' :: rest) = some (w :: vs, rest) :=
        ih (List.cons_ne_nil _ _) (fun x hx => h x (List.mem_cons_of_mem _ hx)) (by omega)
      obtain ⟨c, t, hstart, hc, -⟩ := exists_head_printItems hw vs (']' :: rest)
      rw [hstart] at hrest
      rw [List.append_assoc, List.cons_append, hstart, items,
        hv.reads (by omega) (stops_of_head (.inl rfl) _)]
      change (items fuel (skipSpace (c :: t))).bind _ = _
      rw [skipSpace_cons hc, hrest]
      rfl

theorem expect_printText (s : String) (rest : List Char) :
    expect ['"'] (printText (.ofString s) ++ rest) =
      some (s.toList.flatMap escapeChar ++ '"' :: rest) := by
  rw [printText, Text.ofString, List.flatMap_map, List.append_assoc]
  rfl

theorem printMembers_cons (name : Text) (v : Value) (m : Text × Value) (ms : List (Text × Value)) :
    printMembers ((name, v) :: m :: ms) =
      printText name ++ ':' :: print v ++ ',' :: printMembers (m :: ms) := by
  rw [printMembers]
  exact List.cons_ne_nil m ms

theorem exists_printMembers_cons (m : Text × Value) (ms : List (Text × Value)) :
    ∃ t, printMembers (m :: ms) = '"' :: t := by
  obtain ⟨name, v⟩ := m
  cases ms with
  | nil => exact ⟨_, by rw [printMembers, printText]; rfl⟩
  | cons m ms => exact ⟨_, by rw [printMembers_cons, printText]; rfl⟩

/-- The members of an object are read back. -/
theorem members_printMembers {ms : List (Text × Value)} (hne : ms ≠ [])
    (hnames : ∀ m ∈ ms, ∃ s, m.1 = .ofString s) (h : ∀ m ∈ ms, m.2.ReadBack) {fuel : Nat}
    (hfuel : 2 * (printMembers ms).length + 2 ≤ fuel) (rest : List Char) :
    members fuel (printMembers ms ++ '}' :: rest) = some (ms, rest) := by
  induction ms generalizing fuel with
  | nil => exact absurd rfl hne
  | cons m ms ih =>
    obtain ⟨fuel, rfl⟩ : ∃ n, fuel = n + 1 := Nat.exists_eq_succ_of_ne_zero (by omega)
    have hv : m.2.ReadBack := h m List.mem_cons_self
    obtain ⟨s, hs⟩ := hnames m List.mem_cons_self
    obtain ⟨name, v⟩ := m
    dsimp only at hs hv
    subst hs
    -- A name, its colon and the value behind it.
    have hvalue : ∀ t, 2 * (print v).length ≤ fuel + 1 → Stops t →
        value fuel (skipSpace (print v ++ t)) = some (v, t) := by
      intro t hlength ht
      rw [hv.skipSpace_append, hv.reads hlength ht]
    have hcolon : ∀ t, expect [':'] (skipSpace (':' :: t)) = some t := fun t => rfl
    cases ms with
    | nil =>
      rw [printMembers] at hfuel ⊢
      rw [List.length_append, List.length_cons] at hfuel
      have hread := hvalue ('}' :: rest) (by omega) (stops_of_head (.inr (.inr rfl)) _)
      rw [List.append_assoc, List.cons_append, members, expect_printText]
      simp only [Option.bind_eq_bind, Option.bind_some, stringBody_ofString, hcolon, hread]
      rfl
    | cons m ms =>
      rw [printMembers_cons] at hfuel ⊢
      rw [List.length_append, List.length_append, List.length_cons, List.length_cons] at hfuel
      have hrest : members fuel (printMembers (m :: ms) ++ '}' :: rest) = some (m :: ms, rest) :=
        ih (List.cons_ne_nil _ _) (fun x hx => hnames x (List.mem_cons_of_mem _ hx))
          (fun x hx => h x (List.mem_cons_of_mem _ hx)) (by omega)
      have hread := hvalue (',' :: (printMembers (m :: ms) ++ '}' :: rest)) (by omega)
        (stops_of_head (.inl rfl) _)
      rw [List.append_assoc, List.append_assoc, List.cons_append, List.cons_append, members,
        expect_printText]
      simp only [Option.bind_eq_bind, Option.bind_some, stringBody_ofString, hcolon, hread]
      obtain ⟨t, ht⟩ := exists_printMembers_cons m ms
      rw [ht, List.cons_append] at hrest ⊢
      change (members fuel (skipSpace ('"' :: (t ++ '}' :: rest)))).bind _ = _
      rw [skipSpace_cons rfl, hrest]
      rfl

/-! ## Values -/

namespace Value

theorem ReadBack.intro {v : Value} {c : Char} {s : List Char} (hprint : print v = c :: s)
    (hspace : isSpace c = false) (hbracket : c ≠ ']')
    (h : ∀ fuel rest, 2 * s.length ≤ fuel → Stops rest →
      value (fuel + 1) (c :: (s ++ rest)) = some (v, rest)) : v.ReadBack where
  head := ⟨c, s, hprint, hspace, hbracket⟩
  reads {fuel rest} hfuel hrest := by
    rw [hprint, List.length_cons] at hfuel
    obtain ⟨fuel, rfl⟩ : ∃ n, fuel = n + 1 := Nat.exists_eq_succ_of_ne_zero (by omega)
    rw [hprint]
    exact h fuel rest (by omega) hrest

theorem readBack_null : ReadBack .null :=
  .intro (c := 'n') (s := ['u', 'l', 'l']) (by rw [print]) rfl (by decide) fun _ _ _ _ => rfl

theorem readBack_bool (b : Bool) : ReadBack (.bool b) := by
  cases b with
  | false =>
    exact .intro (c := 'f') (s := ['a', 'l', 's', 'e']) (by rw [print]) rfl (by decide)
      fun _ _ _ _ => rfl
  | true =>
    exact .intro (c := 't') (s := ['r', 'u', 'e']) (by rw [print]) rfl (by decide)
      fun _ _ _ _ => rfl

theorem readBack_text (s : String) : ReadBack (.string (.ofString s)) := by
  refine .intro (c := '"') (s := s.toList.flatMap escapeChar ++ ['"']) ?_ rfl (by decide)
    fun fuel rest _ _ => ?_
  · rw [print, printText, Text.ofString, List.flatMap_map]
    rfl
  · change (stringBody _).map _ = _
    rw [List.append_assoc, List.singleton_append, stringBody_ofString]
    rfl

theorem readBack_number {n : Numeral} (h : n.WellFormed) : ReadBack (.number n) := by
  obtain ⟨c, s, hprint, hne⟩ := h.writes.head
  have hspace : isSpace c = false := by
    simp only [isSpace, Bool.or_eq_false_iff, decide_eq_false_iff_not]
    exact ⟨⟨⟨hne _ (by decide) rfl, hne _ (by decide) rfl⟩, hne _ (by decide) rfl⟩,
      hne _ (by decide) rfl⟩
  refine .intro (by rw [print, hprint]) hspace (hne _ (by decide) rfl) fun fuel rest _ hrest => ?_
  rw [← List.cons_append, ← hprint]
  exact h.writes.value hrest fuel

theorem readBack_array {vs : List Value} (h : ∀ v ∈ vs, v.ReadBack) : ReadBack (.array vs) := by
  refine .intro (s := printItems vs ++ [']']) (by rw [print]; rfl) rfl (by decide)
    fun fuel rest hfuel _ => ?_
  rw [List.length_append, List.length_singleton] at hfuel
  rw [List.append_assoc, List.singleton_append]
  cases vs with
  | nil => rfl
  | cons v vs =>
    have hitems : items fuel (printItems (v :: vs) ++ ']' :: rest) = some (v :: vs, rest) :=
      items_printItems (List.cons_ne_nil v vs) h (by omega) rest
    obtain ⟨c, t, hstart, hspace, hbracket⟩ :=
      exists_head_printItems (h v List.mem_cons_self) vs (']' :: rest)
    rw [hstart] at hitems ⊢
    rw [value, skipSpace_cons hspace]
    split
    next heq => exact absurd (List.cons.inj heq).1 hbracket
    next =>
      rw [hitems]
      rfl

theorem readBack_object {ms : List (Text × Value)} (hnames : ∀ m ∈ ms, ∃ s, m.1 = .ofString s)
    (h : ∀ m ∈ ms, m.2.ReadBack) : ReadBack (.object ms) := by
  refine .intro (s := printMembers ms ++ ['}']) (by rw [print]; rfl) rfl (by decide)
    fun fuel rest hfuel _ => ?_
  rw [List.length_append, List.length_singleton] at hfuel
  rw [List.append_assoc, List.singleton_append]
  cases ms with
  | nil => rfl
  | cons m ms =>
    have hmembers : members fuel (printMembers (m :: ms) ++ '}' :: rest) = some (m :: ms, rest) :=
      members_printMembers (List.cons_ne_nil m ms) hnames h (by omega) rest
    obtain ⟨t, ht⟩ := exists_printMembers_cons m ms
    rw [ht, List.cons_append] at hmembers ⊢
    change (members fuel (skipSpace ('"' :: _))).map _ = _
    rw [skipSpace_cons rfl, hmembers]
    rfl

theorem Plain.readBack {v : Value} (h : v.Plain) : v.ReadBack := by
  induction h with
  | null => exact readBack_null
  | bool b => exact readBack_bool b
  | number h => exact readBack_number h
  | text s => exact readBack_text s
  | array _ ih => exact readBack_array ih
  | object hnames _ ih => exact readBack_object hnames ih

end Value

/-- What is written for a plain value is read as that value. -/
theorem parse_print {v : Value} (h : v.Plain) : parse (print v) = some v := by
  have hread : value (2 * (print v).length + 2) (print v ++ []) = some (v, []) :=
    h.readBack.reads (by omega) fun c hc => by cases hc
  have hskip := h.readBack.skipSpace_append []
  rw [List.append_nil] at hread hskip
  rw [parse, hskip, hread]
  rfl

end EvictionBus.Json
