import EvictionBus.Proofs.Json.Records

/-!
# Records are an overlay on their standard settings

The members of a record change the settings they name and leave the others as they are.  So the
order of the members does not matter, nor do members of other names; but every name has to be a
text, and a setting that is named twice spoils the record.

A record is seen here field by field (`Settings`).  What a value says about a field is left to the
record; that its reader does no more than that is what `Settings.Sets` asks for.
-/

namespace EvictionBus.Json

namespace Text

theorem chars?_eq_some_iff {t : Text} {cs : List Char} :
    t.chars? = some cs ↔ t = cs.map .char := by
  refine ⟨fun h => ?_, fun h => h ▸ chars?_map_char cs⟩
  induction t generalizing cs with
  | nil =>
    cases h
    rfl
  | cons p t ih =>
    cases p with
    | lone n => cases h
    | char c =>
      obtain ⟨ds, hds, rfl⟩ := Option.map_eq_some_iff.1 h
      rw [ih hds, List.map_cons]

theorem string?_eq_some_iff {t : Text} {s : String} : t.string? = some s ↔ t = ofString s := by
  refine ⟨fun h => ?_, fun h => h ▸ string?_ofString s⟩
  obtain ⟨cs, hcs, rfl⟩ := Option.map_eq_some_iff.1 h
  rw [chars?_eq_some_iff.1 hcs, ofString, String.toList_ofList]

theorem ofString_inj {s u : String} : ofString s = ofString u ↔ s = u := by
  refine ⟨fun h => ?_, fun h => h ▸ rfl⟩
  have hread := string?_ofString s
  rw [h, string?_ofString] at hread
  exact (Option.some.inj hread).symm

end Text

namespace RecordFormat

variable {F : Type}

/-- The name of a field as a member has it. -/
def key (r : RecordFormat F) (f : F) : Text :=
  .ofString (r.name f)

/-- How many members name a field. -/
def times (r : RecordFormat F) (f : F) (ms : List (Text × Value)) : Nat :=
  ms.countP fun m => m.1 = r.key f

/-- The members that an array stands for: its values under the names of the first fields. -/
def listed (r : RecordFormat F) (vs : List Value) : List (Text × Value) :=
  (r.fields.zip vs).map fun p => (r.key p.1, p.2)

/-- The members of a value: those of an object, or those that an array stands for. -/
inductive Lists (r : RecordFormat F) : Value → List (Text × Value) → Prop
  | object (ms : List (Text × Value)) : Lists r (.object ms) ms
  | array {vs : List Value} (h : vs.length ≤ r.fields.length) : Lists r (.array vs) (r.listed vs)

/-- Two ways to give the same members: in another order, with or without members of other names, or
with another value that says the same about its field. -/
inductive Alike (r : RecordFormat F) (Same : F → Value → Value → Prop) :
    List (Text × Value) → List (Text × Value) → Prop
  | reorder {ms ns : List (Text × Value)} (h : ms.Perm ns) : Alike r Same ms ns
  | foreign {s : String} (h : ∀ f, r.name f ≠ s) (v : Value) (ms : List (Text × Value)) :
      Alike r Same ((.ofString s, v) :: ms) ms
  | value {f : F} {v w : Value} (h : Same f v w) (ms : List (Text × Value)) :
      Alike r Same ((r.key f, v) :: ms) ((r.key f, w) :: ms)
  | symm {ms ns : List (Text × Value)} (h : Alike r Same ms ns) : Alike r Same ns ms
  | trans {ms ns os : List (Text × Value)} (h : Alike r Same ms ns) (h' : Alike r Same ns os) :
      Alike r Same ms os

theorem Lists.unique {r : RecordFormat F} {v : Value} {ms ns : List (Text × Value)}
    (h : r.Lists v ms) (h' : r.Lists v ns) : ms = ns := by
  cases h <;> cases h' <;> rfl

/-- Every field is there once and has a name of its own. -/
structure Named (r : RecordFormat F) : Prop where
  nodup : r.fields.Nodup
  field?_name : ∀ f, r.field? (r.name f) = some f

/-! ## What an object gives to a record -/

section

variable {r : RecordFormat F}

theorem field?_eq_some_iff (hr : r.Named) {s : String} {f : F} :
    r.field? s = some f ↔ s = r.name f := by
  refine ⟨fun h => ?_, fun h => h ▸ hr.field?_name f⟩
  unfold field? at h
  have hname := List.find?_some h
  exact (of_decide_eq_true hname).symm

theorem key_inj (hr : r.Named) {f g : F} : r.key f = r.key g ↔ f = g := by
  refine ⟨fun h => ?_, fun h => h ▸ rfl⟩
  have hname : r.name f = r.name g := Text.ofString_inj.1 h
  exact Option.some.inj ((hr.field?_name f).symm.trans (hname ▸ hr.field?_name g))

/-- The field that a member names. -/
def fieldOf? (r : RecordFormat F) (name : Text) : Option F :=
  name.string?.bind r.field?

theorem fieldOf?_eq_some_iff (hr : r.Named) {name : Text} {f : F} :
    r.fieldOf? name = some f ↔ name = r.key f := by
  rw [fieldOf?, Option.bind_eq_some_iff]
  constructor
  · rintro ⟨s, hs, hf⟩
    rw [Text.string?_eq_some_iff.1 hs, (field?_eq_some_iff hr).1 hf, key]
  · rintro rfl
    exact ⟨r.name f, Text.string?_ofString _, hr.field?_name f⟩

/-- The members that name a field. -/
def named (r : RecordFormat F) (ms : List (Text × Value)) : List (F × Value) :=
  ms.filterMap fun m => (r.fieldOf? m.1).map fun f => (f, m.2)

theorem mem_named_iff (hr : r.Named) {ms : List (Text × Value)} {f : F} {v : Value} :
    (f, v) ∈ r.named ms ↔ (r.key f, v) ∈ ms := by
  rw [named, List.mem_filterMap]
  constructor
  · rintro ⟨⟨name, w⟩, hmem, hm⟩
    obtain ⟨g, hg, heq⟩ := Option.map_eq_some_iff.1 hm
    cases heq
    rwa [← (fieldOf?_eq_some_iff hr).1 hg]
  · intro h
    exact ⟨_, h, Option.map_eq_some_iff.2 ⟨f, (fieldOf?_eq_some_iff hr).2 rfl, rfl⟩⟩

theorem count_named [DecidableEq F] (hr : r.Named) (ms : List (Text × Value)) (f : F) :
    ((r.named ms).map Prod.fst).count f = r.times f ms := by
  have hfirst : (r.named ms).map Prod.fst = ms.filterMap fun m => r.fieldOf? m.1 := by
    rw [named, List.map_filterMap]
    simp only [Option.map_map, Function.comp_def, Option.map_id']
  rw [hfirst, List.count_filterMap, times]
  refine List.countP_congr fun m _ => ?_
  rw [beq_iff_eq, decide_eq_true_eq]
  exact fieldOf?_eq_some_iff hr

theorem nodup_named_iff [DecidableEq F] (hr : r.Named) {ms : List (Text × Value)} :
    ((r.named ms).map Prod.fst).Nodup ↔ ∀ f, r.times f ms ≤ 1 := by
  rw [List.nodup_iff_count]
  exact forall_congr' fun f => by rw [count_named hr]

theorem known_of_texts {ms : List (Text × Value)} (h : ∀ m ∈ ms, ∃ s, m.1 = .ofString s) :
    r.known ms = some (r.named ms) := by
  induction ms with
  | nil => rfl
  | cons m ms ih =>
    obtain ⟨name, v⟩ := m
    obtain ⟨s, hs⟩ : ∃ s, name = .ofString s := h _ List.mem_cons_self
    subst hs
    have hrest := ih fun m hm => h m (List.mem_cons_of_mem _ hm)
    cases hf : r.field? s with
    | none => simp [known, hrest, named, fieldOf?, Text.string?_ofString, hf]
    | some f => simp [known, hrest, named, fieldOf?, Text.string?_ofString, hf]

theorem texts_of_known {ms : List (Text × Value)} {fs : List (F × Value)}
    (h : r.known ms = some fs) : ∀ m ∈ ms, ∃ s, m.1 = .ofString s := by
  induction ms generalizing fs with
  | nil => exact fun m hm => by cases hm
  | cons m ms ih =>
    obtain ⟨name, v⟩ := m
    obtain ⟨s, hs, h⟩ := Option.bind_eq_some_iff.1 h
    obtain ⟨rest, hrest, -⟩ := Option.bind_eq_some_iff.1 h
    exact List.forall_mem_cons.2 ⟨⟨s, Text.string?_eq_some_iff.1 hs⟩, ih hrest⟩

theorem named_listed (hr : r.Named) (vs : List Value) :
    r.named (r.listed vs) = r.fields.zip vs := by
  have hfield : ∀ f, r.fieldOf? (r.key f) = some f := fun f => (fieldOf?_eq_some_iff hr).2 rfl
  rw [named, listed, List.filterMap_map]
  simp only [Function.comp_def, hfield, Option.map_some]
  exact List.filterMap_some

theorem given_eq_some_iff [DecidableEq F] (hr : r.Named) {v : Value} {fs : List (F × Value)} :
    r.given v = some fs ↔ ∃ ms, r.Lists v ms ∧ (∀ m ∈ ms, ∃ s, m.1 = .ofString s) ∧
      (∀ f, r.times f ms ≤ 1) ∧ r.named ms = fs := by
  constructor
  · intro h
    unfold given at h
    split at h
    next ms =>
      obtain ⟨hknown, hnodup⟩ := Option.filter_eq_some_iff.1 h
      have htexts := texts_of_known hknown
      rw [known_of_texts htexts, Option.some.injEq] at hknown
      subst hknown
      exact ⟨ms, .object ms, htexts, (nodup_named_iff hr).1 (of_decide_eq_true hnodup), rfl⟩
    next vs =>
      split at h
      next hlength =>
        cases h
        refine ⟨_, .array hlength, fun m hm => ?_, (nodup_named_iff hr).1 ?_, named_listed hr vs⟩
        · obtain ⟨p, -, rfl⟩ := List.mem_map.1 hm
          exact ⟨r.name p.1, rfl⟩
        · rw [named_listed hr, List.zip_eq_zip_take_min, List.map_fst_zip (by simp)]
          exact hr.nodup.sublist (List.take_sublist _ _)
      next => cases h
    next => cases h
  · rintro ⟨ms, hlists, htexts, honce, rfl⟩
    cases hlists with
    | object =>
      rw [given, known_of_texts htexts, Option.filter_some]
      exact if_pos (decide_eq_true ((nodup_named_iff hr).2 honce))
    | array h => rw [given, if_pos h, named_listed hr]

end

end RecordFormat

/-! ## Settings -/

/-- A record seen field by field. -/
structure Settings (F C : Type) where
  format : RecordFormat F
  standard : C
  Content : F → Type
  content : C → (f : F) → Content f
  /-- A value says what a field holds. -/
  Says : (f : F) → Value → Content f → Prop

namespace Settings

variable {F C : Type} (S : Settings F C)

/-- A record that is the standard one, changed as members say. -/
structure Overlays (ms : List (Text × Value)) (c : C) : Prop where
  /-- Every name is a text. -/
  texts : ∀ m ∈ ms, ∃ s, m.1 = .ofString s
  /-- No field is named twice. -/
  once : ∀ f, S.format.times f ms ≤ 1
  /-- A field that is named holds what its member says. -/
  given : ∀ f v, (S.format.key f, v) ∈ ms → S.Says f v (S.content c f)
  /-- Every other field holds what the standard record has. -/
  others : ∀ f, (∀ v, (S.format.key f, v) ∉ ms) → S.content c f = S.content S.standard f

/-- A value that describes a record by its members. -/
def Describes (v : Value) (c : C) : Prop :=
  ∃ ms, S.format.Lists v ms ∧ S.Overlays ms c

/-- What it takes for a reader of single members to change the fields that they name. -/
structure Sets (set : C → F → Value → Option C) : Prop where
  reads : ∀ {c f v x}, (set c f v).map (S.content · f) = some x ↔ S.Says f v x
  keeps : ∀ {c d f v}, set c f v = some d → ∀ g ≠ f, S.content d g = S.content c g
  ext : ∀ {c d}, (∀ f, S.content c f = S.content d f) → c = d

variable {S}

theorem describes_iff {v : Value} {ms : List (Text × Value)} (h : S.format.Lists v ms) {c : C} :
    S.Describes v c ↔ S.Overlays ms c := by
  constructor
  · rintro ⟨ns, hns, hc⟩
    rwa [h.unique hns]
  · exact fun hc => ⟨ms, h, hc⟩

/-! ## Reading a record -/

/-- Members that name different fields change these fields and no others. -/
theorem Sets.foldlM_eq_some_iff {set : C → F → Value → Option C} (hset : S.Sets set)
    {fs : List (F × Value)} (hfs : (fs.map Prod.fst).Nodup) {b c : C} :
    fs.foldlM (fun c p => set c p.1 p.2) b = some c ↔
      (∀ p ∈ fs, S.Says p.1 p.2 (S.content c p.1)) ∧
        ∀ f, (∀ v, (f, v) ∉ fs) → S.content c f = S.content b f := by
  induction fs generalizing b with
  | nil =>
    rw [List.foldlM_nil]
    constructor
    · intro h
      cases h
      exact ⟨fun p hp => absurd hp List.not_mem_nil, fun _ _ => rfl⟩
    · intro h
      exact congrArg some (hset.ext fun f => (h.2 f fun v => List.not_mem_nil).symm)
  | cons p fs ih =>
    obtain ⟨f, v⟩ := p
    obtain ⟨hf, hfs⟩ := List.nodup_cons.1 hfs
    have hnot : ∀ w, (f, w) ∉ fs := fun w hw => hf (List.mem_map.2 ⟨_, hw, rfl⟩)
    rw [List.foldlM_cons]
    constructor
    · intro h
      obtain ⟨d, hd, h⟩ := Option.bind_eq_some_iff.1 h
      obtain ⟨htells, hothers⟩ := (ih hfs).1 h
      refine ⟨List.forall_mem_cons.2 ⟨?_, htells⟩, fun g hg => ?_⟩
      · -- What comes later does not touch the field again.
        rw [hothers f hnot]
        exact hset.reads.1 (by rw [hd, Option.map_some])
      · have hne : g ≠ f := fun heq => hg v (heq ▸ List.mem_cons_self)
        rw [hothers g fun w hw => hg w (List.mem_cons_of_mem _ hw), hset.keeps hd g hne]
    · rintro ⟨htells, hothers⟩
      obtain ⟨hv, htells⟩ := List.forall_mem_cons.1 htells
      obtain ⟨d, hd, hcontent⟩ := Option.map_eq_some_iff.1 (hset.reads (c := b).2 hv)
      refine Option.bind_eq_some_iff.2 ⟨d, hd, (ih hfs).2 ⟨htells, fun g hg => ?_⟩⟩
      by_cases hne : g = f
      · rw [hne, hcontent]
      · rw [hset.keeps hd g hne]
        refine hothers g fun w hw => ?_
        rcases List.mem_cons.1 hw with heq | hw
        · exact hne (congrArg Prod.fst heq)
        · exact hg w hw

/-- A record is read if and only if it is the standard one, changed as its members say. -/
theorem Sets.read_eq_some_iff [DecidableEq F] {set : C → F → Value → Option C}
    (hset : S.Sets set) (hformat : S.format.Named) {v : Value} {c : C} :
    ((S.format.given v).bind fun fs => fs.foldlM (fun c p => set c p.1 p.2) S.standard) = some c ↔
      S.Describes v c := by
  rw [Option.bind_eq_some_iff]
  constructor
  · rintro ⟨fs, hgiven, hfold⟩
    obtain ⟨ms, hlists, htexts, honce, rfl⟩ := (RecordFormat.given_eq_some_iff hformat).1 hgiven
    have hnodup := (RecordFormat.nodup_named_iff hformat).2 honce
    obtain ⟨htells, hothers⟩ := (hset.foldlM_eq_some_iff hnodup).1 hfold
    refine ⟨ms, hlists, htexts, honce, fun f v hv => ?_, fun f hf => ?_⟩
    · exact htells (f, v) ((RecordFormat.mem_named_iff hformat).2 hv)
    · exact hothers f fun v hv => hf v ((RecordFormat.mem_named_iff hformat).1 hv)
  · rintro ⟨ms, hlists, h⟩
    refine ⟨_, (RecordFormat.given_eq_some_iff hformat).2 ⟨ms, hlists, h.texts, h.once, rfl⟩, ?_⟩
    have hnodup := (RecordFormat.nodup_named_iff hformat).2 h.once
    refine (hset.foldlM_eq_some_iff hnodup).2 ⟨fun p hp => ?_, fun f hf => ?_⟩
    · exact h.given p.1 p.2 ((RecordFormat.mem_named_iff hformat).1 hp)
    · exact h.others f fun v hv => hf v ((RecordFormat.mem_named_iff hformat).2 hv)

/-- A field that is put into a record is found there. -/
theorem map_put_eq_some_iff {α : Type} {read : Option α} {put : α → C} {get : C → α}
    (h : ∀ a, get (put a) = a) {x : α} : (read.map put).map get = some x ↔ read = some x := by
  have hid : get ∘ put = id := funext h
  rw [Option.map_map, hid, Option.map_id]
  rfl

/-! ## What makes no difference -/

theorem Overlays.reorder {ms ns : List (Text × Value)} {c : C} (h : S.Overlays ms c)
    (hperm : ms.Perm ns) : S.Overlays ns c where
  texts m hm := h.texts m (hperm.mem_iff.2 hm)
  once f := by
    rw [RecordFormat.times, ← hperm.countP_eq]
    exact h.once f
  given f v hv := h.given f v (hperm.mem_iff.2 hv)
  others f hf := h.others f fun v hv => hf v (hperm.mem_iff.1 hv)

theorem overlays_foreign_iff {s : String} (hs : ∀ f, S.format.name f ≠ s) {v : Value}
    {ms : List (Text × Value)} {c : C} :
    S.Overlays ((.ofString s, v) :: ms) c ↔ S.Overlays ms c := by
  have hname : ∀ f, Text.ofString s ≠ S.format.key f := fun f h =>
    hs f (Text.ofString_inj.1 h).symm
  have hmem : ∀ {f w}, (S.format.key f, w) ∈ (Text.ofString s, v) :: ms ↔
      (S.format.key f, w) ∈ ms := by
    intro f w
    rw [List.mem_cons]
    exact or_iff_right fun h => hname f (congrArg Prod.fst h).symm
  have htimes : ∀ f, S.format.times f ((.ofString s, v) :: ms) = S.format.times f ms := by
    intro f
    rw [RecordFormat.times, List.countP_cons_of_neg, RecordFormat.times]
    simpa using hname f
  constructor
  · intro h
    exact ⟨(List.forall_mem_cons.1 h.texts).2, fun f => htimes f ▸ h.once f,
      fun f w hw => h.given f w (hmem.2 hw), fun f hf => h.others f fun w hw => hf w (hmem.1 hw)⟩
  · intro h
    exact ⟨List.forall_mem_cons.2 ⟨⟨s, rfl⟩, h.texts⟩, fun f => (htimes f).symm ▸ h.once f,
      fun f w hw => h.given f w (hmem.1 hw), fun f hf => h.others f fun w hw => hf w (hmem.2 hw)⟩

theorem Overlays.value (hformat : S.format.Named) {f : F} {v w : Value}
    (htells : ∀ x, S.Says f v x → S.Says f w x) {ms : List (Text × Value)} {c : C}
    (h : S.Overlays ((S.format.key f, v) :: ms) c) :
    S.Overlays ((S.format.key f, w) :: ms) c where
  texts := List.forall_mem_cons.2 ⟨⟨_, rfl⟩, (List.forall_mem_cons.1 h.texts).2⟩
  once g := by
    have honce := h.once g
    rw [RecordFormat.times, List.countP_cons] at honce ⊢
    exact honce
  given g u hu := by
    rcases List.mem_cons.1 hu with heq | hu
    · obtain ⟨hkey, rfl⟩ := Prod.mk.inj heq
      obtain rfl := (RecordFormat.key_inj hformat).1 hkey
      exact htells _ (h.given g v List.mem_cons_self)
    · exact h.given g u (List.mem_cons_of_mem _ hu)
  others g hg := by
    refine h.others g fun u hu => ?_
    rcases List.mem_cons.1 hu with heq | hu
    · obtain ⟨hkey, -⟩ := Prod.mk.inj heq
      exact hg w (hkey ▸ List.mem_cons_self)
    · exact hg u (List.mem_cons_of_mem _ hu)

/-- Members that are alike give the same record. -/
theorem overlays_iff_of_alike {Same : F → Value → Value → Prop} (hformat : S.format.Named)
    (hsame : ∀ {f v w}, Same f v w → ∀ x, S.Says f v x ↔ S.Says f w x)
    {ms ns : List (Text × Value)} (h : S.format.Alike Same ms ns) {c : C} :
    S.Overlays ms c ↔ S.Overlays ns c := by
  induction h with
  | reorder h => exact ⟨fun hc => hc.reorder h, fun hc => hc.reorder h.symm⟩
  | foreign h => exact overlays_foreign_iff h
  | value h =>
    exact ⟨fun hc => hc.value hformat fun x => (hsame h x).1,
      fun hc => hc.value hformat fun x => (hsame h x).2⟩
  | symm _ ih => exact ih.symm
  | trans _ _ ih ih' => exact ih.trans ih'

end Settings

/-! ## What the value of a field says -/

theorem Numeral.nat?_eq_some_iff {n : Numeral} {k : Nat} :
    n.nat? = some k ↔ ∃ ds, n = ⟨false, ds, none, none⟩ ∧ EvictionBus.Text.ofDigits ds = k := by
  obtain ⟨negative, whole, fraction, exponent⟩ := n
  unfold nat?
  constructor
  · intro h
    split at h
    next => cases h
    next hplain =>
      cases h
      simp only [not_or, Bool.not_eq_true, Option.isSome_eq_false_iff, Option.isNone_iff_eq_none]
        at hplain
      obtain ⟨rfl, rfl, rfl⟩ := hplain
      exact ⟨whole, rfl, rfl⟩
  · rintro ⟨ds, heq, rfl⟩
    cases heq
    rfl

namespace Value

/-- The natural number that a value writes in digits, if it is below `bound`. -/
def IsNat (bound : Nat) (v : Value) (n : Nat) : Prop :=
  ∃ ds, v = .number ⟨false, ds, none, none⟩ ∧ EvictionBus.Text.ofDigits ds = n ∧ n < bound

/-- The floating-point number that a value writes. -/
def IsFloat (v : Value) (x : Float) : Prop :=
  ∃ n, v = .number n ∧ n.float? = some x

def IsText (v : Value) (s : String) : Prop :=
  v = .ofText s

/-- `null` if there is nothing. -/
def IsOption {α : Type} (Is : Value → α → Prop) (v : Value) (o : Option α) : Prop :=
  v = .null ∧ o = none ∨ ∃ a, o = some a ∧ Is v a

theorem natBelow?_eq_some_iff {bound n : Nat} {v : Value} :
    v.natBelow? bound = some n ↔ v.IsNat bound n := by
  cases v with
  | number m =>
    rw [natBelow?, Option.filter_eq_some_iff, Numeral.nat?_eq_some_iff, decide_eq_true_eq, IsNat]
    constructor
    · rintro ⟨⟨ds, rfl, hn⟩, hlt⟩
      exact ⟨ds, rfl, hn, hlt⟩
    · rintro ⟨ds, heq, hn, hlt⟩
      cases heq
      exact ⟨⟨ds, rfl, hn⟩, hlt⟩
  | null | bool | string | array | object =>
    refine ⟨fun h => ?_, fun h => ?_⟩
    · cases h
    · obtain ⟨ds, heq, -⟩ := h
      cases heq

theorem text?_eq_some_iff {v : Value} {s : String} : v.text? = some s ↔ v.IsText s := by
  cases v with
  | string t =>
    rw [text?, Text.string?_eq_some_iff, IsText, ofText, Value.string.injEq]
  | null | bool | number | array | object =>
    refine ⟨fun h => ?_, fun h => ?_⟩ <;> cases h

theorem nullOr?_eq_some_iff {α : Type} {read : Value → Option α} {Is : Value → α → Prop}
    (hread : ∀ {v a}, read v = some a ↔ Is v a) (hnull : ∀ a, ¬ Is .null a) {v : Value}
    {o : Option α} : nullOr? read v = some o ↔ v.IsOption Is o := by
  unfold nullOr?
  split
  next =>
    rw [Option.some.injEq]
    constructor
    · rintro rfl
      exact .inl ⟨rfl, rfl⟩
    · rintro (⟨-, rfl⟩ | ⟨a, -, ha⟩)
      · rfl
      · exact absurd ha (hnull a)
  next hne =>
    rw [Option.map_eq_some_iff]
    constructor
    · rintro ⟨a, ha, rfl⟩
      exact .inr ⟨a, rfl, hread.1 ha⟩
    · rintro (⟨heq, -⟩ | ⟨a, rfl, ha⟩)
      · exact absurd heq hne
      · exact ⟨a, hread.2 ha, rfl⟩

theorem nullOr?_natBelow?_eq_some_iff {bound : Nat} {v : Value} {o : Option Nat} :
    v.nullOr? (natBelow? bound) = some o ↔ v.IsOption (IsNat bound) o := by
  refine nullOr?_eq_some_iff natBelow?_eq_some_iff fun n h => ?_
  obtain ⟨ds, heq, -⟩ := h
  cases heq

theorem nullOr?_text?_eq_some_iff {v : Value} {o : Option String} :
    v.nullOr? text? = some o ↔ v.IsOption IsText o := by
  refine nullOr?_eq_some_iff text?_eq_some_iff fun s h => ?_
  exact ofText_ne_null s h.symm

theorem float?_eq_some_iff {v : Value} {x : Float} : v.float? = some x ↔ v.IsFloat x := by
  cases v with
  | number n =>
    refine ⟨fun h => ⟨n, rfl, h⟩, fun h => ?_⟩
    obtain ⟨m, heq, h⟩ := h
    cases heq
    exact h
  | null | bool | string | array | object =>
    refine ⟨fun h => ?_, fun h => ?_⟩
    · cases h
    · obtain ⟨n, heq, -⟩ := h
      cases heq

theorem list?_text_eq_some_iff {v : Value} {ss : List String} :
    v.list? text? = some ss ↔ v = .array (ss.map .ofText) := by
  refine ⟨fun h => ?_, fun h => h ▸ list?_map text?_ofText ss⟩
  cases v with
  | array vs =>
    rw [list?] at h
    rw [Value.array.injEq]
    induction vs generalizing ss with
    | nil =>
      rw [List.mapM_nil] at h
      cases h
      rfl
    | cons v vs ih =>
      rw [List.mapM_cons] at h
      obtain ⟨s, hs, h⟩ := Option.bind_eq_some_iff.1 h
      obtain ⟨rest, hrest, h⟩ := Option.bind_eq_some_iff.1 h
      cases h
      rw [List.map_cons, ← ih hrest, text?_eq_some_iff.1 hs]
  | null | bool | number | string | object => cases h

end Value

end EvictionBus.Json
