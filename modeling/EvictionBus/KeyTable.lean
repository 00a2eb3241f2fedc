/-!
# Tables with numeric keys

A finite map from numbers, kept in the order of its keys. Each operation is described by what `get?`
finds afterwards, and `ext_get?` says that nothing else matters.
-/

namespace EvictionBus

/-- A finite map from numbers to values. -/
structure KeyTable (α : Type) where
  entries : List (Nat × α)
  sorted : entries.Pairwise fun a b => a.1 < b.1

namespace KeyTable

variable {α : Type}

/-! ## Lists of entries -/

/-- The value of the first entry with a key. -/
def find (k : Nat) : List (Nat × α) → Option α
  | [] => none
  | e :: es => if e.1 = k then some e.2 else find k es

/-- Puts an entry in its place, instead of the one with the same key. -/
def place (k : Nat) (a : α) : List (Nat × α) → List (Nat × α)
  | [] => [(k, a)]
  | e :: es =>
    if k < e.1 then (k, a) :: e :: es
    else if e.1 = k then (k, a) :: es
    else e :: place k a es

theorem mem_place {k : Nat} {a : α} {e : Nat × α} {es : List (Nat × α)}
    (h : e ∈ place k a es) : e = (k, a) ∨ e ∈ es := by
  induction es with
  | nil => simp_all [place]
  | cons d es ih =>
    simp only [place] at h
    split at h
    · simp_all
    · split at h
      · rcases List.mem_cons.1 h with h | h
        · exact .inl h
        · exact .inr (List.mem_cons_of_mem _ h)
      · rcases List.mem_cons.1 h with h | h
        · exact .inr (h ▸ List.mem_cons_self)
        · exact (ih h).imp_right (List.mem_cons_of_mem _)

theorem sorted_place {k : Nat} {a : α} {es : List (Nat × α)}
    (h : es.Pairwise fun a b => a.1 < b.1) : (place k a es).Pairwise fun a b => a.1 < b.1 := by
  induction es with
  | nil => simp [place]
  | cons d es ih =>
    rw [List.pairwise_cons] at h
    simp only [place]
    split
    · rename_i hk
      refine List.pairwise_cons.2 ⟨fun e he => ?_, List.pairwise_cons.2 h⟩
      rcases List.mem_cons.1 he with rfl | he
      · exact hk
      · exact Nat.lt_trans hk (h.1 e he)
    · split
      · rename_i hk
        exact List.pairwise_cons.2 ⟨fun e he => hk ▸ h.1 e he, h.2⟩
      · rename_i hlt hne
        refine List.pairwise_cons.2 ⟨fun e he => ?_, ih h.2⟩
        rcases mem_place he with rfl | he
        · simp only at *
          omega
        · exact h.1 e he

theorem find_place (k j : Nat) (a : α) (es : List (Nat × α)) :
    find j (place k a es) = if j = k then some a else find j es := by
  induction es with
  | nil => simp [place, find, eq_comm]
  | cons d es ih =>
    simp only [place]
    split
    · simp [find, eq_comm]
    · split
      · rename_i hk
        by_cases hj : j = k
        · simp [find, hj]
        · simp [find, hk, Ne.symm hj, hj]
      · rename_i hk
        by_cases hd : d.1 = j
        · have : j ≠ k := fun e => hk (hd.trans e)
          simp [find, hd, this]
        · simp [find, hd, ih]

theorem find_filter (k j : Nat) (es : List (Nat × α)) :
    find j (es.filter fun e => e.1 ≠ k) = if j = k then none else find j es := by
  induction es with
  | nil => simp [find]
  | cons d es ih =>
    rw [List.filter_cons]
    by_cases hd : d.1 = k
    · rw [if_neg (by simp [hd]), ih]
      by_cases hj : j = k
      · rw [if_pos hj, if_pos hj]
      · rw [if_neg hj, if_neg hj, find, if_neg fun e => hj (e.symm.trans hd)]
    · rw [if_pos (by simp [hd])]
      by_cases hj : d.1 = j
      · rw [find, if_pos hj, if_neg fun e => hd (hj.trans e), find, if_pos hj]
      · rw [find, if_neg hj, ih, find, if_neg hj]

theorem find_map (k : Nat) (f : Nat → α → α) (es : List (Nat × α)) :
    find k (es.map fun e => (e.1, f e.1 e.2)) = (find k es).map (f k) := by
  induction es with
  | nil => rfl
  | cons d es ih =>
    by_cases hd : d.1 = k
    · simp [find, hd]
    · simp [find, hd, ih]

theorem find_eq_some_iff {k : Nat} {a : α} {es : List (Nat × α)}
    (h : es.Pairwise fun a b => a.1 < b.1) : find k es = some a ↔ (k, a) ∈ es := by
  induction es with
  | nil => simp [find]
  | cons d es ih =>
    rw [List.pairwise_cons] at h
    by_cases hd : d.1 = k
    · simp only [find, hd, if_true, Option.some.injEq, List.mem_cons]
      constructor
      · rintro rfl
        exact .inl (by rw [← hd])
      · rintro (he | he)
        · rw [← he]
        · exact absurd (h.1 _ he) (by simp [hd])
    · simp only [find, hd, if_false, ih h.2, List.mem_cons]
      constructor
      · exact .inr
      · rintro (he | he)
        · exact absurd (by rw [← he]) hd
        · exact he

/-! ## Tables -/

def empty : KeyTable α := ⟨[], .nil⟩

instance : Inhabited (KeyTable α) := ⟨empty⟩

def get? (t : KeyTable α) (k : Nat) : Option α :=
  find k t.entries

def contains (t : KeyTable α) (k : Nat) : Bool :=
  (t.get? k).isSome

def keys (t : KeyTable α) : List Nat :=
  t.entries.map Prod.fst

def size (t : KeyTable α) : Nat :=
  t.entries.length

def insert (t : KeyTable α) (k : Nat) (a : α) : KeyTable α :=
  ⟨place k a t.entries, sorted_place t.sorted⟩

def erase (t : KeyTable α) (k : Nat) : KeyTable α :=
  ⟨t.entries.filter fun e => e.1 ≠ k, t.sorted.filter _⟩

def mapValues (t : KeyTable α) (f : Nat → α → α) : KeyTable α :=
  ⟨t.entries.map fun e => (e.1, f e.1 e.2), by simpa [List.pairwise_map] using t.sorted⟩

/-- Changes the value of a key, if it has one. -/
def modify (t : KeyTable α) (k : Nat) (f : α → α) : KeyTable α :=
  t.mapValues fun j a => if j = k then f a else a

@[simp] theorem get?_insert (t : KeyTable α) (k j : Nat) (a : α) :
    (t.insert k a).get? j = if j = k then some a else t.get? j :=
  find_place k j a t.entries

@[simp] theorem get?_erase (t : KeyTable α) (k j : Nat) :
    (t.erase k).get? j = if j = k then none else t.get? j :=
  find_filter k j t.entries

@[simp] theorem get?_mapValues (t : KeyTable α) (f : Nat → α → α) (k : Nat) :
    (t.mapValues f).get? k = (t.get? k).map (f k) :=
  find_map k f t.entries

@[simp] theorem get?_modify (t : KeyTable α) (k j : Nat) (f : α → α) :
    (t.modify k f).get? j = if j = k then (t.get? j).map f else t.get? j := by
  by_cases h : j = k <;> simp [modify, h]

theorem contains_modify (t : KeyTable α) (k j : Nat) (f : α → α) :
    (t.modify k f).contains j = t.contains j := by
  unfold contains
  rw [get?_modify]
  split
  · rw [Option.isSome_map]
  · rfl

theorem contains_erase {t : KeyTable α} {k j : Nat} :
    (t.erase k).contains j = true ↔ j ≠ k ∧ t.contains j = true := by
  unfold contains
  rw [get?_erase]
  by_cases h : j = k <;> simp [h]

theorem get?_eq_some_iff (t : KeyTable α) (k : Nat) (a : α) :
    t.get? k = some a ↔ (k, a) ∈ t.entries :=
  find_eq_some_iff t.sorted

theorem mem_keys_iff (t : KeyTable α) (k : Nat) : k ∈ t.keys ↔ t.contains k = true := by
  simp only [keys, List.mem_map, Prod.exists, exists_and_right, exists_eq_right, contains,
    Option.isSome_iff_exists, get?_eq_some_iff]

theorem sorted_keys (t : KeyTable α) : t.keys.Pairwise (· < ·) :=
  List.pairwise_map.2 t.sorted

@[simp] theorem keys_mapValues (t : KeyTable α) (f : Nat → α → α) :
    (t.mapValues f).keys = t.keys := by
  simp [keys, mapValues, Function.comp_def]

@[simp] theorem keys_modify (t : KeyTable α) (k : Nat) (f : α → α) : (t.modify k f).keys = t.keys :=
  keys_mapValues t _

theorem length_keys (t : KeyTable α) : t.keys.length = t.size := by
  simp [keys, size]

/-- Two tables with the same values are the same. -/
theorem ext_get? {s t : KeyTable α} (h : ∀ k, s.get? k = t.get? k) : s = t := by
  obtain ⟨es, hs⟩ := s
  obtain ⟨ds, hd⟩ := t
  have hmem : ∀ e : Nat × α, e ∈ es ↔ e ∈ ds := fun e => by
    rw [← find_eq_some_iff hs, ← find_eq_some_iff hd, show find e.1 es = find e.1 ds from h e.1]
  congr
  clear h
  induction es generalizing ds with
  | nil =>
    cases ds with
    | nil => rfl
    | cons d ds => exact absurd ((hmem d).2 List.mem_cons_self) List.not_mem_nil
  | cons e es ih =>
    cases ds with
    | nil => exact absurd ((hmem e).1 List.mem_cons_self) List.not_mem_nil
    | cons d ds =>
      rw [List.pairwise_cons] at hs hd
      have hed : e = d := by
        rcases List.mem_cons.1 ((hmem e).1 List.mem_cons_self) with he | he
        · exact he
        · rcases List.mem_cons.1 ((hmem d).2 List.mem_cons_self) with hd' | hd'
          · exact hd'.symm
          · exact absurd (Nat.lt_trans (hd.1 e he) (hs.1 d hd')) (Nat.lt_irrefl _)
      subst hed
      congr 1
      refine ih hs.2 ds hd.2 fun x => ⟨fun hx => ?_, fun hx => ?_⟩
      · rcases List.mem_cons.1 ((hmem x).1 (List.mem_cons_of_mem _ hx)) with rfl | h
        · exact absurd (hs.1 x hx) (Nat.lt_irrefl _)
        · exact h
      · rcases List.mem_cons.1 ((hmem x).2 (List.mem_cons_of_mem _ hx)) with rfl | h
        · exact absurd (hd.1 x hx) (Nat.lt_irrefl _)
        · exact h

/-! ## Values -/

/-- The values in the order of their keys. -/
def values (t : KeyTable α) : List α :=
  t.entries.map Prod.snd

theorem nodup_entries (t : KeyTable α) : t.entries.Nodup := by
  apply t.sorted.imp
  rintro a b h rfl
  omega

theorem erase_of_get?_eq_none {t : KeyTable α} {k : Nat} (h : t.get? k = none) : t.erase k = t := by
  apply ext_get?
  intro j
  rw [get?_erase]
  split
  next hj => rw [hj, h]
  next => rfl

theorem erase_insert (t : KeyTable α) (k : Nat) (a : α) : (t.insert k a).erase k = t.erase k := by
  apply ext_get?
  intro j
  rw [get?_erase, get?_erase]
  split
  next => rfl
  next hj => rw [get?_insert, if_neg hj]

theorem erase_erase (t : KeyTable α) (k : Nat) : (t.erase k).erase k = t.erase k :=
  erase_of_get?_eq_none (by rw [get?_erase, if_pos rfl])

theorem insert_erase (t : KeyTable α) (k : Nat) (a : α) :
    (t.erase k).insert k a = t.insert k a := by
  apply ext_get?
  intro j
  rw [get?_insert, get?_insert]
  split
  next => rfl
  next hj => rw [get?_erase, if_neg hj]

theorem insert_insert (t : KeyTable α) (k : Nat) (a b : α) :
    (t.insert k a).insert k b = t.insert k b := by
  rw [← insert_erase, erase_insert, insert_erase]

theorem modify_eq_insert {t : KeyTable α} {k : Nat} {a : α} (f : α → α) (h : t.get? k = some a) :
    t.modify k f = t.insert k (f a) := by
  apply ext_get?
  intro j
  rw [get?_modify, get?_insert]
  split
  next hj =>
    rw [hj, h]
    rfl
  next => rfl

theorem values_mapValues (t : KeyTable α) (f : Nat → α → α) :
    (t.mapValues f).values = t.entries.map fun e => f e.1 e.2 := by
  simp [values, mapValues]

/-- Up to order, the entries are the one of a key and those that stay without the key. -/
theorem perm_entries_erase {t : KeyTable α} {k : Nat} {a : α} (h : t.get? k = some a) :
    t.entries.Perm ((k, a) :: (t.erase k).entries) := by
  have hnot : (k, a) ∉ (t.erase k).entries := by
    rw [← get?_eq_some_iff, get?_erase, if_pos rfl]
    exact nofun
  rw [List.perm_ext_iff_of_nodup t.nodup_entries
    (List.nodup_cons.2 ⟨hnot, (t.erase k).nodup_entries⟩)]
  rintro ⟨j, b⟩
  rw [List.mem_cons, ← get?_eq_some_iff, ← get?_eq_some_iff, get?_erase]
  by_cases hj : j = k
  · subst hj
    simp [h, eq_comm]
  · simp [hj]

theorem perm_entries_insert (t : KeyTable α) (k : Nat) (a : α) :
    (t.insert k a).entries.Perm ((k, a) :: (t.erase k).entries) := by
  have h : (t.insert k a).get? k = some a := by rw [get?_insert, if_pos rfl]
  rw [← erase_insert t k a]
  exact perm_entries_erase h

/-- The same for the values alone. -/
theorem perm_values_erase {t : KeyTable α} {k : Nat} {a : α} (h : t.get? k = some a) :
    t.values.Perm (a :: (t.erase k).values) :=
  (perm_entries_erase h).map Prod.snd

theorem perm_values_insert (t : KeyTable α) (k : Nat) (a : α) :
    (t.insert k a).values.Perm (a :: (t.erase k).values) :=
  (perm_entries_insert t k a).map Prod.snd

end KeyTable

end EvictionBus
