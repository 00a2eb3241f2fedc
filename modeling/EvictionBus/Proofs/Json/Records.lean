import EvictionBus.Proofs.Json.Values

/-!
# Records and fields are read back

The object of a record gives it every field once, in order, and what is written into a field is read
from it.  Only a floating-point number may change on the way: what becomes of it is up to the reader
of numbers.
-/

namespace EvictionBus.Json

/-! ## Records -/

namespace RecordFormat

variable {F : Type}

/-- The members of an object that stand for fields are found under their names. -/
theorem known_fields (r : RecordFormat F) {fs : List F}
    (hnames : ∀ f ∈ fs, r.field? (r.name f) = some f) (value : F → Value) :
    r.known (fs.map fun f => (.ofString (r.name f), value f)) =
      some (fs.map fun f => (f, value f)) := by
  induction fs with
  | nil => rfl
  | cons f fs ih =>
    have hrest := ih fun x hx => hnames x (List.mem_cons_of_mem _ hx)
    have hf := hnames f List.mem_cons_self
    simp [known, Text.string?_ofString, hrest, hf]

theorem given_object [DecidableEq F] (r : RecordFormat F) (hfields : r.fields.Nodup)
    (hnames : ∀ f ∈ r.fields, r.field? (r.name f) = some f) (value : F → Value) :
    r.given (r.object value) = some (r.fields.map fun f => (f, value f)) := by
  have hfirst : (r.fields.map fun f => (f, value f)).map Prod.fst = r.fields := by
    simp [Function.comp_def]
  rw [object, given, r.known_fields hnames, Option.filter_some, hfirst]
  exact if_pos (decide_eq_true hfields)

theorem plain_object (r : RecordFormat F) {value : F → Value} (h : ∀ f, (value f).Plain) :
    (r.object value).Plain := by
  refine .object (fun m hm => ?_) (fun m hm => ?_)
  · obtain ⟨f, -, rfl⟩ := List.mem_map.1 hm
    exact ⟨r.name f, rfl⟩
  · obtain ⟨f, -, rfl⟩ := List.mem_map.1 hm
    exact h f

end RecordFormat

/-! ## Fields -/

namespace Value

theorem natBelow?_ofNat {bound n : Nat} (h : n < bound) : natBelow? bound (ofNat n) = some n := by
  rw [ofNat, natBelow?, Numeral.nat?_ofNat, Option.filter_some, if_pos (decide_eq_true h)]

theorem text?_ofText (s : String) : text? (ofText s) = some s :=
  Text.string?_ofString s

/-- A value that may be absent is read back unless `null` is written for one that is present. -/
theorem nullOr?_ofOption {α : Type} {read : Value → Option α} {write : α → Value} {o : Option α}
    (hread : ∀ a ∈ o, read (write a) = some a) (hnull : ∀ a, write a ≠ .null) :
    nullOr? read (ofOption write o) = some o := by
  cases o with
  | none => rfl
  | some a =>
    rw [ofOption]
    unfold nullOr?
    split
    next heq => exact absurd heq (hnull a)
    next => rw [hread a rfl, Option.map_some]

theorem ofNat_ne_null (n : Nat) : ofNat n ≠ .null := by
  rw [ofNat]
  exact nofun

theorem ofText_ne_null (s : String) : ofText s ≠ .null := by
  rw [ofText]
  exact nofun

theorem list?_map {α : Type} {read : Value → Option α} {write : α → Value}
    (h : ∀ a, read (write a) = some a) (as : List α) :
    list? read (.array (as.map write)) = some as := by
  rw [list?]
  induction as with
  | nil => rfl
  | cons a as ih =>
    rw [List.map_cons, List.mapM_cons, h, ih]
    rfl

end Value

/-- What is read of what is written for a floating-point number. -/
def readBack? (x : Float) : Option Float :=
  (Value.ofFloat x).float?

theorem readBack?_of_exact {x : Float} (hfinite : x.isFinite = true)
    (hexact : ∀ n, Numeral.ofFloat? x = some n → n.float? = some x) : readBack? x = some x := by
  unfold readBack? Value.ofFloat
  split
  next n hn => exact hexact n hn
  next hnone =>
    rw [Numeral.ofFloat?_eq_none_iff, hfinite] at hnone
    cases hnone

/-- An infinity and what is no number are not read back. -/
theorem readBack?_of_not_finite {x : Float} (h : x.isFinite = false) : readBack? x = none := by
  unfold readBack? Value.ofFloat
  rw [(Numeral.ofFloat?_eq_none_iff x).2 h]
  rfl

end EvictionBus.Json
