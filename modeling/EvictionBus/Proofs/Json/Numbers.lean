import EvictionBus.Json.Number
import EvictionBus.Json.Shortest
import EvictionBus.Proofs.Json.Tokens

/-!
# The numbers that are written

Natural numbers and finite floating-point numbers are written as JSON has it, whatever the search
for the shortest decimal finds.  A natural number is read back as the number; a floating-point number
is written if and only if it is finite.
-/

namespace EvictionBus.Json

/-! ## Natural numbers -/

theorem isRun_toDigits (n : Nat) : IsRun (Nat.toDigits 10 n) :=
  ⟨Nat.toDigits_ne_nil, fun _ => Text.isDigit_of_mem_toDigits⟩

theorem head?_toDigits {n : Nat} (hn : n ≠ 0) : (Nat.toDigits 10 n).head? ≠ some '0' := by
  induction n using Nat.strongRecOn with
  | ind n ih =>
    by_cases hlt : n < 10
    · rw [Nat.toDigits_of_lt_base hlt]
      have h : ∀ n < 10, n ≠ 0 → [Nat.digitChar n].head? ≠ some '0' := by decide
      exact h n hlt hn
    · -- The first digit is that of the quotient.
      have hq : 0 < n / 10 := by omega
      have hd := Nat.toDigits_append_toDigits (n := n / 10) (d := n % 10) (by decide) hq
        (Nat.mod_lt n (by decide))
      rw [Nat.div_add_mod] at hd
      have hquotient := ih (n / 10) (by omega) (by omega)
      obtain ⟨c, cs, hcs⟩ := List.exists_cons_of_ne_nil (Nat.toDigits_ne_nil (b := 10) (n := n / 10))
      rw [hcs] at hquotient
      rw [← hd, hcs]
      exact hquotient

theorem IsRun.mono {ds fs : List Char} (hds : IsRun ds) (hfs : fs ≠ []) (h : fs ⊆ ds) : IsRun fs :=
  ⟨hfs, fun c hc => hds.digits c (h hc)⟩

theorem IsRun.zeros_append (k : Nat) {ds : List Char} (hds : IsRun ds) :
    IsRun (List.replicate k '0' ++ ds) := by
  refine ⟨by simp [hds.ne_nil], fun c hc => ?_⟩
  rcases List.mem_append.1 hc with hc | hc
  · rw [List.eq_of_mem_replicate hc]
    rfl
  · exact hds.digits c hc

namespace Numeral

theorem wellFormed_ofNat (n : Nat) : (ofNat n).WellFormed where
  whole := by
    by_cases hn : n = 0
    · subst hn
      exact .inl rfl
    · exact .inr ⟨isRun_toDigits n, head?_toDigits hn⟩
  fraction _ h := by cases h
  exponent _ h := by cases h

theorem nat?_ofNat (n : Nat) : (ofNat n).nat? = some n := by
  simp [nat?, ofNat, Text.ofDigits_toDigits]

/-! ## Layout of decimals -/

/-- Without an exponent, the digits on both sides of the point are all that matters. -/
theorem wellFormed_positional (negative : Bool) {whole fraction : List Char}
    (hwhole : whole = ['0'] ∨ IsRun whole ∧ whole.head? ≠ some '0') (hfraction : IsRun fraction) :
    WellFormed ⟨negative, whole, some fraction, none⟩ where
  whole := hwhole
  fraction ds h := by
    cases h
    exact hfraction
  exponent _ h := by cases h

theorem isRun_zero : IsRun ['0'] where
  ne_nil := List.cons_ne_nil _ _
  digits c hc := by
    rw [List.mem_singleton.1 hc]
    rfl

/-- Where the point of a decimal falls makes no difference. -/
theorem wellFormed_layout (negative : Bool) {ds : List Char} (hds : IsRun ds)
    (hhead : ds.head? ≠ some '0') (exponent : Int) : (layout negative ds exponent).WellFormed := by
  obtain ⟨d, ds, rfl⟩ := List.exists_cons_of_ne_nil hds.ne_nil
  have hzero : d ≠ '0' := fun h => hhead (congrArg some h)
  unfold layout
  dsimp only
  split
  next =>
    refine wellFormed_positional negative (.inr ⟨⟨by simp, fun c hc => ?_⟩, by simp [hzero]⟩)
      isRun_zero
    rcases List.mem_append.1 hc with hc | hc
    · exact hds.digits c hc
    · rw [List.eq_of_mem_replicate hc]
      rfl
  next hpositional =>
    split
    next hinside =>
      -- The point falls between two digits.
      rw [List.length_cons] at hpositional hinside ⊢
      obtain ⟨k, hk⟩ : ∃ k, (((ds.length + 1 : Nat) : Int) + exponent).toNat = k + 1 :=
        Nat.exists_eq_succ_of_ne_zero (by omega)
      rw [hk]
      refine wellFormed_positional negative
        (.inr ⟨hds.mono (by simp) (List.take_subset _ _), by simp [hzero]⟩)
        (hds.mono (fun h => ?_) (List.drop_subset _ _))
      rw [List.drop_succ_cons, List.drop_eq_nil_iff] at h
      omega
    next =>
      split
      next => exact wellFormed_positional negative (.inl rfl) (hds.zeros_append _)
      next =>
        refine ⟨.inr ⟨hds.mono (by simp) (List.take_subset _ _), by simp [hzero]⟩,
          fun fs hfs => ?_, fun e he => ?_⟩
        · split at hfs
          next => cases hfs
          next hlong =>
            cases hfs
            refine hds.mono (fun h => hlong ?_) (List.drop_subset _ _)
            rwa [List.drop_eq_nil_iff] at h
        · cases he
          exact isRun_toDigits _

end Numeral

/-! ## The shortest decimal -/

namespace Surroundings

variable {s : Surroundings}

/-- Zero is not read back as a positive number. -/
theorem covers_zero (h : 0 < s.low) (exponent : Int) : s.covers 0 exponent = false := by
  have hpos : 0 < s.low * Nat.pow 10 (-exponent).toNat :=
    Nat.mul_pos h (Nat.pow_pos (by decide))
  unfold covers
  dsimp only
  rw [Nat.zero_mul, Nat.zero_mul, decide_eq_false (Nat.not_le.2 hpos),
    decide_eq_false (Nat.not_lt_zero _), Bool.false_and, Bool.false_and, ite_self]

/-- What is found on a grid is read back. -/
theorem covers_of_onGrid? {exponent : Int} {d : Nat} (hd : s.onGrid? exponent = some d) :
    s.covers d exponent = true := by
  unfold onGrid? at hd
  extract_lets scaled unit below rest first second at hd
  split at hd
  next hfirst => exact Option.some.inj hd ▸ hfirst
  next =>
    split at hd
    next hsecond => exact Option.some.inj hd ▸ hsecond
    next => cases hd

theorem shortest_ne_zero (h : 0 < s.low) : s.shortest.1 ≠ 0 ∨ s.shortest = (0, 0) := by
  unfold shortest
  dsimp only
  cases hfound : (List.range 17).findSome? _ with
  | none => exact .inr rfl
  | some found =>
    obtain ⟨n, -, hn⟩ := List.exists_of_findSome?_eq_some hfound
    obtain ⟨d, hd, rfl⟩ := Option.map_eq_some_iff.1 hn
    refine .inl fun hzero => ?_
    have hcovers := covers_of_onGrid? hd
    rw [show d = 0 from hzero, covers_zero h] at hcovers
    cases hcovers

theorem low_ofBits_pos {bits : Nat} (hpos : bits ≠ 0) (hlt : bits < exponentSize * fractionSize) :
    0 < (ofBits bits).low := by
  have hbiased : bits / fractionSize < exponentSize :=
    Nat.div_lt_of_lt_mul (by rwa [Nat.mul_comm])
  unfold ofBits
  dsimp only
  rw [Nat.mod_eq_of_lt hbiased]
  have hsignificand : 0 < if bits / fractionSize = 0 then bits % fractionSize
      else bits % fractionSize + fractionSize := by
    split
    next hsmall =>
      have h := Nat.div_add_mod bits fractionSize
      rw [hsmall] at h
      omega
    next => exact Nat.add_pos_right _ (by decide)
  have hbelow : (if bits % fractionSize = 0 ∧ 1 < bits / fractionSize then 1 else 2) ≤ 2 := by
    split <;> decide
  exact Nat.mul_pos (by omega) (Nat.pow_pos (by decide))

end Surroundings

theorem stripZeros_ne_zero {digits : Nat} (h : digits ≠ 0) (fuel : Nat) (exponent : Int) :
    (stripZeros fuel digits exponent).1 ≠ 0 := by
  induction fuel generalizing digits exponent with
  | zero => exact h
  | succ fuel ih =>
    unfold stripZeros
    split
    next hz => exact ih (by omega) _
    next => exact h

namespace Numeral

/-- What is written for a floating-point number is well-formed. -/
theorem wellFormed_ofFloat? {x : Float} {n : Numeral} (h : ofFloat? x = some n) :
    n.WellFormed := by
  unfold ofFloat? at h
  dsimp only at h
  split at h
  next => cases h
  next =>
    split at h
    next =>
      cases h
      exact wellFormed_positional _ (.inl rfl) isRun_zero
    next hpos =>
      have hlow := Surroundings.low_ofBits_pos hpos (Nat.mod_lt _ (by decide))
      cases h
      rcases Surroundings.shortest_ne_zero hlow with hdigits | hnone
      · exact wellFormed_layout _ (isRun_toDigits _)
          (head?_toDigits (stripZeros_ne_zero hdigits 20 _)) _
      · rw [hnone]
        exact wellFormed_positional _ (.inl rfl) isRun_zero

/-! ## Finite numbers -/

theorem toNat_unpackExponent (x : Float) :
    (@Float.Model.UnpackedFloat.unpackExponent .binary64 x.toModel.toBits.toBitVec).toNat =
      x.toBits.toNat / fractionSize % exponentSize := by
  change (x.toBits.toNat >>> 52) % Nat.pow 2 11 = _
  rw [Nat.shiftRight_eq_div_pow]
  rfl

/-- The largest exponent stands for what is not finite. -/
theorem isFinite_eq_false_iff (x : Float) : x.isFinite = false ↔
    x.toBits.toNat / fractionSize % exponentSize = exponentSize - 1 := by
  have hones : ∀ e : BitVec 11, e.toNat = exponentSize - 1 ↔ e = -1#_ := fun e =>
    BitVec.toNat_inj (x := e) (y := -1#11)
  rw [← toNat_unpackExponent, hones]
  change x.toModel.unpack.isFinite = false ↔ _
  unfold Float.Model.unpack Float.Model.UnpackedFloat.unpack
  dsimp only
  generalize hexponent :
    @Float.Model.UnpackedFloat.unpackExponent .binary64 x.toModel.toBits.toBitVec = exponent
  by_cases hall : exponent = -1#_
  · rw [if_pos hall]
    refine ⟨fun _ => hall, fun _ => ?_⟩
    split <;> rfl
  · rw [if_neg hall]
    refine ⟨fun hfinite => ?_, fun he => absurd he hall⟩
    by_cases hsmall : exponent = 0#_
    · rw [if_pos hsmall] at hfinite
      by_cases hzero :
          @Float.Model.UnpackedFloat.unpackMantissa .binary64 x.toModel.toBits.toBitVec = 0#_
      · rw [dif_pos hzero] at hfinite
        cases hfinite
      · rw [dif_neg hzero] at hfinite
        cases hfinite
    · rw [if_neg hsmall] at hfinite
      cases hfinite

/-- A floating-point number is written if and only if it is finite. -/
theorem ofFloat?_eq_none_iff (x : Float) : ofFloat? x = none ↔ x.isFinite = false := by
  have hnone : ofFloat? x = none ↔
      (exponentSize - 1) * fractionSize ≤ x.toBits.toNat % (exponentSize * fractionSize) := by
    unfold ofFloat?
    dsimp only
    split
    next h => exact ⟨fun _ => h, fun _ => rfl⟩
    next h =>
      refine ⟨fun hn => ?_, fun hn => absurd hn h⟩
      split at hn <;> cases hn
  have hlow : x.toBits.toNat % fractionSize < fractionSize := Nat.mod_lt _ (by decide)
  have hhigh : x.toBits.toNat / fractionSize % exponentSize < exponentSize :=
    Nat.mod_lt _ (by decide)
  rw [isFinite_eq_false_iff, hnone, Nat.mul_comm exponentSize, Nat.mod_mul]
  simp only [exponentSize, fractionSize] at *
  omega

end Numeral

end EvictionBus.Json
