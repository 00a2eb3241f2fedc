import EvictionBus.Proofs.Transport.Schedule
import Mathlib.Data.ENNReal.Inv

/-!
# Growth of the waits

A search without a limit makes calls as long as they fail.  The exponent of the multiplier counts the
calls before the last one, but only up to the call `lastGrowing`: the exponent after the next call is
negative, and the waits, which had grown until then, start again below the first one.
-/

namespace EvictionBus

open scoped ENNReal
open Float.Model (UnpackedFloat)
open Float.Model.UnpackedFloat (Sign)

namespace Backoff

/-! ## Exponents -/

/-- The exponent of the multiplier after the call of a number has failed. -/
def exponentAfter (call : Nat) : Int :=
  exponent (UInt32.ofNat call)

/-- The last call, counted from one, after which the exponent is as large as it has ever been. -/
def lastGrowing : Nat := 0x80000000

theorem toNat_counter_eq_iff {call : Nat} :
    (UInt32.ofNat call).toNat = call ↔ call < UInt32.size := by
  have hsize : UInt32.size = 4294967296 := rfl
  rw [UInt32.toNat_ofNat', hsize]
  omega

/-- The exponent in terms of the number of the call, as long as that is counted without a wrap. -/
theorem exponentAfter_eq {call : Nat} (h : call < UInt32.size) :
    exponentAfter call =
      if call ≤ lastGrowing then ((call - 1 : Nat) : Int) else (call : Int) - 1 - UInt32.size := by
  have hsize : UInt32.size = 4294967296 := rfl
  have hlast : lastGrowing = 2147483648 := rfl
  unfold exponentAfter exponent
  rw [toNat_counter_eq_iff.mpr h, Int.bmod_def, hlast, hsize]
  rw [hsize] at h
  omega

theorem exponentAfter_of_le {call : Nat} (h : call ≤ lastGrowing) :
    exponentAfter call = ((call - 1 : Nat) : Int) := by
  rw [exponentAfter_eq (Nat.lt_of_le_of_lt h (by decide)), if_pos h]

theorem exponentAfter_of_gt {call : Nat} (h : lastGrowing < call) (hlt : call < UInt32.size) :
    exponentAfter call = (call : Int) - 1 - UInt32.size := by
  rw [exponentAfter_eq hlt, if_neg (Nat.not_le.mpr h)]

/-- The exponent is one less than the number of the call exactly for the calls that are counted
before it turns negative. -/
theorem exponentAfter_eq_iff {call : Nat} (hpos : 0 < call) :
    exponentAfter call = (call : Int) - 1 ↔ call ≤ lastGrowing := by
  have hlast : lastGrowing = 2147483648 := rfl
  constructor
  · intro h
    -- No exponent is larger than that of the last growing call.
    have hbound : exponentAfter call < 2147483648 := by
      have hlt := Int.bmod_lt (x := (((UInt32.ofNat call).toNat - 1 : Nat) : Int))
        (m := UInt32.size) (by decide)
      exact hlt
    omega
  · intro h
    rw [exponentAfter_of_le h]
    omega

/-! ## Exact delays -/

/-- The exact value of the multiplier. Zero stands for what is negative or no number. -/
noncomputable def factor (b : Backoff) : ℝ≥0∞ :=
  match b.multiplier.toModel.unpack with
  | .finite .positive significand exponent _ => significand * 2 ^ exponent
  | .infinity .positive => ∞
  | _ => 0

/-- The delay after a call before it is rounded and bounded. -/
noncomputable def exactDelayAfter (b : Backoff) (call : Nat) : ℝ≥0∞ :=
  b.initialDelay * b.factor ^ exponentAfter call

/-- A number that is not among the smallest has a significand of 53 bits. -/
theorem le_significand_of_unpack {x : Float} {sign : Sign} {significand : Nat} {e : Int}
    {hpos : 0 < significand} (h : x.toModel.unpack = .finite sign significand e hpos)
    (he : -1074 < e) : 0x10000000000000 ≤ significand := by
  unfold Float.Model.unpack UnpackedFloat.unpack at h
  dsimp only at h
  by_cases hall : @UnpackedFloat.unpackExponent .binary64 x.toModel.toBits.toBitVec = -1#_
  · rw [if_pos hall] at h
    by_cases hnone : @UnpackedFloat.unpackMantissa .binary64 x.toModel.toBits.toBitVec = 0#_
    · rw [if_pos hnone] at h
      cases h
    · rw [if_neg hnone] at h
      cases h
  · rw [if_neg hall] at h
    by_cases hsmall : @UnpackedFloat.unpackExponent .binary64 x.toModel.toBits.toBitVec = 0#_
    · rw [if_pos hsmall] at h
      by_cases hzero : @UnpackedFloat.unpackMantissa .binary64 x.toModel.toBits.toBitVec = 0#_
      · rw [dif_pos hzero] at h
        cases h
      · -- The smallest numbers have the exponent -1074.
        rw [dif_neg hzero] at h
        cases h
        rw [hsmall] at he
        exact absurd he (by decide)
    · rw [if_neg hsmall] at h
      obtain ⟨-, hsignificand, -⟩ := UnpackedFloat.finite.inj h
      rw [← hsignificand, BitVec.toNat_append]
      exact Nat.le_trans (by decide) Nat.left_le_or

theorem unpack_one :
    (1.0 : Float).toModel.unpack = .finite .positive 0x10000000000000 (-52) (by decide) :=
  rfl

theorem exact_one : ((0x10000000000000 : Nat) : ℝ≥0∞) * 2 ^ (-52 : Int) = 1 := by
  have hpow : ((0x10000000000000 : Nat) : ℝ≥0∞) = 2 ^ (52 : Int) := by norm_cast
  rw [hpow, ENNReal.zpow_neg]
  exact ENNReal.mul_inv_cancel (ENNReal.zpow_pos (by norm_num) (by norm_num) 52).ne'
    (by finiteness)

/-- A multiplier of at least one has an exact value of at least one. -/
theorem one_le_factor {b : Backoff} (h : 1.0 ≤ b.multiplier) : 1 ≤ b.factor := by
  have h : (Float.toModel 1.0).unpack.le b.multiplier.toModel.unpack = true := of_decide_eq_true h
  rw [unpack_one] at h
  unfold factor
  cases hx : b.multiplier.toModel.unpack with
  | notANumber | zero =>
    rw [hx] at h
    contradiction
  | infinity sign =>
    rw [hx] at h
    cases sign with
    | negative => contradiction
    | positive => exact le_top
  | finite sign significand e hpos =>
    rw [hx] at h
    cases sign with
    | negative => contradiction
    | positive =>
      -- Exponents are compared first, and then significands.
      change ((compare (-52) e).then (compare 0x10000000000000 significand)).isLE = true at h
      rw [Ordering.isLE_then_iff_or, Std.compare_eq_lt, compare_eq_iff_eq, Std.isLE_compare] at h
      have he : -52 ≤ e := by omega
      have hlarge : 0x10000000000000 ≤ significand := by
        rcases h with hlt | ⟨-, hle⟩
        · exact le_significand_of_unpack hx (by omega)
        · exact hle
      calc (1 : ℝ≥0∞) = ((0x10000000000000 : Nat) : ℝ≥0∞) * 2 ^ (-52 : Int) := exact_one.symm
        _ ≤ significand * 2 ^ e :=
          mul_le_mul' (Nat.cast_le.mpr hlarge) (ENNReal.zpow_le_of_le one_le_two he)

theorem exactDelayAfter_mono {b : Backoff} (hm : 1.0 ≤ b.multiplier) {j k : Nat}
    (h : exponentAfter j ≤ exponentAfter k) : b.exactDelayAfter j ≤ b.exactDelayAfter k :=
  mul_le_mul_right (ENNReal.zpow_le_of_le (one_le_factor hm) h) _

end Backoff

namespace Search

open Backoff

variable {α ε : Type}

/-! ## Searches without a limit -/

/-- What a search without a limit has done that has been followed for `n` calls. -/
structure Growing (b : Backoff) (script : Nat → Call α ε) (cancelAt : Option Nat) (n : Nat)
    (r : Run α ε) : Prop where
  /-- As long as all calls fail, the next one is made. -/
  goes_on : (∀ k < n, ∃ e, (script (k + 1)).result = .error e) →
    Spared cancelAt (startAfter b script n) → r.calls.length = n ∧ r.ended = none
  wait : ∀ k s s', r.calls[k]? = some s → r.calls[k + 1]? = some s' →
    s' = s + (script (k + 1)).takes + min (b.delayAfter (k + 1)) Clock.longestWait
  counted : (∀ k, 0 < k → k ≤ n → (UInt32.ofNat k).toNat = k) ↔ n < UInt32.size
  exponents : (∀ k : Nat, 0 < k → k ≤ n → exponentAfter k = (k : Int) - 1) ↔ n ≤ lastGrowing
  exponents_mono : (∀ j k, 0 < j → j ≤ k → k ≤ n → exponentAfter j ≤ exponentAfter k) ↔
    n ≤ lastGrowing
  delays_mono : 1.0 ≤ b.multiplier → n ≤ lastGrowing → ∀ j k, 0 < j → j ≤ k → k ≤ n →
    b.exactDelayAfter j ≤ b.exactDelayAfter k
  /-- After the last growing call the delays are no longer than the first one. -/
  shrunk : ∀ k, lastGrowing < k → k ≤ n → k < UInt32.size → exponentAfter k < 0 ∧
    (1.0 ≤ b.multiplier → b.exactDelayAfter k ≤ b.exactDelayAfter 1)

theorem getElem?_starts {b : Backoff} {script : Nat → Call α ε} {n k s : Nat}
    (h : (starts b script n)[k]? = some s) : s = startAfter b script k := by
  obtain ⟨hk, rfl⟩ := List.getElem?_eq_some_iff.mp h
  simp only [starts, List.getElem_map, List.getElem_range]

theorem limit_eq_none {b : Backoff} (h : b.maxAttempts = none) : limit b = none := by
  rw [limit, h, Option.map_none]

theorem calls_of_failing {b : Backoff} (hb : b.maxAttempts = none) {script : Nat → Call α ε}
    {cancelAt : Option Nat} {n : Nat} {r : Run α ε} (h : Follows b script cancelAt 0 n r)
    (hfail : ∀ k < n, ∃ e, (script (k + 1)).result = .error e)
    (hspared : Spared cancelAt (startAfter b script n)) : r.calls.length = n ∧ r.ended = none := by
  cases h with
  | connected i a hi _ hok _ =>
    rw [Nat.zero_add] at hok
    obtain ⟨e, he⟩ := hfail i hi
    rw [hok] at he
    contradiction
  | gaveUp i e hi _ hlast _ _ =>
    rw [limit_eq_none hb] at hlast
    contradiction
  | cancelled i t hi _ hcancel _ hend =>
    -- The next call starts no later than the search has been followed for.
    have hnext : startAfter b script (i + 1) ≤ startAfter b script n := startAfter_mono b script hi
    have hcall : endAfter b script i ≤ startAfter b script (i + 1) :=
      endAfter_le_startAfter b script (Nat.lt_succ_self i)
    have hle := hspared t hcancel
    rw [Nat.zero_add] at hend
    omega
  | unfinished => exact ⟨by rw [List.length_map, List.length_range'], rfl⟩

theorem forall_counted_iff (n : Nat) :
    (∀ k, 0 < k → k ≤ n → (UInt32.ofNat k).toNat = k) ↔ n < UInt32.size := by
  constructor
  · intro h
    by_contra hn
    have hwrapped := h UInt32.size (by decide) (Nat.not_lt.mp hn)
    exact absurd hwrapped (by decide)
  · intro hn k _ hk
    exact toNat_counter_eq_iff.mpr (Nat.lt_of_le_of_lt hk hn)

theorem forall_exponents_iff (n : Nat) :
    (∀ k : Nat, 0 < k → k ≤ n → exponentAfter k = (k : Int) - 1) ↔ n ≤ lastGrowing := by
  constructor
  · intro h
    rcases Nat.eq_zero_or_pos n with rfl | hpos
    · exact Nat.zero_le _
    · exact (exponentAfter_eq_iff hpos).mp (h n hpos (Nat.le_refl n))
  · intro hn k hpos hk
    exact (exponentAfter_eq_iff hpos).mpr (Nat.le_trans hk hn)

theorem exponentAfter_le_of_le {j k : Nat} (hjk : j ≤ k) (hk : k ≤ lastGrowing) :
    exponentAfter j ≤ exponentAfter k := by
  rw [exponentAfter_of_le (Nat.le_trans hjk hk), exponentAfter_of_le hk]
  exact Int.ofNat_le.mpr (Nat.sub_le_sub_right hjk 1)

theorem forall_exponents_mono_iff (n : Nat) :
    (∀ j k, 0 < j → j ≤ k → k ≤ n → exponentAfter j ≤ exponentAfter k) ↔ n ≤ lastGrowing := by
  constructor
  · intro h
    by_contra hn
    have hle := h lastGrowing (lastGrowing + 1) (by decide) (Nat.le_succ _) (Nat.not_le.mp hn)
    exact absurd hle (by decide)
  · intro hn j k _ hjk hk
    exact exponentAfter_le_of_le hjk (Nat.le_trans hk hn)

theorem exponentAfter_neg {call : Nat} (h : lastGrowing < call) (hlt : call < UInt32.size) :
    exponentAfter call < 0 := by
  rw [exponentAfter_of_gt h hlt]
  omega

/-- A search without a limit goes on as long as its calls fail, and its waits grow from call to call
up to the last growing one, but no further. -/
theorem growing_run {b : Backoff} (hb : b.maxAttempts = none) (script : Nat → Call α ε)
    (cancelAt : Option Nat) (n : Nat) :
    Growing b script cancelAt n (run b script cancelAt n) := by
  have hcounts : Counts b := by
    intro m hm
    rw [hb] at hm
    contradiction
  have h : Follows b script cancelAt 0 n (run b script cancelAt n) :=
    follows_runFrom hcounts script cancelAt n 0 (Reaches.zero b script) (fun t _ => Nat.zero_le t)
  exact
    { goes_on := calls_of_failing hb h
      wait := by
        intro k s s' hs hs'
        rw [h.calls_eq] at hs hs'
        rw [getElem?_starts hs, getElem?_starts hs']
        rfl
      counted := forall_counted_iff n
      exponents := forall_exponents_iff n
      exponents_mono := forall_exponents_mono_iff n
      delays_mono := by
        intro hm hn j k _ hjk hk
        exact exactDelayAfter_mono hm (exponentAfter_le_of_le hjk (Nat.le_trans hk hn))
      shrunk := by
        intro k hk _ hlt
        have hneg := exponentAfter_neg hk hlt
        have hfirst : exponentAfter 1 = 0 := exponentAfter_of_le (by decide)
        refine ⟨hneg, fun hm => exactDelayAfter_mono hm ?_⟩
        rw [hfirst]
        exact Int.le_of_lt hneg }

/-- Three calls that fail: the second wait is twice the first. -/
theorem growing_run_three :
    let script : Nat → Call Unit String := fun _ => ⟨0, .error "refused"⟩
    Backoff.standard.maxAttempts = none ∧
      Growing Backoff.standard script none 3 (run Backoff.standard script none 3) ∧
      run Backoff.standard script none 3 = ⟨[0, 1000, 3000], none⟩ :=
  ⟨rfl, growing_run rfl _ none 3, by decide +kernel⟩

/-- However long it takes, every call is made; but after the call `lastGrowing + 1` the exponent is
no longer the number of the calls before it, and the standard settings no longer wait at all. -/
theorem exists_shrinking_wait :
    (¬ ∀ (b : Backoff) (script : Nat → Call Unit String) (n : Nat), b.maxAttempts = none →
      (run b script none n).calls.length = n → ∀ k : Nat, 0 < k → k ≤ n →
        (UInt32.ofNat k).toNat = k ∧ exponentAfter k = (k : Int) - 1) ∧
      Backoff.standard.delayAfter lastGrowing = 30000 ∧
      Backoff.standard.delayAfter (lastGrowing + 1) = 0 := by
  refine ⟨fun h => ?_, by decide +kernel, by decide +kernel⟩
  let script : Nat → Call Unit String := fun _ => ⟨0, .error "refused"⟩
  have hfollows : Follows Backoff.standard script none 0 (lastGrowing + 1) _ :=
    follows_runFrom (fun m hm => by cases hm) script none (lastGrowing + 1) 0 (Reaches.zero _ _)
      (fun t _ => Nat.zero_le t)
  obtain ⟨hlength, -⟩ := calls_of_failing rfl hfollows (fun k _ => ⟨"refused", rfl⟩)
    (fun t ht => by cases ht)
  obtain ⟨-, hexponent⟩ := h Backoff.standard script (lastGrowing + 1) rfl hlength
    (lastGrowing + 1) (Nat.succ_pos _) (Nat.le_refl _)
  exact absurd hexponent (by decide)

end Search

end EvictionBus
