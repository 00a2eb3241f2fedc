import EvictionBus.Transport.Reconnect

/-!
# The schedule of a search

When the calls of a search start, and when it ends, is laid down by how long its calls take and by
the backoff.  The schedule goes on for ever; a search keeps to it until a call succeeds, the last
call that is allowed has failed, or the search is cancelled.
-/

namespace EvictionBus.Search

variable {α ε : Type}

/-! ## Start and end of each call -/

/-- The wait after the call of a number has failed. A timer runs for thirty years at most. -/
def pause (b : Backoff) (call : Nat) : Nat :=
  min (b.delayAfter call) Clock.longestWait

/-- When a call starts after `k` calls have failed. -/
def startAfter (b : Backoff) (script : Nat → Call α ε) : Nat → Nat
  | 0 => 0
  | k + 1 => startAfter b script k + (script (k + 1)).takes + pause b (k + 1)

/-- When a call ends that starts after `k` calls have failed. -/
def endAfter (b : Backoff) (script : Nat → Call α ε) (k : Nat) : Nat :=
  startAfter b script k + (script (k + 1)).takes

/-- The starts of the first `n` calls. -/
def starts (b : Backoff) (script : Nat → Call α ε) (n : Nat) : List Nat :=
  (List.range n).map (startAfter b script)

theorem pause_le (b : Backoff) (call : Nat) : pause b call ≤ b.maxDelay :=
  Nat.le_trans (Nat.min_le_left ..) (b.delay_le_maxDelay _)

theorem startAfter_le_endAfter (b : Backoff) (script : Nat → Call α ε) (k : Nat) :
    startAfter b script k ≤ endAfter b script k :=
  Nat.le_add_right ..

theorem endAfter_le_startAfter (b : Backoff) (script : Nat → Call α ε) {k n : Nat} (h : k < n) :
    endAfter b script k ≤ startAfter b script n := by
  induction n with
  | zero => exact absurd h (Nat.not_lt_zero k)
  | succ n ih =>
    have hlast : endAfter b script n ≤ startAfter b script (n + 1) := Nat.le_add_right ..
    rcases Nat.lt_or_eq_of_le (Nat.le_of_lt_succ h) with hk | rfl
    · exact Nat.le_trans (ih hk) (Nat.le_trans (startAfter_le_endAfter b script n) hlast)
    · exact hlast

theorem startAfter_mono (b : Backoff) (script : Nat → Call α ε) {k n : Nat} (h : k ≤ n) :
    startAfter b script k ≤ startAfter b script n := by
  rcases Nat.lt_or_eq_of_le h with hk | rfl
  · exact Nat.le_trans (startAfter_le_endAfter b script k) (endAfter_le_startAfter b script hk)
  · exact Nat.le_refl _

/-! ## How far a search gets -/

/-- The number of calls that may be made, if there is a limit: one is always made. -/
def limit (b : Backoff) : Option Nat :=
  b.maxAttempts.map (max 1)

/-- After `k` calls, which have all failed, another one may be made. -/
structure Reaches (b : Backoff) (script : Nat → Call α ε) (k : Nat) : Prop where
  failed : ∀ j < k, ∃ e, (script (j + 1)).result = .error e
  allowed : ∀ m, limit b = some m → k < m

/-- The search is not cancelled before a time. -/
def Spared (cancelAt : Option Nat) (time : Nat) : Prop :=
  ∀ t, cancelAt = some t → time ≤ t

/-- The call that is made after `k` calls have failed decides the search unless it is cancelled. -/
def Decides (b : Backoff) (script : Nat → Call α ε) (k : Nat) : Prop :=
  Reaches b script k ∧
    ((∃ a, (script (k + 1)).result = .ok a) ∨ limit b = some (k + 1))

theorem cancelledBefore_eq_none {cancelAt : Option Nat} {time : Nat} :
    cancelledBefore cancelAt time = none ↔ Spared cancelAt time := by
  unfold cancelledBefore Spared
  cases cancelAt with
  | none => simp
  | some t => simp

theorem cancelledBefore_eq_some {cancelAt : Option Nat} {time t : Nat} :
    cancelledBefore cancelAt time = some t ↔ cancelAt = some t ∧ t < time := by
  unfold cancelledBefore
  rw [Option.filter_eq_some_iff, decide_eq_true_eq]

/-- The numbers of attempts fit into 32 bits. -/
def Counts (b : Backoff) : Prop :=
  ∀ m, b.maxAttempts = some m → m < UInt32.size

theorem mayFollow_iff {b : Backoff} (hb : Counts b) {k : Nat}
    (hk : ∀ m, limit b = some m → k < m) :
    b.mayFollow (k + 1) = true ↔ limit b ≠ some (k + 1) := by
  unfold Backoff.mayFollow Backoff.mayRetry
  unfold limit at hk ⊢
  cases hm : b.maxAttempts with
  | none => simp
  | some m =>
    rw [hm] at hk
    have hlt := hb m hm
    have hkm : k < max 1 m := hk (max 1 m) rfl
    have hsize : UInt32.size = 4294967296 := rfl
    -- The number of the call does not wrap, since it is within the limit.
    have hnat : (UInt32.ofNat (k + 1)).toNat = k + 1 :=
      UInt32.toNat_ofNat_of_lt' (by omega)
    simp only [hnat, decide_eq_true_eq, Option.map_some, ne_eq, Option.some.injEq]
    omega

theorem Reaches.next {b : Backoff} {script : Nat → Call α ε} {k : Nat} (h : Reaches b script k)
    {e : ε} (he : (script (k + 1)).result = .error e) (hlast : limit b ≠ some (k + 1)) :
    Reaches b script (k + 1) where
  failed j hj := by
    rcases Nat.lt_or_eq_of_le (Nat.le_of_lt_succ hj) with hj | rfl
    · exact h.failed j hj
    · exact ⟨e, he⟩
  allowed m hm := by
    have hlt := h.allowed m hm
    have hne : m ≠ k + 1 := fun heq => hlast (heq ▸ hm)
    omega

/-! ## Runs keep to the schedule -/

/-- The search has gone on from the call after `k` failures, for at most `n` calls. -/
inductive Follows (b : Backoff) (script : Nat → Call α ε) (cancelAt : Option Nat) (k n : Nat) :
    Run α ε → Prop
  | connected (i : Nat) (a : α) (hi : i < n) (h : Reaches b script (k + i))
      (hok : (script (k + i + 1)).result = .ok a)
      (hspared : Spared cancelAt (endAfter b script (k + i))) :
      Follows b script cancelAt k n
        ⟨(List.range' k (i + 1)).map (startAfter b script),
          some (.connected a, endAfter b script (k + i))⟩
  | gaveUp (i : Nat) (e : ε) (hi : i < n) (h : Reaches b script (k + i))
      (hlast : limit b = some (k + i + 1)) (he : (script (k + i + 1)).result = .error e)
      (hspared : Spared cancelAt (endAfter b script (k + i))) :
      Follows b script cancelAt k n
        ⟨(List.range' k (i + 1)).map (startAfter b script),
          some (.gaveUp e, endAfter b script (k + i))⟩
  /-- The cancellation comes during a call, or during the wait after one that was not the last. -/
  | cancelled (i t : Nat) (hi : i < n) (h : Reaches b script (k + i)) (hcancel : cancelAt = some t)
      (hstart : startAfter b script (k + i) ≤ t)
      (hend : t < endAfter b script (k + i) ∨
        Reaches b script (k + i + 1) ∧ t < startAfter b script (k + i + 1)) :
      Follows b script cancelAt k n
        ⟨(List.range' k (i + 1)).map (startAfter b script), some (.cancelled, t)⟩
  | unfinished (h : Reaches b script (k + n))
      (hspared : Spared cancelAt (startAfter b script (k + n))) :
      Follows b script cancelAt k n ⟨(List.range' k n).map (startAfter b script), none⟩

theorem Follows.after {b : Backoff} {script : Nat → Call α ε} {cancelAt : Option Nat} {k n : Nat}
    {r : Run α ε} (h : Follows b script cancelAt (k + 1) n r) :
    Follows b script cancelAt k (n + 1) (r.after (startAfter b script k)) := by
  -- The calls of the rest are those after the first one.
  have hcalls : ∀ m, startAfter b script k :: (List.range' (k + 1) m).map (startAfter b script) =
      (List.range' k (m + 1)).map (startAfter b script) := by
    intro m
    rw [List.range'_succ, List.map_cons]
  have hplace : ∀ i, k + 1 + i = k + (i + 1) := fun i => by omega
  unfold Run.after
  cases h with
  | connected i a hi hreach hok hspared =>
    rw [hplace] at hreach hok hspared ⊢
    rw [hcalls]
    exact .connected (i + 1) a (by omega) hreach hok hspared
  | gaveUp i e hi hreach hlast he hspared =>
    rw [hplace] at hreach hlast he hspared ⊢
    rw [hcalls]
    exact .gaveUp (i + 1) e (by omega) hreach hlast he hspared
  | cancelled i t hi hreach hcancel hstart hend =>
    rw [hplace] at hreach hstart hend
    rw [hcalls]
    exact .cancelled (i + 1) t (by omega) hreach hcancel hstart hend
  | unfinished hreach hspared =>
    rw [hplace] at hreach hspared
    rw [hcalls]
    exact .unfinished hreach hspared

theorem follows_runFrom {b : Backoff} (hb : Counts b) (script : Nat → Call α ε)
    (cancelAt : Option Nat) (n k : Nat) (hreach : Reaches b script k)
    (hspared : Spared cancelAt (startAfter b script k)) :
    Follows b script cancelAt k n
      (runFrom b script cancelAt n (k + 1) (startAfter b script k)) := by
  induction n generalizing k with
  | zero => exact .unfinished hreach hspared
  | succ n ih =>
    have hat := startAfter_le_endAfter b script k
    simp only [runFrom]
    split
    case _ t hcut =>
      -- The cancellation comes during the call.
      obtain ⟨hcancel, hbefore⟩ := cancelledBefore_eq_some.mp hcut
      exact .cancelled 0 t (Nat.succ_pos n) hreach hcancel (hspared t hcancel) (.inl hbefore)
    case _ hcut =>
      have hdone : Spared cancelAt (endAfter b script k) := cancelledBefore_eq_none.mp hcut
      split
      case _ a hok =>
        exact .connected 0 a (Nat.succ_pos n) hreach hok hdone
      case _ e he =>
        unfold afterFailure
        by_cases hlast : limit b = some (k + 1)
        case pos =>
          have hstop : ¬ b.mayFollow (k + 1) = true :=
            fun h => (mayFollow_iff hb hreach.allowed).mp h hlast
          rw [if_neg hstop]
          exact .gaveUp 0 e (Nat.succ_pos n) hreach hlast he hdone
        case neg =>
          rw [if_pos ((mayFollow_iff hb hreach.allowed).mpr hlast)]
          have hnext : Reaches b script (k + 1) := hreach.next he hlast
          dsimp only
          split
          case _ t hcut =>
            -- The cancellation comes during the wait.
            obtain ⟨hcancel, hbefore⟩ := cancelledBefore_eq_some.mp hcut
            exact .cancelled 0 t (Nat.succ_pos n) hreach hcancel
              (Nat.le_trans hat (hdone t hcancel)) (.inr ⟨hnext, hbefore⟩)
          case _ hcut =>
            exact (ih (k + 1) hnext (cancelledBefore_eq_none.mp hcut)).after

/-! ## What a search does -/

/-- What a search has done that has been followed for `n` calls. -/
structure Scheduled (b : Backoff) (script : Nat → Call α ε) (cancelAt : Option Nat) (n : Nat)
    (r : Run α ε) : Prop where
  calls_eq : r.calls = starts b script r.calls.length
  first_call : 0 < n → 0 < r.calls.length
  length_le : r.calls.length ≤ n ∧ ∀ m, limit b = some m → r.calls.length ≤ m
  pauses : ∀ k, startAfter b script (k + 1) = endAfter b script k + pause b (k + 1) ∧
    pause b (k + 1) ≤ b.maxDelay
  connected : ∀ k a, k < n → Reaches b script k → (script (k + 1)).result = .ok a →
    Spared cancelAt (endAfter b script k) →
    r.calls.length = k + 1 ∧ r.ended = some (.connected a, endAfter b script k)
  gaveUp : ∀ k e, k < n → Reaches b script k → limit b = some (k + 1) →
    (script (k + 1)).result = .error e → Spared cancelAt (endAfter b script k) →
    r.calls.length = k + 1 ∧ r.ended = some (.gaveUp e, endAfter b script k)
  cancelled : ∀ t, cancelAt = some t → t < startAfter b script n →
    (∀ k, Decides b script k → t < endAfter b script k) → r.ended = some (.cancelled, t)
  none_after : ∀ t, cancelAt = some t → ∀ s ∈ r.calls, s ≤ t
  ends : ∀ m, limit b = some m → m ≤ n → r.ended.isSome = true
  goes_on : r.ended = none → r.calls.length = n ∧ Reaches b script n ∧
    Spared cancelAt (startAfter b script n)

section

variable {b : Backoff} {script : Nat → Call α ε} {cancelAt : Option Nat} {n : Nat} {r : Run α ε}

theorem Reaches.zero (b : Backoff) (script : Nat → Call α ε) : Reaches b script 0 where
  failed j hj := absurd hj (Nat.not_lt_zero j)
  allowed m hm := by
    unfold limit at hm
    obtain ⟨k, -, rfl⟩ := Option.map_eq_some_iff.mp hm
    exact Nat.le_max_left 1 k

/-- No call follows the one that decides the search. -/
theorem Reaches.le_of_decides {j k : Nat} (h : Reaches b script j) (hk : Decides b script k) :
    j ≤ k := by
  apply Nat.le_of_not_lt
  intro hlt
  rcases hk.2 with ⟨a, ha⟩ | hlast
  · obtain ⟨e, he⟩ := h.failed k hlt
    rw [ha] at he
    contradiction
  · exact Nat.not_lt.mpr hlt (h.allowed _ hlast)

/-- A cancellation that ends the search comes before the end of the call that would decide it. -/
theorem lt_endAfter_of_decides {i k t : Nat} (hreach : Reaches b script i)
    (hend : t < endAfter b script i ∨
      Reaches b script (i + 1) ∧ t < startAfter b script (i + 1))
    (hk : Decides b script k) : t < endAfter b script k := by
  rcases hend with hcall | ⟨hnext, hwait⟩
  · have hle : endAfter b script i ≤ endAfter b script k := by
      rcases Nat.lt_or_eq_of_le (hreach.le_of_decides hk) with hik | rfl
      · exact Nat.le_trans (endAfter_le_startAfter b script hik) (startAfter_le_endAfter b script k)
      · exact Nat.le_refl _
    exact Nat.lt_of_lt_of_le hcall hle
  · have hle : startAfter b script (i + 1) ≤ startAfter b script k :=
      startAfter_mono b script (hnext.le_of_decides hk)
    exact Nat.lt_of_lt_of_le hwait (Nat.le_trans hle (startAfter_le_endAfter b script k))

theorem Follows.calls_eq (h : Follows b script cancelAt 0 n r) :
    r.calls = starts b script r.calls.length := by
  unfold starts
  cases h <;> simp only [List.length_map, List.length_range', List.range_eq_range']

theorem Follows.length_pos (h : Follows b script cancelAt 0 n r) (hn : 0 < n) :
    0 < r.calls.length := by
  cases h <;> simp only [List.length_map, List.length_range'] <;> omega

theorem Follows.length_le (h : Follows b script cancelAt 0 n r) : r.calls.length ≤ n := by
  cases h <;> simp only [List.length_map, List.length_range'] <;> omega

theorem Follows.length_le_limit (h : Follows b script cancelAt 0 n r) {m : Nat}
    (hm : limit b = some m) : r.calls.length ≤ m := by
  cases h with
  | connected i a hi hreach | gaveUp i e hi hreach | cancelled i t hi hreach
  | unfinished hreach =>
    have hlt := hreach.allowed m hm
    simp only [List.length_map, List.length_range']
    omega

/-- What becomes of a search that is not cancelled before the end of the call that decides it. -/
theorem Follows.ended_eq (h : Follows b script cancelAt 0 n r) {k : Nat} (hk : Decides b script k)
    (hkn : k < n) (hspared : Spared cancelAt (endAfter b script k)) :
    r.calls.length = k + 1 ∧
      ((∃ a, (script (k + 1)).result = .ok a ∧
          r.ended = some (.connected a, endAfter b script k)) ∨
        ∃ e, (script (k + 1)).result = .error e ∧
          r.ended = some (.gaveUp e, endAfter b script k)) := by
  -- The call that the run ends with is the one that decides the search.
  have hsame : ∀ i, Decides b script i → i = k := fun i hi =>
    Nat.le_antisymm (hi.1.le_of_decides hk) (hk.1.le_of_decides hi)
  cases h with
  | connected i a hi hreach hok _ =>
    rw [Nat.zero_add] at hreach hok ⊢
    obtain rfl := hsame i ⟨hreach, .inl ⟨a, hok⟩⟩
    exact ⟨by rw [List.length_map, List.length_range'], .inl ⟨a, hok, rfl⟩⟩
  | gaveUp i e hi hreach hlast he _ =>
    rw [Nat.zero_add] at hreach hlast he ⊢
    obtain rfl := hsame i ⟨hreach, .inr hlast⟩
    exact ⟨by rw [List.length_map, List.length_range'], .inr ⟨e, he, rfl⟩⟩
  | cancelled i t hi hreach hcancel hstart hend =>
    have hlt := lt_endAfter_of_decides hreach hend hk
    exact absurd (hspared t hcancel) (Nat.not_le.mpr hlt)
  | unfinished hreach _ =>
    rw [Nat.zero_add] at hreach
    exact absurd hkn (Nat.not_lt.mpr (hreach.le_of_decides hk))

theorem Follows.ended_eq_cancelled (h : Follows b script cancelAt 0 n r) {t : Nat}
    (hcancel : cancelAt = some t) (hbefore : t < startAfter b script n)
    (hundecided : ∀ k, Decides b script k → t < endAfter b script k) :
    r.ended = some (.cancelled, t) := by
  cases h with
  | connected i a hi hreach hok hspared =>
    have hlt := hundecided (0 + i) ⟨hreach, .inl ⟨a, hok⟩⟩
    exact absurd (hspared t hcancel) (Nat.not_le.mpr hlt)
  | gaveUp i e hi hreach hlast he hspared =>
    have hlt := hundecided (0 + i) ⟨hreach, .inr hlast⟩
    exact absurd (hspared t hcancel) (Nat.not_le.mpr hlt)
  | cancelled i t' hi hreach hcancel' _ _ =>
    rw [hcancel] at hcancel'
    rw [Option.some.inj hcancel']
  | unfinished hreach hspared =>
    rw [Nat.zero_add] at hspared
    exact absurd (hspared t hcancel) (Nat.not_le.mpr hbefore)

theorem Follows.calls_le (h : Follows b script cancelAt 0 n r) {t : Nat}
    (hcancel : cancelAt = some t) {s : Nat} (hs : s ∈ r.calls) : s ≤ t := by
  -- The last call has started by then, and the others before it.
  have hlast : ∀ k, startAfter b script k ≤ t → r.calls.length ≤ k + 1 → s ≤ t := by
    intro k hk hlen
    rw [h.calls_eq, starts, List.mem_map] at hs
    obtain ⟨j, hj, rfl⟩ := hs
    have hjk : j ≤ k := by
      have hlt := List.mem_range.mp hj
      omega
    exact Nat.le_trans (startAfter_mono b script hjk) hk
  cases h with
  | connected i a hi hreach hok hspared | gaveUp i e hi hreach hlast he hspared =>
    apply hlast (0 + i) (Nat.le_trans (startAfter_le_endAfter b script _) (hspared t hcancel))
    simp only [List.length_map, List.length_range', Nat.zero_add, Nat.le_refl]
  | cancelled i t' hi hreach hcancel' hstart _ =>
    rw [hcancel] at hcancel'
    obtain rfl := Option.some.inj hcancel'
    apply hlast (0 + i) hstart
    simp only [List.length_map, List.length_range', Nat.zero_add, Nat.le_refl]
  | unfinished hreach hspared =>
    apply hlast (0 + n) (hspared t hcancel)
    rw [List.length_map, List.length_range', Nat.zero_add]
    exact Nat.le_succ n

theorem Follows.unfinished_of_ended_eq_none (h : Follows b script cancelAt 0 n r)
    (hr : r.ended = none) :
    r.calls.length = n ∧ Reaches b script n ∧ Spared cancelAt (startAfter b script n) := by
  cases h with
  | connected | gaveUp | cancelled => contradiction
  | unfinished hreach hspared =>
    rw [Nat.zero_add] at hreach hspared
    exact ⟨by rw [List.length_map, List.length_range'], hreach, hspared⟩

end

/-- A search keeps to its schedule, whatever its calls do and whenever it is cancelled. -/
theorem scheduled_run {b : Backoff} (hb : Counts b) (script : Nat → Call α ε)
    (cancelAt : Option Nat) (n : Nat) :
    Scheduled b script cancelAt n (run b script cancelAt n) := by
  have h : Follows b script cancelAt 0 n (run b script cancelAt n) :=
    follows_runFrom hb script cancelAt n 0 (Reaches.zero b script)
      (fun t _ => Nat.zero_le t)
  exact
    { calls_eq := h.calls_eq
      first_call := h.length_pos
      length_le := ⟨h.length_le, fun _ hm => h.length_le_limit hm⟩
      pauses := fun k => ⟨rfl, pause_le b (k + 1)⟩
      connected := by
        intro k a hkn hreach hok hspared
        obtain ⟨hlen, ⟨a', hok', hended⟩ | ⟨e, he, -⟩⟩ :=
          h.ended_eq ⟨hreach, .inl ⟨a, hok⟩⟩ hkn hspared
        · rw [hok] at hok'
          cases hok'
          exact ⟨hlen, hended⟩
        · rw [hok] at he
          contradiction
      gaveUp := by
        intro k e hkn hreach hlast he hspared
        obtain ⟨hlen, ⟨a, hok, -⟩ | ⟨e', he', hended⟩⟩ :=
          h.ended_eq ⟨hreach, .inr hlast⟩ hkn hspared
        · rw [he] at hok
          contradiction
        · rw [he] at he'
          cases he'
          exact ⟨hlen, hended⟩
      cancelled := fun _ => h.ended_eq_cancelled
      none_after := fun _ hcancel _ => h.calls_le hcancel
      ends := by
        intro m hm hmn
        rw [Option.isSome_iff_ne_none]
        intro hr
        obtain ⟨-, hreach, -⟩ := h.unfinished_of_ended_eq_none hr
        exact Nat.not_lt.mpr hmn (hreach.allowed m hm)
      goes_on := h.unfinished_of_ended_eq_none }

/-- Two calls that fail, with a wait that is cut short by the cancellation. -/
theorem scheduled_run_twice :
    let b : Backoff := ⟨100, 250, 2.0, some 5⟩
    let script : Nat → Call Unit String := fun _ => ⟨10, .error "refused"⟩
    Counts b ∧ Scheduled b script (some 300) 5 (run b script (some 300) 5) ∧
      run b script (some 300) 5 = ⟨[0, 110], some (.cancelled, 300)⟩ := by
  intro b script
  have hb : Counts b := by
    intro m hm
    cases hm
    decide
  exact ⟨hb, scheduled_run hb script (some 300) 5, by decide +kernel⟩

/-- The wait is not always as long as the backoff says. -/
theorem not_forall_waits_delayAfter :
    ¬ ∀ (b : Backoff) (script : Nat → Call Unit String) (n k s s' : Nat), Counts b →
      (run b script none n).calls[k]? = some s → (run b script none n).calls[k + 1]? = some s' →
        s' = s + (script (k + 1)).takes + b.delayAfter (k + 1) := by
  intro h
  let b : Backoff := ⟨1000000000000, 1000000000000, 1.0, some 3⟩
  let script : Nat → Call Unit String := fun _ => ⟨0, .error "refused"⟩
  have hb : Counts b := by
    intro m hm
    cases hm
    decide
  have hcalls : (run b script none 2).calls = [0, Clock.longestWait] := by decide +kernel
  have hwait := h b script 2 0 0 Clock.longestWait hb (by rw [hcalls]; rfl) (by rw [hcalls]; rfl)
  exact absurd hwait (by decide +kernel)

end EvictionBus.Search
