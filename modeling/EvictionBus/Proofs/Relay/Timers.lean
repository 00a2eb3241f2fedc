import EvictionBus.Proofs.Relay.Clocks

/-!
# Timers that go off on time

When and why a run drops a peer, and the runs in which the timer of a peer goes off as soon as a
payload of it is due.
-/

namespace EvictionBus.Relay

namespace State

variable {s : State} {key last d : Nat} {pre post schedule inputs : List (Nat × Input)}

/-! ## When a peer is dropped -/

/-- Why an input drops a peer, if it does, and when. -/
def dropsAt (s : State) (key now : Nat) (input : Input) : List (Nat × Disconnect) :=
  (((s.after now input).reasons key).drop (s.reasons key).length).map (now, ·)

/-- Why a peer is dropped in a run, and when. -/
def dropsOver (s : State) (key : Nat) : List (Nat × Input) → List (Nat × Disconnect)
  | [] => []
  | (now, input) :: inputs =>
    s.dropsAt key now input ++ (s.after now input).dropsOver key inputs

theorem dropsAt_of_same {now : Nat} {input : Input}
    (h : (s.after now input).reasons key = s.reasons key) : s.dropsAt key now input = [] := by
  rw [dropsAt, h, List.drop_length]
  rfl

theorem dropsAt_of_reason {now : Nat} {input : Input} {reason : Disconnect}
    (h : (s.after now input).reasons key = s.reasons key ++ [reason]) :
    s.dropsAt key now input = [(now, reason)] := by
  rw [dropsAt, h, List.drop_left]
  rfl

theorem dropsOver_append (s : State) (key : Nat) (first second : List (Nat × Input)) :
    s.dropsOver key (first ++ second) =
      s.dropsOver key first ++ (s.run first).dropsOver key second := by
  induction first generalizing s with
  | nil => rfl
  | cons i first ih =>
    obtain ⟨now, input⟩ := i
    show s.dropsAt key now input ++ (s.after now input).dropsOver key (first ++ second) = _
    rw [ih, ← List.append_assoc]
    rfl

theorem exists_input_of_mem_dropsOver {now : Nat} {reason : Disconnect}
    (h : (now, reason) ∈ s.dropsOver key inputs) : ∃ input, (now, input) ∈ inputs := by
  induction inputs generalizing s with
  | nil => cases h
  | cons i inputs ih =>
    obtain ⟨time, input⟩ := i
    rcases List.mem_append.1 h with h | h
    · obtain ⟨_, -, heq⟩ := List.mem_map.1 h
      cases heq
      exact ⟨input, List.mem_cons_self⟩
    · obtain ⟨later, hin⟩ := ih h
      exact ⟨later, List.mem_cons_of_mem _ hin⟩

theorem Gone.dropsOver_eq_nil (h : s.Gone key) (hs : s.Sound) (inputs : List (Nat × Input)) :
    s.dropsOver key inputs = [] := by
  induction inputs generalizing s with
  | nil => rfl
  | cons i inputs ih =>
    obtain ⟨now, input⟩ := i
    have hf := follows_after hs now input
    have hsame := (parting_after s now input (.inl h.key_le)).reasons_of_not_member h.not_member
    rw [dropsOver, dropsAt_of_same hsame, ih (h.follows hf) hf.sound]
    rfl

/-- What a run does to a peer that is in the table: it stays, or one input drops it. -/
inductive Course (s : State) (key : Nat) (inputs : List (Nat × Input)) : Prop where
  | stays (member : (s.run inputs).peers.contains key = true)
      (drops_eq : s.dropsOver key inputs = [])
  | dropped (pre post : List (Nat × Input)) {now : Nat} {input : Input} {reason : Disconnect}
      (split : inputs = pre ++ (now, input) :: post)
      (member : (s.run pre).peers.contains key = true)
      (cause : Cause (s.run pre) now key input reason) (gone : (s.run inputs).Gone key)
      (drops_eq : s.dropsOver key inputs = [(now, reason)])
      (reasons_eq : (s.run inputs).reasons key = s.reasons key ++ [reason])

theorem course_run (hs : s.Sound) (hm : s.peers.contains key = true)
    (inputs : List (Nat × Input)) : s.Course key inputs := by
  induction inputs generalizing s with
  | nil => exact .stays hm rfl
  | cons i inputs ih =>
    obtain ⟨now, input⟩ := i
    have hf := follows_after hs now input
    obtain ⟨c, hc⟩ := hs.member_connected hm
    have hkey := hs.key_le hc
    cases parting_cause s now input (.inl hkey) with
    | stays hmember hreasons =>
      have hnone : s.dropsOver key ((now, input) :: inputs) =
          (s.after now input).dropsOver key inputs := by
        rw [dropsOver, dropsAt_of_same hreasons]
        rfl
      cases ih hf.sound (hmember.trans hm) with
      | stays hlast hdrops => exact .stays hlast (hnone.trans hdrops)
      | dropped pre post hsplit hlast hcause hgone hdrops hreason =>
        rw [hreasons] at hreason
        exact .dropped ((now, input) :: pre) post (congrArg _ hsplit) hlast hcause hgone
          (hnone.trans hdrops) hreason
    | @dropped reason hcause _ hafter hreasons =>
      -- Nobody is dropped twice.
      have hgone : (s.after now input).Gone key := ⟨Nat.le_trans hkey hf.lastKey_le, hafter⟩
      refine .dropped [] inputs rfl hm hcause (hgone.follows (follows_run hf.sound inputs))
        ?_ ((hgone.reasons_run hf.sound inputs).trans hreasons)
      rw [dropsOver, dropsAt_of_reason hreasons, hgone.dropsOver_eq_nil hf.sound]
      rfl

theorem dropsOver_of_member (hs : s.Sound) (hm : s.peers.contains key = true)
    (hlast : (s.run inputs).peers.contains key = true) : s.dropsOver key inputs = [] := by
  cases course_run hs hm inputs with
  | stays _ hdrops => exact hdrops
  | dropped pre post _ _ _ hgone =>
    rw [hgone.not_member] at hlast
    cases hlast

theorem gone_after_late (hs : s.Sound) (hm : s.peers.contains key = true) {reason : Disconnect}
    (hlate : s.late? d key = some reason) : (s.after d (.timer key)).Gone key := by
  have hafter : s.after d (.timer key) = s.disconnect key reason := checkDeadline_of_late hlate
  obtain ⟨c, hc⟩ := hs.member_connected hm
  refine ⟨Nat.le_trans (hs.key_le hc) (follows_after hs d (.timer key)).lastKey_le, ?_⟩
  rw [hafter]
  exact disconnect_not_member ..

/-- A timer that goes off late is what drops the peer. -/
theorem dropsOver_of_late (hs : s.Sound) (hm : s.peers.contains key = true)
    (hlast : (s.run pre).peers.contains key = true) {reason : Disconnect}
    (hlate : (s.run pre).late? d key = some reason) (post : List (Nat × Input)) :
    s.dropsOver key (pre ++ (d, .timer key) :: post) = [(d, reason)] := by
  have hpre := (follows_run hs pre).sound
  have hafter : (s.run pre).after d (.timer key) = (s.run pre).disconnect key reason :=
    checkDeadline_of_late hlate
  have hreasons := reasons_disconnect (s.run pre) key key reason
  rw [if_pos ⟨rfl, hlast⟩, ← hafter] at hreasons
  have hgone := gone_after_late hpre hlast hlate
  rw [dropsOver_append, dropsOver_of_member hs hm hlast, dropsOver, dropsAt_of_reason hreasons,
    hgone.dropsOver_eq_nil (follows_after hpre d (.timer key)).sound]
  rfl

/-! ## Timers that go off on time -/

/-- The deadline of a peer, if it is before a time. -/
def dueBefore? (s : State) (key limit : Nat) : Option Nat :=
  (s.deadline? key).filter (· < limit)

/-- The run that a schedule leads to, up to a time: the timer of a peer goes off when a payload of it
is due, behind everything that happens at that very time. -/
def onTime (s : State) (key last : Nat) : List (Nat × Input) → List (Nat × Input)
  | [] =>
    match s.dueBefore? key (last + 1) with
    | some d => [(d, .timer key)]
    | none => []
  | (now, input) :: schedule =>
    match s.dueBefore? key now with
    -- The peer is dropped, and no payload of it is due any more.
    | some d => (d, .timer key) :: (now, input) :: schedule
    | none => (now, input) :: (s.after now input).onTime key last schedule

/-- Nothing happens later than a payload of the peer is due. -/
def InTime (s : State) (key : Nat) : List (Nat × Input) → Prop
  | [] => True
  | (now, input) :: inputs =>
    (∀ d, s.deadline? key = some d → now ≤ d) ∧ (s.after now input).InTime key inputs

theorem InTime.le_deadline {i : Nat × Input} (h : s.InTime key (pre ++ i :: post))
    (hd : (s.run pre).deadline? key = some d) : i.1 ≤ d := by
  induction pre generalizing s with
  | nil => exact h.1 d hd
  | cons _ pre ih => exact ih h.2 hd

/-- A schedule tells what happens in the order of its times. -/
def InOrder (schedule : List (Nat × Input)) : Prop :=
  schedule.Pairwise fun i j => i.1 ≤ j.1

theorem InOrder.left (h : InOrder (pre ++ post)) : InOrder pre :=
  (List.pairwise_append.1 h).1

/-- What happens up to a time comes before everything else. -/
theorem InOrder.filter_append (h : InOrder schedule) (T : Nat) :
    schedule.filter (·.1 ≤ T) ++ schedule.filter (T < ·.1) = schedule := by
  induction schedule with
  | nil => rfl
  | cons i schedule ih =>
    obtain ⟨hle, horder⟩ := List.pairwise_cons.1 h
    by_cases hi : i.1 ≤ T
    · have hnot : ¬ decide (T < i.1) = true := fun h => Nat.not_lt.2 hi (of_decide_eq_true h)
      rw [List.filter_cons, List.filter_cons, if_pos (decide_eq_true hi), if_neg hnot,
        List.cons_append, ih horder]
    · have hnone : schedule.filter (·.1 ≤ T) = [] := by
        rw [List.filter_eq_nil_iff]
        intro j hj hjT
        exact hi (Nat.le_trans (hle j hj) (of_decide_eq_true hjT))
      have hall : schedule.filter (T < ·.1) = schedule := by
        rw [List.filter_eq_self]
        intro j hj
        exact decide_eq_true (Nat.lt_of_lt_of_le (Nat.not_le.1 hi) (hle j hj))
      have hnot : ¬ decide (i.1 ≤ T) = true := fun h => hi (of_decide_eq_true h)
      rw [List.filter_cons, List.filter_cons, if_neg hnot,
        if_pos (decide_eq_true (Nat.not_le.1 hi)), hnone, hall]
      rfl

theorem filter_append_of_lt {T : Nat} (hpost : ∀ i ∈ post, T < i.1) :
    (pre ++ post).filter (·.1 ≤ T) = pre.filter (·.1 ≤ T) := by
  have hnone : post.filter (·.1 ≤ T) = [] := by
    rw [List.filter_eq_nil_iff]
    intro i hi hle
    exact Nat.not_le.2 (hpost i hi) (of_decide_eq_true hle)
  rw [List.filter_append, hnone, List.append_nil]

theorem InOrder.mem_dropsOver_filter (h : InOrder inputs) {T now : Nat} {reason : Disconnect}
    (hdrop : (now, reason) ∈ s.dropsOver key (inputs.filter (·.1 ≤ T))) :
    (now, reason) ∈ s.dropsOver key inputs ∧ now ≤ T := by
  constructor
  · rw [← h.filter_append T, dropsOver_append]
    exact List.mem_append_left _ hdrop
  · obtain ⟨input, hin⟩ := exists_input_of_mem_dropsOver hdrop
    exact of_decide_eq_true (List.mem_filter.1 hin).2

/-- In time, nothing is behind a deadline that is still pending at its time. -/
theorem InTime.filter_eq_self (h : s.InTime key inputs) (horder : InOrder inputs) {T : Nat}
    (hd : (s.run (inputs.filter (·.1 ≤ T))).deadline? key = some T) :
    inputs.filter (·.1 ≤ T) = inputs := by
  have hsplit := horder.filter_append T
  cases hhigh : inputs.filter (T < ·.1) with
  | nil =>
    rw [hhigh, List.append_nil] at hsplit
    exact hsplit
  | cons i high =>
    rw [hhigh] at hsplit
    rw [← hsplit] at h
    have hle := h.le_deadline hd
    have hlt : i ∈ inputs.filter (T < ·.1) := by
      rw [hhigh]
      exact List.mem_cons_self
    exact absurd hle (Nat.not_le.2 (of_decide_eq_true (List.mem_filter.1 hlt).2))

/-- No deadline is behind what has happened in time. -/
theorem InTime.all_le_deadline (h : s.InTime key inputs) (hs : s.Sound) (hkey : key ≤ s.lastKey)
    (horder : InOrder inputs) (hd : (s.run inputs).deadline? key = some d) :
    ∀ i ∈ inputs, i.1 ≤ d := by
  induction inputs generalizing s with
  | nil => exact fun _ hi => absurd hi List.not_mem_nil
  | cons i inputs ih =>
    obtain ⟨now, input⟩ := i
    obtain ⟨hfirst, hrest⟩ := h
    obtain ⟨hle, horder'⟩ := List.pairwise_cons.1 horder
    have hf := follows_after hs now input
    have hall := ih hrest hf.sound (Nat.le_trans hkey hf.lastKey_le) horder' hd
    refine List.forall_mem_cons.2 ⟨?_, hall⟩
    cases inputs with
    | nil => exact (deadline?_after hs hkey hd).elim (hfirst d) id
    | cons j _ => exact Nat.le_trans (hle j List.mem_cons_self) (hall j List.mem_cons_self)

theorem dueBefore?_eq_some {limit : Nat} :
    s.dueBefore? key limit = some d ↔ s.deadline? key = some d ∧ d < limit := by
  rw [dueBefore?, Option.filter_eq_some_iff, decide_eq_true_eq]

theorem le_of_dueBefore?_eq_none {limit : Nat} (h : s.dueBefore? key limit = none)
    (hd : s.deadline? key = some d) : limit ≤ d := by
  by_contra hlt
  rw [dueBefore?_eq_some.2 ⟨hd, Nat.not_le.1 hlt⟩] at h
  cases h

/-- The timer of a peer does not go off in a schedule, or it goes off once. -/
inductive Timing (s : State) (key last : Nat) (schedule : List (Nat × Input)) : Prop where
  | quiet (run_eq : s.onTime key last schedule = schedule) (inTime : s.InTime key schedule)
      (later : ∀ d, (s.run schedule).deadline? key = some d → last < d)
  | fired (pre post : List (Nat × Input)) (d : Nat) (split : schedule = pre ++ post)
      (run_eq : s.onTime key last schedule = pre ++ (d, .timer key) :: post)
      (inTime : s.InTime key pre) (deadline : (s.run pre).deadline? key = some d)
      (le : d ≤ last) (before : ∀ i ∈ post, d < i.1)

theorem timing_onTime (s : State) (key : Nat) (horder : InOrder schedule)
    (hlast : ∀ i ∈ schedule, i.1 ≤ last) : s.Timing key last schedule := by
  induction schedule generalizing s with
  | nil =>
    cases hdue : s.dueBefore? key (last + 1) with
    | none =>
      refine .quiet ?_ trivial fun d hd => le_of_dueBefore?_eq_none hdue hd
      simp only [onTime, hdue]
    | some d =>
      obtain ⟨hd, hlt⟩ := dueBefore?_eq_some.1 hdue
      refine .fired [] [] d rfl ?_ trivial hd (Nat.le_of_lt_succ hlt)
        fun i hi => absurd hi List.not_mem_nil
      simp only [onTime, hdue, List.nil_append]
  | cons i schedule ih =>
    obtain ⟨now, input⟩ := i
    obtain ⟨hle, horder'⟩ := List.pairwise_cons.1 horder
    obtain ⟨hnow, hlast'⟩ := List.forall_mem_cons.1 hlast
    cases hdue : s.dueBefore? key now with
    | some d =>
      obtain ⟨hd, hlt⟩ := dueBefore?_eq_some.1 hdue
      refine .fired [] _ d rfl ?_ trivial hd (Nat.le_of_lt (Nat.lt_of_lt_of_le hlt hnow))
        (List.forall_mem_cons.2 ⟨hlt, fun j hj => Nat.lt_of_lt_of_le hlt (hle j hj)⟩)
      simp only [onTime, hdue, List.nil_append]
    | none =>
      have hfirst : ∀ d, s.deadline? key = some d → now ≤ d :=
        fun d hd => le_of_dueBefore?_eq_none hdue hd
      have hcons : s.onTime key last ((now, input) :: schedule) =
          (now, input) :: (s.after now input).onTime key last schedule := by
        simp only [onTime, hdue]
      cases ih (s.after now input) horder' hlast' with
      | quiet hrun htime hlater => exact .quiet (hcons.trans (congrArg _ hrun)) ⟨hfirst, htime⟩ hlater
      | fired pre post d hsplit hrun htime hd hle' hbefore =>
        exact .fired ((now, input) :: pre) post d (congrArg _ hsplit)
          (hcons.trans (congrArg _ hrun)) ⟨hfirst, htime⟩ hd hle' hbefore

end State

end EvictionBus.Relay
