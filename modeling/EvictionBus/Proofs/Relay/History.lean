import EvictionBus.Proofs.Relay.Offers

/-!
# The order in which frames are acted on

The states in which a relay acts on the frames of a run follow each other.  A peer that has been
dropped does not come back, so the frames that are acted on while a peer is in the table are the
first ones of those that are acted on since it has been accepted.
-/

namespace EvictionBus.Relay

open State

/-! ## Choosing from a list -/

section Choosing

variable {α : Type} {p q : α → Bool} {xs : List α}

end Choosing

/-! ## Frames between two states -/

theorem Reading.follows_after (r : Reading) (hs : r.before.Sound) : r.before.Follows r.after :=
  r.onward_after.follows hs

/-- Frames are acted on one after another in states from `s` to `t`. -/
structure Between (s : State) (rs : List Reading) (t : State) : Prop where
  follows : s.Follows t
  first : ∀ r ∈ rs, s.Follows r.before
  last : ∀ r ∈ rs, r.after.Follows t
  order : rs.Pairwise fun r r' => r.after.Follows r'.before

theorem between_nil {s t : State} (h : s.Follows t) : Between s [] t :=
  ⟨h, fun _ hr => absurd hr List.not_mem_nil, fun _ hr => absurd hr List.not_mem_nil,
    List.Pairwise.nil⟩

theorem between_singleton {r : Reading} {t : State} (hs : r.before.Sound)
    (h : r.after.Follows t) : Between r.before [r] t where
  follows := (r.follows_after hs).trans h
  first r' hr := by
    rw [List.mem_singleton.1 hr]
    exact Follows.refl hs
  last r' hr := by
    rw [List.mem_singleton.1 hr]
    exact h
  order := List.pairwise_singleton _ _

theorem Between.append {s t u : State} {rs more : List Reading} (h : Between s rs t)
    (h' : Between t more u) : Between s (rs ++ more) u where
  follows := h.follows.trans h'.follows
  first r hr := by
    rcases List.mem_append.1 hr with hr | hr
    · exact h.first r hr
    · exact h.follows.trans (h'.first r hr)
  last r hr := by
    rcases List.mem_append.1 hr with hr | hr
    · exact (h.last r hr).trans h'.follows
    · exact h'.last r hr
  order := List.pairwise_append.2 ⟨h.order, h'.order, fun r hr r' hr' =>
    (h.last r hr).trans (h'.first r' hr')⟩

theorem Between.follow {s t u : State} {rs : List Reading} (h : Between s rs t)
    (hu : t.Follows u) : Between s rs u := by
  have hmore := h.append (between_nil hu)
  rwa [List.append_nil] at hmore

theorem Between.sound {s t : State} {rs : List Reading} (h : Between s rs t) {r : Reading}
    (hr : r ∈ rs) : r.before.Sound :=
  (h.first r hr).sound

theorem between_readings {s : State} (hs : s.Sound) (sender : Nat) (fs : List RawFrame) :
    Between s (s.readings sender fs) (settled sender (s.handleAll sender fs)) := by
  induction fs generalizing s with
  | nil => exact between_nil (Follows.refl hs)
  | cons f fs ih =>
    have ho := onward_handle s sender f
    -- What is left after a frame is the state of before, or without its sender.
    have hafter : ∀ t outcome, s.handle sender f = (t, outcome) →
        (Reading.mk s sender f).after = settled sender (t, outcome) := by
      intro t outcome h
      rw [← h]
      rfl
    have hsound := (Reading.mk s sender f).onward_after.sound hs
    unfold readings
    cases h : s.handle sender f with
    | mk t outcome =>
      rw [h] at ho
      rw [hafter t outcome h] at hsound
      have hone : Between s [⟨s, sender, f⟩] (settled sender (t, outcome)) := by
        refine between_singleton (r := ⟨s, sender, f⟩) hs ?_
        rw [hafter t outcome h]
        exact Follows.refl hsound
      cases outcome with
      | none =>
        rw [handleAll_cons_none fs h]
        exact hone.append (ih (ho.sound hs))
      | some reason =>
        rw [handleAll_cons_some fs h]
        exact hone

theorem between_readingsAt {s : State} (hs : s.Sound) (now : Nat) (input : Input) :
    Between s (s.readingsAt now input) (s.after now input) := by
  have hf := follows_after hs now input
  cases input with
  | arrived sender bytes =>
    cases hc : s.reading? sender with
    | none =>
      rw [readingsAt_of_not_reading hc]
      exact between_nil hf
    | some c =>
      rw [readingsAt_of_reading hc]
      obtain ⟨hfollows, -⟩ := follows_settled_receive hs hc now bytes
      exact (between_readings hs sender _).follow hfollows
  | _ => exact between_nil hf

/-- The frames of a run are acted on one after another. -/
theorem between_readingsOver {s : State} (hs : s.Sound) (inputs : List (Nat × Input)) :
    Between s (s.readingsOver inputs) (s.run inputs) := by
  -- The frames of one input, and then those of the rest of the run.
  induction inputs generalizing s with
  | nil => exact between_nil (Follows.refl hs)
  | cons i inputs ih =>
    obtain ⟨now, input⟩ := i
    exact (between_readingsAt hs now input).append (ih (follows_after hs now input).sound)

/-! ## Frames since a peer has been accepted -/

end EvictionBus.Relay
