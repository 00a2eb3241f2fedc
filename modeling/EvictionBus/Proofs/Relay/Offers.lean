import EvictionBus.Proofs.Relay.Runs

/-!
# What peers are offered and take

In a run a peer is offered frames one after another.  It takes them all, up to the one for which it
is dropped; after that it is offered nothing.
-/

namespace EvictionBus.Relay

open State

/-! ## The frames that are acted on -/

/-- What holds of every frame that is acted on: it is whole and within the limit, and the peer that
has sent it is in the table of a relay with the settings of before. -/
structure Reading.Sound (s : State) (r : Reading) : Prop where
  config_eq : r.before.config = s.config
  identity_eq : r.before.identity = s.identity
  before_sound : r.before.Sound
  member : r.before.peers.contains r.sender = true
  frame_sound : r.frame.Sound s.readRules

theorem readings_sound {s : State} {sender : Nat} {fs : List RawFrame} (hs : s.Sound)
    (hm : s.peers.contains sender = true) (hfs : ∀ f ∈ fs, f.Sound s.readRules) :
    ∀ r ∈ s.readings sender fs, r.sender = sender ∧ r.Sound s := by
  -- By induction on the frames, each one handled in the state that the one before leaves.
  induction fs generalizing s with
  | nil =>
    intro r hr
    cases hr
  | cons f fs ih =>
    intro r hr
    have ho := onward_handle s sender f
    have hkeep := handle_keeps_sender (f := f) hm
    unfold readings at hr
    rcases List.mem_cons.1 hr with rfl | hr
    · exact ⟨rfl, rfl, rfl, hs, hm, hfs f List.mem_cons_self⟩
    · cases h : s.handle sender f with
      | mk t outcome =>
        rw [h] at hr ho hkeep
        cases outcome with
        | some reason => cases hr
        | none =>
          have hfs' : ∀ g ∈ fs, g.Sound t.readRules := by
            intro g hg
            rw [ho.readRules_eq]
            exact hfs g (List.mem_cons_of_mem _ hg)
          obtain ⟨hsender, hr'⟩ := ih (ho.sound hs) (hkeep rfl) hfs' r hr
          refine ⟨hsender, hr'.config_eq.trans ho.config_eq, hr'.identity_eq.trans ho.identity_eq,
            hr'.before_sound, hr'.member, ?_⟩
          rw [← ho.readRules_eq]
          exact hr'.frame_sound

/-- The frames that are acted on are the first ones of those that have been completed, and all of
them unless the peer is to be dropped. -/
theorem map_frame_readings (s : State) (sender : Nat) (fs : List RawFrame) :
    (s.readings sender fs).map Reading.frame <+: fs ∧
      ((s.handleAll sender fs).2 = none → (s.readings sender fs).map Reading.frame = fs) := by
  -- A frame for which the sender is to be dropped is the last one acted on.
  induction fs generalizing s with
  | nil => exact ⟨List.prefix_refl _, fun _ => rfl⟩
  | cons f fs ih =>
    unfold readings
    cases h : s.handle sender f with
    | mk t outcome =>
      cases outcome with
      | none =>
        rw [handleAll_cons_none fs h]
        obtain ⟨hpre, hall⟩ := ih t
        constructor
        · exact List.cons_prefix_cons.2 ⟨rfl, hpre⟩
        · intro hnone
          exact congrArg (f :: ·) (hall hnone)
      | some reason =>
        rw [handleAll_cons_some fs h]
        constructor
        · exact List.cons_prefix_cons.2 ⟨rfl, List.nil_prefix⟩
        · intro hnone
          cases hnone

/-! ## Offers of the frames that are acted on -/

/-- Of what is offered to a peer at most the last is refused, and then the peer is dropped. -/
def Refused (rs : List Reading) (key : Nat) (t : State) : Prop :=
  ∃ refused, rs.filterMap (·.offer? key) = rs.filterMap (·.accepted? key) ++ refused ∧
    refused.length ≤ 1 ∧ (refused ≠ [] → t.Gone key)

theorem refused_nil (key : Nat) (t : State) : Refused [] key t :=
  ⟨[], rfl, Nat.zero_le _, fun h => absurd rfl h⟩

theorem refused_of_no_offer {rs : List Reading} {key : Nat} (t : State)
    (h : rs.filterMap (·.offer? key) = []) : Refused rs key t := by
  have ha : rs.filterMap (·.accepted? key) = [] := by
    rw [List.filterMap_eq_nil_iff] at h ⊢
    intro r hr
    unfold Reading.accepted?
    rw [h r hr, ite_self]
  exact ⟨[], by rw [h, ha]; rfl, Nat.zero_le _, fun h => absurd rfl h⟩

theorem Refused.append {rs more : List Reading} {key : Nat} {t u : State}
    (h : Refused rs key t) (h' : Refused more key u)
    (hgone : t.Gone key → more.filterMap (·.offer? key) = [] ∧ u.Gone key) :
    Refused (rs ++ more) key u := by
  obtain ⟨refused, heq, hlen, hdrop⟩ := h
  -- Either all has been taken so far, or the peer is gone and is offered nothing more.
  by_cases hr : refused = []
  · subst hr
    obtain ⟨refused', heq', hlen', hdrop'⟩ := h'
    refine ⟨refused', ?_, hlen', hdrop'⟩
    rw [List.filterMap_append, List.filterMap_append, heq, heq', List.append_nil,
      List.append_assoc]
  · obtain ⟨hmore, hu⟩ := hgone (hdrop hr)
    refine ⟨refused, ?_, hlen, fun _ => hu⟩
    obtain ⟨later, heq', -, -⟩ := refused_of_no_offer u hmore
    rw [hmore] at heq'
    have hnone := (List.append_eq_nil_iff.1 heq'.symm).1
    rw [List.filterMap_append, List.filterMap_append, heq, hmore, hnone, List.append_nil,
      List.append_nil]

/-- A peer that does not take what it is offered is dropped for good. -/
theorem Reading.Answered.gone {r : Reading} {t : State} {key : Nat} (h : r.Answered t key)
    (hs : r.before.Sound) (hkey : r.before.lastKey ≤ t.lastKey) (hr : r.refuses key = true) :
    t.Gone key := by
  obtain ⟨o, ho⟩ := Option.isSome_iff_exists.1 (Bool.and_eq_true_iff.1 hr).1
  -- A peer that is offered something is connected, so that its key has been given out.
  obtain ⟨c, hc⟩ := hs.member_connected (member_of_offer? ho)
  refine ⟨Nat.le_trans (hs.key_le hc) hkey, ?_⟩
  rw [h.member_eq, hr, Bool.not_true, Bool.and_false]

theorem refused_singleton {r : Reading} {t : State} {key : Nat} (hs : r.before.Sound)
    (hkey : r.before.lastKey ≤ t.lastKey) (h : r.Answered t key) : Refused [r] key t := by
  -- The peer is offered nothing, takes the frame, or is dropped for it.
  cases hoffer : r.offer? key with
  | none =>
    apply refused_of_no_offer
    simp [hoffer]
  | some o =>
    cases htakes : r.before.takes key with
    | true =>
      have haccepted := Reading.accepted?_eq_some.2 ⟨htakes, hoffer⟩
      exact ⟨[], by simp [hoffer, haccepted], Nat.zero_le _, fun h => absurd rfl h⟩
    | false =>
      have haccepted : r.accepted? key = none := by
        unfold Reading.accepted?
        rw [if_neg (by rw [htakes]; simp)]
      refine ⟨[o], by simp [hoffer, haccepted], Nat.le_refl _, fun _ => ?_⟩
      exact h.gone hs hkey (by simp [Reading.refuses, hoffer, htakes])

/-! ## Frames that are acted on together -/

theorem State.Gone.offers_readings {s : State} {key : Nat} (h : s.Gone key) (sender : Nat)
    (fs : List RawFrame) : (s.readings sender fs).filterMap (·.offer? key) = [] := by
  induction fs generalizing s with
  | nil => rfl
  | cons f fs ih =>
    have ho := onward_handle s sender f
    have hnone := h.offer?_eq_none sender f
    unfold readings
    cases hf : s.handle sender f with
    | mk t outcome =>
      rw [hf] at ho
      cases outcome with
      | none => rw [List.filterMap_cons, hnone, ih (h.onward ho)]
      | some reason => rw [List.filterMap_cons, hnone, List.filterMap_nil]

theorem queue_handleAll {s : State} (hs : s.Sound) (sender : Nat) (fs : List RawFrame)
    (key : Nat) :
    (settled sender (s.handleAll sender fs)).waiting key =
        s.waiting key ++ ((s.readings sender fs).filterMap (·.accepted? key)).map Offer.item ∧
      Refused (s.readings sender fs) key (settled sender (s.handleAll sender fs)) := by
  -- By induction on the frames; each one adds what the peer takes, or ends the queue.
  induction fs generalizing s with
  | nil => exact ⟨(List.append_nil _).symm, refused_nil key s⟩
  | cons f fs ih =>
    have ho := onward_handle s sender f
    have hset := onward_settled sender ho
    have ha := answered_handle s sender f key
    have hfirst := refused_singleton hs (Nat.le_of_eq hset.lastKey_eq.symm) ha
    have hw := ha.waiting_eq
    unfold readings
    cases hf : s.handle sender f with
    | mk t outcome =>
      rw [hf] at ho hfirst hw
      cases outcome with
      | none =>
        rw [handleAll_cons_none fs hf]
        obtain ⟨hw', hrest⟩ := ih (ho.sound hs)
        constructor
        · change t.waiting key = _ at hw
          rw [hw', hw, List.filterMap_cons, List.append_assoc]
          cases (Reading.mk s sender f).accepted? key <;> rfl
        · apply hfirst.append hrest
          intro hgone
          have hall := onward_settled sender (onward_handleAll t sender fs)
          exact ⟨hgone.offers_readings sender fs, hgone.onward hall⟩
      | some reason =>
        rw [handleAll_cons_some fs hf]
        refine ⟨?_, hfirst⟩
        rw [hw, List.filterMap_cons]
        cases (Reading.mk s sender f).accepted? key <;> rfl

/-! ## One input -/

theorem readingsAt_of_other (s : State) (now : Nat) {input : Input}
    (h : ∀ key bytes, input ≠ .arrived key bytes) : s.readingsAt now input = [] := by
  cases input with
  | arrived key bytes => exact absurd rfl (h key bytes)
  | _ => rfl

theorem readingsAt_of_reading {s : State} {sender : Nat} {c : Connection}
    (hc : s.reading? sender = some c) (now : Nat) (bytes : Bytes) :
    s.readingsAt now (.arrived sender bytes) =
      s.readings sender (c.input.feed s.readRules now bytes).1 := by
  simp only [readingsAt, hc]

theorem readingsAt_of_not_reading {s : State} {sender : Nat} (hc : s.reading? sender = none)
    (now : Nat) (bytes : Bytes) : s.readingsAt now (.arrived sender bytes) = [] := by
  simp only [readingsAt, hc]

theorem State.Gone.offers_readingsAt {s : State} {key : Nat} (h : s.Gone key) (now : Nat)
    (input : Input) : (s.readingsAt now input).filterMap (·.offer? key) = [] := by
  unfold readingsAt
  split
  · split
    · rfl
    · exact h.offers_readings _ _
  · rfl

theorem queue_after {s : State} (hs : s.Sound) (now : Nat) (input : Input) (key : Nat) :
    s.queuedAt key now input =
        ((s.readingsAt now input).filterMap (·.accepted? key)).map Offer.item ∧
      Refused (s.readingsAt now input) key (s.after now input) := by
  -- Without bytes no queue grows and nothing is acted on.
  by_cases h : ∀ sender bytes, input ≠ .arrived sender bytes
  · rw [readingsAt_of_other s now h]
    refine ⟨?_, refused_nil key _⟩
    unfold queuedAt
    rw [List.drop_eq_nil_of_le (waiting_after_suffix hs now h key).length_le]
    rfl
  · -- The input is a string of bytes.
    obtain ⟨sender, bytes, rfl⟩ : ∃ sender bytes, input = .arrived sender bytes := by
      cases input with
      | arrived sender bytes => exact ⟨sender, bytes, rfl⟩
      | _ => exact absurd (by intro sender bytes; simp) h
    unfold queuedAt
    change (List.drop _ ((s.receive now sender bytes).waiting key)) = _ ∧
      Refused _ key (s.receive now sender bytes)
    cases hc : s.reading? sender with
    | none =>
      rw [readingsAt_of_not_reading hc, receive_of_not_reading hc, List.drop_length]
      exact ⟨rfl, refused_nil key s⟩
    | some c =>
      rw [readingsAt_of_reading hc]
      obtain ⟨hw, refused, heq, hlen, hgone⟩ :=
        queue_handleAll hs sender (c.input.feed s.readRules now bytes).1 key
      obtain ⟨hfollows, hsame⟩ := follows_settled_receive hs hc now bytes
      constructor
      · rw [hsame, hw, List.drop_left]
      · exact ⟨refused, heq, hlen, fun hne => (hgone hne).follows hfollows⟩

/-! ## Runs -/

theorem State.Gone.offers_readingsOver {s : State} {key : Nat} (h : s.Gone key) (hs : s.Sound)
    (inputs : List (Nat × Input)) : (s.readingsOver inputs).filterMap (·.offer? key) = [] := by
  induction inputs generalizing s with
  | nil => rfl
  | cons i inputs ih =>
    obtain ⟨now, input⟩ := i
    have hf := follows_after hs now input
    unfold readingsOver
    rw [List.filterMap_append, h.offers_readingsAt, ih (h.follows hf) hf.sound]
    rfl

/-- What a run puts into the queue of a peer is what the peer takes of what it is offered. -/
theorem queue_run {s : State} (hs : s.Sound) (inputs : List (Nat × Input)) (key : Nat) :
    s.queuedOver key inputs =
        ((s.readingsOver inputs).filterMap (·.accepted? key)).map Offer.item ∧
      Refused (s.readingsOver inputs) key (s.run inputs) := by
  induction inputs generalizing s with
  | nil => exact ⟨rfl, refused_nil key s⟩
  | cons i inputs ih =>
    obtain ⟨now, input⟩ := i
    have hf := follows_after hs now input
    obtain ⟨hq, hr⟩ := queue_after hs now input key
    obtain ⟨hq', hr'⟩ := ih hf.sound
    constructor
    · unfold queuedOver readingsOver
      rw [hq, hq', List.filterMap_append, List.map_append]
    -- A peer that is gone stays so, and is offered nothing in what follows.
    · apply hr.append hr'
      intro hgone
      exact ⟨hgone.offers_readingsOver hf.sound inputs,
        hgone.follows (follows_run hf.sound inputs)⟩

end EvictionBus.Relay
