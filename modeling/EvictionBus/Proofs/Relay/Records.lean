import EvictionBus.Proofs.Relay.Clients
import EvictionBus.Proofs.Relay.Routing

/-!
# What one more input adds to the records

The records of a run grow by one input at a time: bytes are read from one peer and frames are put
into queues when bytes arrive, and a frame leaves a queue when it is taken.
-/

namespace EvictionBus.Relay

open State

/-! ## Longer runs -/

theorem bytesReadOver_append (s : State) (key : Nat) (first second : List (Nat × Input)) :
    s.bytesReadOver key (first ++ second) =
      s.bytesReadOver key first ++ (s.run first).bytesReadOver key second := by
  induction first generalizing s with
  | nil => rfl
  | cons i first ih =>
    obtain ⟨now, input⟩ := i
    show s.bytesReadAt key input ++ (s.after now input).bytesReadOver key (first ++ second) = _
    rw [ih, ← List.append_assoc]
    rfl

theorem queuedOver_append (s : State) (key : Nat) (first second : List (Nat × Input)) :
    s.queuedOver key (first ++ second) =
      s.queuedOver key first ++ (s.run first).queuedOver key second := by
  induction first generalizing s with
  | nil => rfl
  | cons i first ih =>
    obtain ⟨now, input⟩ := i
    show s.queuedAt key now input ++ (s.after now input).queuedOver key (first ++ second) = _
    rw [ih, ← List.append_assoc]
    rfl

theorem records_of_lt {s : State} (hs : s.Sound) {key : Nat} (inputs : List (Nat × Input))
    (h : (s.run inputs).lastKey < key) :
    s.bytesReadOver key inputs = [] ∧ s.queuedOver key inputs = [] ∧
      (s.run inputs).waiting key = [] := by
  induction inputs generalizing s with
  | nil => exact ⟨rfl, rfl, hs.waiting_of_lt h⟩
  | cons i inputs ih =>
    obtain ⟨now, input⟩ := i
    have hf := follows_after hs now input
    obtain ⟨hread, hqueued, hwaiting⟩ := ih hf.sound h
    have hlt : (s.after now input).lastKey < key :=
      Nat.lt_of_le_of_lt (follows_run hf.sound inputs).lastKey_le h
    -- Only a key that has been given out is read from.
    have hnone : s.reading? key = none := by
      cases hc : s.reading? key with
      | none => rfl
      | some c =>
        have h₁ := hs.key_le (hs.member_of_reading? hc).1
        have h₂ := hf.lastKey_le
        omega
    refine ⟨?_, ?_, hwaiting⟩
    · show s.bytesReadAt key input ++ _ = []
      rw [hread, (stream_of_other s now input fun _ _ => hnone).1]
      rfl
    · show s.queuedAt key now input ++ _ = []
      unfold queuedAt
      rw [hqueued, hf.sound.waiting_of_lt hlt, List.drop_nil]
      rfl

/-! ## The inputs one by one -/

theorem waiting_after_arrival {s : State} (hs : s.Sound) (now sender : Nat) (bytes : Bytes)
    (key : Nat) : (s.after now (.arrived sender bytes)).waiting key =
      s.waiting key ++ s.queuedAt key now (.arrived sender bytes) := by
  -- Frames are put behind those that wait, so what is new is what is behind.
  have hpre : s.waiting key <+: (s.after now (.arrived sender bytes)).waiting key := by
    change _ <+: (s.receive now sender bytes).waiting key
    cases hc : s.reading? sender with
    | none =>
      rw [receive_of_not_reading hc]
    | some c =>
      obtain ⟨-, hw⟩ := follows_settled_receive hs hc now bytes
      rw [hw, (queue_handleAll hs sender _ key).1]
      exact List.prefix_append _ _
  obtain ⟨more, hmore⟩ := hpre
  unfold queuedAt
  rw [← hmore, List.drop_left]

theorem queuedAt_of_other {s : State} (hs : s.Sound) (now : Nat) {input : Input}
    (h : ∀ key bytes, input ≠ .arrived key bytes) (key : Nat) :
    s.queuedAt key now input = [] := by
  unfold queuedAt
  exact List.drop_eq_nil_of_le (waiting_after_suffix hs now h key).length_le

theorem bytesReadAt_of_other (s : State) {input : Input}
    (h : ∀ key bytes, input ≠ .arrived key bytes) (key : Nat) :
    s.bytesReadAt key input = [] := by
  cases input with
  | arrived sender bytes => exact absurd rfl (h sender bytes)
  | _ => rfl

theorem waiting_after_event {s : State} (hs : s.Sound) (now : Nat) {input : Input}
    (h : input.isEvent = true) (key : Nat) :
    (s.after now input).waiting key = s.waiting key := by
  -- These inputs drop a peer at most, and a dropped peer keeps its queue.
  cases input with
  | connected address => cases h
  | arrived sender bytes => cases h
  | ended sender => exact (follows_of_drop hs (inputEnded_cases s sender)).2 key
  | readFailed sender e => exact (follows_of_drop hs (inputFailed_cases s sender e)).2 key
  | timer sender => exact (follows_of_drop hs (checkDeadline_cases s now sender)).2 key
  | taken sender => cases h
  | writeFailed sender e => exact (follows_of_drop hs (.inr ⟨_, rfl⟩)).2 key
  | writerStopped sender => cases h
  | shutDown => exact waiting_shutDown s key

theorem Input.not_arrived_of_isEvent {input : Input} (h : input.isEvent = true) :
    ∀ key bytes, input ≠ .arrived key bytes := by
  rintro key bytes rfl
  cases h

theorem waiting_after_taken {s : State} {sender : Nat} {bytes : Bytes}
    (h : (s.takeOutbound sender).1 = some (.frame bytes)) :
    s.waiting sender = bytes :: (s.takeOutbound sender).2.waiting sender := by
  unfold takeOutbound at h ⊢
  cases hc : s.connections.get? sender with
  | none =>
    rw [hc] at h
    cases h
  | some c =>
    simp only [hc] at h ⊢
    split at h
    · cases h
    next hg =>
      rw [if_neg hg]
      simp only
      rw [waiting_insert_queue, if_pos rfl, take_frames]
      unfold waiting
      rw [hc]
      -- The first frame of the queue is taken, and the others stay.
      simp only [Option.some.injEq] at h
      unfold Queue.take at h
      split at h
      next first rest hq =>
        cases h
        exact hq.trans (congrArg (bytes :: ·) (congrArg (List.drop 1) hq).symm)
      next hq => split at h <;> cases h

theorem lastKey_after {s : State} (hs : s.Sound) (now : Nat) {input : Input}
    (h : ∀ address, input ≠ .connected address) :
    (s.after now input).lastKey = s.lastKey := by
  -- A peer dropped takes no key with it.
  have hdrop : ∀ {t key}, t = s ∨ (∃ reason, t = s.disconnect key reason) →
      t.lastKey = s.lastKey := by
    rintro t key (rfl | ⟨reason, rfl⟩)
    · rfl
    · exact (disconnect_settings s key reason).2.2
  cases input with
  | connected address => exact absurd rfl (h address)
  | arrived sender bytes => exact (receive_tables_eq hs now sender bytes).1
  | ended sender => exact hdrop (inputEnded_cases s sender)
  | readFailed sender e => exact hdrop (inputFailed_cases s sender e)
  | timer sender => exact hdrop (checkDeadline_cases s now sender)
  | taken sender => exact (requeued_takeOutbound s sender).tables_eq.2.1
  | writeFailed sender e => exact hdrop (.inr ⟨_, rfl⟩)
  | writerStopped sender => exact (requeued_dropQueue s sender).tables_eq.2.1
  | shutDown =>
    change s.shutDown.lastKey = s.lastKey
    cases hstop : s.stopping with
    | true =>
      unfold shutDown
      rw [if_pos hstop]
    | false => exact (shutDown_spec hstop).2.2.1

end EvictionBus.Relay
