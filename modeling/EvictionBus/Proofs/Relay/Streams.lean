import EvictionBus.Proofs.Relay.Offers

/-!
# The stream of one peer

The bytes that a relay has read from a peer are the frames that it has acted on, one behind the
other, and the part of a frame that its reader still holds.
-/

namespace EvictionBus.Relay

open State

/-! ## Bytes and frames of one peer -/

/-- The bytes of the frame under way from a peer. -/
def State.held (s : State) (key : Nat) : Bytes :=
  match s.connections.get? key with
  | some c => c.input.held
  | none => []

/-- The reader of a connection. -/
def State.reader? (s : State) (key : Nat) : Option Reader :=
  (s.connections.get? key).map Connection.input

theorem held_eq (s : State) (key : Nat) : s.held key = (s.reader? key).elim [] Reader.held := by
  unfold State.held State.reader?
  cases s.connections.get? key <;> rfl

theorem State.Onward.reader?_eq {s t : State} (h : s.Onward t) (key : Nat) :
    t.reader? key = s.reader? key := by
  have := congrArg (Option.map Prod.fst) (h.fixed key)
  rw [Option.map_map, Option.map_map] at this
  exact this

theorem reader?_of_drop {s t : State} {key : Nat}
    (h : t = s ∨ ∃ reason, t = s.disconnect key reason) (j : Nat) : t.reader? j = s.reader? j := by
  rcases h with rfl | ⟨reason, rfl⟩
  · rfl
  · exact (onward_disconnect s key reason).reader?_eq j

theorem reader?_insert_queue {s : State} {key : Nat} {c : Connection}
    (hc : s.connections.get? key = some c) (q : Queue) (j : Nat) :
    State.reader? { s with connections := s.connections.insert key { c with outbound := q } } j =
      s.reader? j := by
  unfold State.reader?
  simp only [KeyTable.get?_insert]
  by_cases hj : j = key
  · subst hj
    rw [if_pos rfl, hc]
    rfl
  · rw [if_neg hj]

theorem reader?_changeQueue (s : State) (key j : Nat) (change : Queue → Queue) :
    (s.changeQueue key change).2.reader? j = s.reader? j := by
  unfold changeQueue
  cases hc : s.connections.get? key with
  | none => rfl
  | some c =>
    simp only
    split
    · rfl
    · exact reader?_insert_queue hc _ j

theorem reader?_takeOutbound (s : State) (key j : Nat) :
    (s.takeOutbound key).2.reader? j = s.reader? j := by
  unfold takeOutbound
  cases hc : s.connections.get? key with
  | none => rfl
  | some c =>
    simp only
    split
    · rfl
    · exact reader?_insert_queue hc _ j

theorem reader?_accept (s : State) (address : String) {j : Nat} (hj : j ≠ s.lastKey + 1) :
    (s.accept address).2.reader? j = s.reader? j := by
  unfold State.reader?
  rw [accept_get?, if_neg hj]

theorem reader?_shutDown (s : State) (j : Nat) : s.shutDown.reader? j = s.reader? j := by
  cases hstop : s.stopping with
  | true =>
    unfold shutDown
    rw [if_pos hstop]
  | false =>
    obtain ⟨-, -, -, hget, -⟩ := shutDown_spec hstop
    unfold State.reader?
    rw [hget, Option.map_map]
    rfl

theorem reader?_receive_other {s : State} (hs : s.Sound) (now : Nat) {sender j : Nat}
    (bytes : Bytes) (hj : j ≠ sender) : (s.receive now sender bytes).reader? j = s.reader? j := by
  cases hc : s.reading? sender with
  | none => rw [receive_of_not_reading hc]
  | some c =>
    have hall := onward_handleAll s sender (c.input.feed s.readRules now bytes).1
    -- Only the reader of the sender is put back.
    rcases receive_cases hs hc now bytes with ⟨t, next, ht, -, -, heq⟩ | ⟨ho, -, -⟩
    · rw [ht] at hall
      rw [heq, ← hall.reader?_eq j]
      unfold State.reader?
      simp only [KeyTable.get?_modify, if_neg hj]
    · exact ((onward_settled sender hall).trans ho).reader?_eq j

/-- Every input but the bytes of a peer leaves its reader alone. -/
theorem reader?_after {s : State} (hs : s.Sound) (now : Nat) {input : Input} {j : Nat}
    (hj : ∀ address, input = .connected address → j ≠ s.lastKey + 1)
    (h : ∀ bytes, input ≠ .arrived j bytes) : (s.after now input).reader? j = s.reader? j := by
  cases input with
  | connected address =>
    change (if s.stopping then s else (s.accept address).2).reader? j = s.reader? j
    split
    · rfl
    · exact reader?_accept s address (hj address rfl)
  | arrived sender bytes =>
    have hj : j ≠ sender := fun e => h bytes (by rw [e])
    exact reader?_receive_other hs now bytes hj
  | ended key => exact reader?_of_drop (inputEnded_cases s key) j
  | readFailed key e => exact reader?_of_drop (inputFailed_cases s key e) j
  | timer key => exact reader?_of_drop (checkDeadline_cases s now key) j
  | taken key => exact reader?_takeOutbound s key j
  | writeFailed key e => exact reader?_of_drop (.inr ⟨_, rfl⟩) j
  | writerStopped key => exact reader?_changeQueue s key j _
  | shutDown => exact reader?_shutDown s j

theorem held_accept {s : State} (hs : s.Sound) (address : String) (j : Nat) :
    (s.accept address).2.held j = s.held j := by
  by_cases hj : j = s.lastKey + 1
  · have hnone : s.connections.get? j = none := by
      cases hc : s.connections.get? j with
      | none => rfl
      | some c =>
        have := hs.key_le hc
        omega
    unfold State.held
    rw [accept_get?, if_pos hj, hnone]
    rfl
  · rw [held_eq, held_eq, reader?_accept s address hj]

theorem held_after {s : State} (hs : s.Sound) (now : Nat) {input : Input} {j : Nat}
    (h : ∀ bytes, input ≠ .arrived j bytes) : (s.after now input).held j = s.held j := by
  by_cases hconnected : ∃ address, input = .connected address
  · obtain ⟨address, rfl⟩ := hconnected
    change (if s.stopping then s else (s.accept address).2).held j = s.held j
    split
    · rfl
    · exact held_accept hs address j
  · rw [held_eq, held_eq, reader?_after hs now (fun address he => absurd ⟨address, he⟩ hconnected) h]

/-! ## Bytes that have been read -/

/-- The bytes of the frames of one peer, of those that a relay has acted on. -/
def bytesOf (rs : List Reading) (sender : Nat) : Bytes :=
  (rs.filter (·.sender = sender)).flatMap (·.frame.bytes)

theorem bytesOf_append (rs more : List Reading) (sender : Nat) :
    bytesOf (rs ++ more) sender = bytesOf rs sender ++ bytesOf more sender := by
  unfold bytesOf
  rw [List.filter_append, List.flatMap_append]

theorem readingsOver_append (s : State) (first second : List (Nat × Input)) :
    s.readingsOver (first ++ second) =
      s.readingsOver first ++ (s.run first).readingsOver second := by
  -- The rest is recorded from the state that each input leaves.
  induction first generalizing s with
  | nil => rfl
  | cons i first ih =>
    obtain ⟨now, input⟩ := i
    show s.readingsAt now input ++ (s.after now input).readingsOver (first ++ second) = _
    rw [ih, ← List.append_assoc]
    rfl

theorem sender_of_mem_readings {s : State} {sender : Nat} {fs : List RawFrame} :
    ∀ r ∈ s.readings sender fs, r.sender = sender := by
  induction fs generalizing s with
  | nil =>
    intro r hr
    cases hr
  | cons f fs ih =>
    intro r hr
    unfold readings at hr
    rcases List.mem_cons.1 hr with rfl | hr
    · rfl
    · split at hr
      · exact ih r hr
      · cases hr

theorem bytesOf_readings (s : State) (sender : Nat) (fs : List RawFrame) :
    bytesOf (s.readings sender fs) sender =
      (((s.readings sender fs).map Reading.frame).map RawFrame.bytes).flatten := by
  unfold bytesOf
  rw [List.filter_eq_self.2 fun r hr => decide_eq_true (sender_of_mem_readings r hr),
    List.map_map, List.flatMap_def]
  rfl

theorem State.Sound.reading?_of_gone {s : State} (hs : s.Sound) {key : Nat} (h : s.Gone key) :
    s.reading? key = none := by
  cases hc : s.reading? key with
  | none => rfl
  | some c =>
    have := (hs.member_of_reading? hc).2
    rw [h.not_member] at this
    cases this

/-- Only bytes of a peer that is read from complete frames of it. -/
theorem filter_readingsAt_of_other (s : State) (now : Nat) {input : Input} {sender : Nat}
    (h : ∀ bytes, input = .arrived sender bytes → s.reading? sender = none) :
    (s.readingsAt now input).filter (·.sender = sender) = [] := by
  rw [List.filter_eq_nil_iff]
  intro r hr
  cases input with
  | arrived key bytes =>
    cases hc : s.reading? key with
    | none =>
      rw [readingsAt_of_not_reading hc] at hr
      cases hr
    | some c =>
      rw [readingsAt_of_reading hc] at hr
      rw [sender_of_mem_readings r hr, decide_eq_true_eq]
      rintro rfl
      rw [h bytes rfl] at hc
      cases hc
  | _ => cases hr

theorem stream_of_other (s : State) (now : Nat) (input : Input) {sender : Nat}
    (h : ∀ bytes, input = .arrived sender bytes → s.reading? sender = none) :
    s.bytesReadAt sender input = [] ∧ bytesOf (s.readingsAt now input) sender = [] := by
  constructor
  · cases input with
    | arrived key bytes =>
      by_cases hk : key = sender
      · subst hk
        simp [bytesReadAt, h bytes rfl]
      · simp [bytesReadAt, hk]
    | _ => rfl
  · unfold bytesOf
    rw [filter_readingsAt_of_other s now h]
    rfl

theorem stream_receive {s : State} (hs : s.Sound) (now : Nat) {sender : Nat} {c : Connection}
    (hc : s.reading? sender = some c) (bytes : Bytes) :
    ∃ rest, c.input.held ++ bytes = bytesOf (s.readingsAt now (.arrived sender bytes)) sender ++
        rest ∧
      (¬ (s.receive now sender bytes).Gone sender →
        rest = (s.receive now sender bytes).held sender) := by
  obtain ⟨hget, hm⟩ := hs.member_of_reading? hc
  obtain ⟨rest, hsplit, -, hend⟩ := Reader.feed_spec now bytes (hs.reader_sound hget)
  obtain ⟨hpre, hall⟩ := map_frame_readings s sender (c.input.feed s.readRules now bytes).1
  rw [readingsAt_of_reading hc, bytesOf_readings, hsplit]
  rcases receive_cases hs hc now bytes with ⟨t, next, ht, hnext, -, heq⟩ | ⟨-, -, hgone⟩
  · -- All frames have been acted on, and the reader goes on with what follows them.
    have hhold : next.held = rest := by
      rcases hend with ⟨next', hok, -, hheld'⟩ | ⟨herror, -, -⟩
      · rw [hnext] at hok
        cases hok
        exact hheld'
      · rw [hnext] at herror
        cases herror
    rw [hall (by rw [ht])]
    refine ⟨rest, rfl, fun _ => ?_⟩
    have ho := onward_handleAll s sender (c.input.feed s.readRules now bytes).1
    rw [ht] at ho
    obtain ⟨d, hd, -⟩ := ho.exists_connection hget
    unfold State.held
    rw [heq]
    simp only [KeyTable.get?_modify, if_pos, hd, Option.map_some, hhold]
  · -- The peer is dropped; the frames that are not acted on any more count as left over.
    obtain ⟨more, hmore⟩ := hpre
    refine ⟨(more.map RawFrame.bytes).flatten ++ rest, ?_, ?_⟩
    · conv => lhs; rw [← hmore]
      rw [List.map_append, List.flatten_append, List.append_assoc]
    · intro hnot
      have hle := (follows_receive hs now sender bytes).lastKey_le
      exact absurd ⟨Nat.le_trans (hs.key_le hget) hle, hgone⟩ hnot

theorem stream_after {s : State} (hs : s.Sound) (now : Nat) (input : Input) (sender : Nat) :
    ∃ rest, s.held sender ++ s.bytesReadAt sender input =
        bytesOf (s.readingsAt now input) sender ++ rest ∧
      (¬ (s.after now input).Gone sender → rest = (s.after now input).held sender) := by
  by_cases h : ∃ bytes c, input = .arrived sender bytes ∧ s.reading? sender = some c
  · obtain ⟨bytes, c, rfl, hc⟩ := h
    have hbytes : s.bytesReadAt sender (.arrived sender bytes) = bytes := by
      simp [bytesReadAt, hc]
    have hheld : s.held sender = c.input.held := by
      unfold State.held
      rw [(hs.member_of_reading? hc).1]
    rw [hbytes, hheld]
    exact stream_receive hs now hc bytes
  · have hnone : ∀ bytes, input = .arrived sender bytes → s.reading? sender = none := by
      intro bytes he
      cases hc : s.reading? sender with
      | none => rfl
      | some c => exact absurd ⟨bytes, c, he, hc⟩ h
    obtain ⟨hbytes, hreadings⟩ := stream_of_other s now input hnone
    rw [hbytes, hreadings, List.append_nil]
    refine ⟨s.held sender, rfl, fun _ => ?_⟩
    by_cases ha : ∃ bytes, input = .arrived sender bytes
    · obtain ⟨bytes, rfl⟩ := ha
      change _ = (s.receive now sender bytes).held sender
      rw [receive_of_not_reading (hnone bytes rfl)]
    · exact (held_after hs now fun bytes he => ha ⟨bytes, he⟩).symm

theorem State.Gone.stream_over {s : State} {sender : Nat} (h : s.Gone sender) (hs : s.Sound)
    (inputs : List (Nat × Input)) :
    s.bytesReadOver sender inputs = [] ∧ bytesOf (s.readingsOver inputs) sender = [] := by
  induction inputs generalizing s with
  | nil => exact ⟨rfl, rfl⟩
  | cons i inputs ih =>
    obtain ⟨now, input⟩ := i
    have hf := follows_after hs now input
    obtain ⟨hbytes, hreadings⟩ :=
      stream_of_other s now input fun _ _ => hs.reading?_of_gone h
    obtain ⟨hbytes', hreadings'⟩ := ih (h.follows hf) hf.sound
    unfold bytesReadOver readingsOver
    rw [bytesOf_append, hbytes, hbytes', hreadings, hreadings']
    exact ⟨rfl, rfl⟩

/-- The bytes read from a peer are the frames that have been acted on and what is left of a frame;
as long as the peer is not dropped, that is what its reader holds. -/
theorem stream_run {s : State} (hs : s.Sound) (inputs : List (Nat × Input)) (sender : Nat) :
    ∃ rest, s.held sender ++ s.bytesReadOver sender inputs =
        bytesOf (s.readingsOver inputs) sender ++ rest ∧
      (¬ (s.run inputs).Gone sender → rest = (s.run inputs).held sender) := by
  induction inputs generalizing s with
  | nil => exact ⟨s.held sender, List.append_nil _, fun _ => rfl⟩
  | cons i inputs ih =>
    obtain ⟨now, input⟩ := i
    have hf := follows_after hs now input
    obtain ⟨rest, heq, hrest⟩ := stream_after hs now input sender
    unfold bytesReadOver readingsOver
    rw [bytesOf_append, ← List.append_assoc, heq]
    -- Nothing is read from a peer that is gone, so what was left stays what is left.
    by_cases hgone : (s.after now input).Gone sender
    · obtain ⟨hbytes, hreadings⟩ := hgone.stream_over hf.sound inputs
      rw [hbytes, hreadings, List.append_nil, List.append_nil]
      refine ⟨rest, rfl, fun hnot => ?_⟩
      exact absurd (hgone.follows (follows_run hf.sound inputs)) hnot
    · obtain ⟨rest', heq', hrest'⟩ := ih hf.sound
      refine ⟨rest', ?_, hrest'⟩
      rw [List.append_assoc, hrest hgone, heq', List.append_assoc]

end EvictionBus.Relay
