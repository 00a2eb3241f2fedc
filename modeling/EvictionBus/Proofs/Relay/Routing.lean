import EvictionBus.Proofs.Relay.Streams

/-!
# What reaches the queue of a peer

Clients may send what they like, in any chunks, and go away at any time.  Still the frames that are
put into the queue of a peer are the answers to its own greetings and the evictions of the others:
whole, byte for byte as they were read, each sender's in order, without a gap and without a
duplicate.
-/

namespace EvictionBus.Relay

open State

/-! ## Frames that are acted on in a run -/

theorem Reading.Sound.follows {s t : State} {r : Reading} (h : r.Sound t) (ht : s.Follows t) :
    r.Sound s where
  config_eq := h.config_eq.trans ht.config_eq
  identity_eq := h.identity_eq.trans ht.identity_eq
  before_sound := h.before_sound
  member := h.member
  frame_sound := by
    have := h.frame_sound
    unfold readRules at this ⊢
    rw [ht.config_eq, ht.identity_eq] at this
    exact this

theorem readingsAt_sound {s : State} (hs : s.Sound) (now : Nat) (input : Input) :
    ∀ r ∈ s.readingsAt now input, r.Sound s := by
  intro r hr
  cases input with
  | arrived sender bytes =>
    cases hc : s.reading? sender with
    | none =>
      rw [readingsAt_of_not_reading hc] at hr
      cases hr
    | some c =>
      rw [readingsAt_of_reading hc] at hr
      obtain ⟨hget, hm⟩ := hs.member_of_reading? hc
      -- Whatever the chunks are, the reader yields sound frames only.
      obtain ⟨-, -, hframes, -⟩ := Reader.feed_spec now bytes (hs.reader_sound hget)
      exact (readings_sound hs hm hframes r hr).2
  | _ => cases hr

theorem readingsOver_sound {s : State} (hs : s.Sound) (inputs : List (Nat × Input)) :
    ∀ r ∈ s.readingsOver inputs, r.Sound s := by
  induction inputs generalizing s with
  | nil =>
    intro r hr
    cases hr
  | cons i inputs ih =>
    obtain ⟨now, input⟩ := i
    intro r hr
    have hf := follows_after hs now input
    unfold readingsOver at hr
    -- It is acted on at this input or at a later one.
    rcases List.mem_append.1 hr with hr | hr
    · exact readingsAt_sound hs now input r hr
    · exact (ih hf.sound r hr).follows hf

namespace Reading

/-! ## Greetings and evictions -/

/-- The frame is a greeting of the peer, and the peer is not dropped for it. -/
def greets (r : Reading) (key : Nat) : Bool :=
  r.sender = key ∧ r.frame.header.op = .hello ∧ (r.before.handle key r.frame).2 = none

/-- What is offered to a peer because of a frame of its own is a welcome, and otherwise the bytes of
an eviction. -/
theorem offer?_eq_some_iff {r : Reading} {key : Nat} {o : Offer} :
    r.offer? key = some o ↔ r.before.peers.contains key = true ∧
      (r.sender = key ∧ r.frame.header.op = .hello ∧ o = ⟨key, r.before.welcome⟩ ∨
        r.sender ≠ key ∧ r.frame.header.op = .evict ∧ 0 < r.frame.header.length ∧
          o = ⟨r.sender, r.frame.bytes⟩) := by
  unfold offer?
  split
  next hm =>
    split
    next hop =>
      split
      next hk => simp [hm, hop, hk, eq_comm]
      next hk => simp [hop, hk]
    next hop =>
      split
      next hk => simp [hm, hop, hk, eq_comm]
      next hk =>
        simp only [reduceCtorEq, hop, false_and, and_false, false_or, true_and, false_iff]
        rintro ⟨-, hne, hpos, -⟩
        exact hk ⟨hne, hpos⟩
    next hhello hevict =>
      simp only [reduceCtorEq, false_iff]
      rintro ⟨-, ⟨-, hop, -⟩ | ⟨-, hop, -⟩⟩
      · exact hhello hop
      · exact hevict hop
  next hm => simp [hm]

theorem offer?_of_accepted? {r : Reading} {key : Nat} {o : Offer}
    (h : r.accepted? key = some o) : r.offer? key = some o :=
  (accepted?_eq_some.1 h).2

end Reading

/-! ## The whole queue -/

/-- Every reader reads a welcome as an empty frame. -/
theorem decode_welcome (s : State) (me : Identity) : ∃ header,
    Header.decode me s.welcome = .ok header ∧ header.frameSize = s.welcome.length ∧
      header.op = .welcome ∧ header.length = 0 := by
  have hop : OpCode.welcome.isEncodable = true := by decide
  have hd := Header.decode_bytes me s.identity [] hop (Nat.zero_le maxPayload)
  rw [List.append_nil] at hd
  refine ⟨_, hd, ?_, rfl, rfl⟩
  rw [Header.frameSize, State.welcome, Header.length_bytes]
  rfl

/-- Every reader finds the same kind and the same length in the bytes of a frame. -/
theorem RawFrame.Sound.exists_decode {rules : ReadRules} {f : RawFrame} (h : f.Sound rules)
    (me : Identity) : ∃ header, Header.decode me f.bytes = .ok header ∧
      header.frameSize = f.bytes.length ∧ header.op = f.header.op ∧
      header.length = f.header.length ∧ header.length ≤ rules.limit := by
  obtain ⟨header, hd, hl, -⟩ := Header.exists_decode me h.whole.header_le
  obtain ⟨hop, hlength⟩ := Header.same_of_decode hd h.decoded
  refine ⟨header, hd, ?_, hop, hlength, ?_⟩
  · rw [Header.frameSize, hl, h.whole.length_eq]
  · rw [hl]
    exact h.whole.declared_le

/-- What a peer takes is a frame that every reader reads. -/
theorem accepted_wellFormed {s : State} {r : Reading} (hr : r.Sound s) {key : Nat} {o : Offer}
    (ho : r.accepted? key = some o) (me : Identity) :
    ∃ header, Header.decode me o.item = .ok header ∧ header.frameSize = o.item.length ∧
      (o.source = key ∧ header.op = .welcome ∧ header.length = 0 ∨
        o.source ≠ key ∧ header.op = .evict ∧ 0 < header.length ∧
          header.length ≤ s.config.maxMessageSize) := by
  obtain ⟨-, ⟨-, -, rfl⟩ | ⟨hne, hop, hpos, rfl⟩⟩ :=
    Reading.offer?_eq_some_iff.1 (Reading.offer?_of_accepted? ho)
  · obtain ⟨header, hd, hsize, hempty⟩ := decode_welcome r.before me
    exact ⟨header, hd, hsize, .inl ⟨rfl, hempty⟩⟩
  -- The relay passes the bytes on as they are.
  · obtain ⟨header, hd, hsize, hop', hlength, hle⟩ := hr.frame_sound.exists_decode me
    exact ⟨header, hd, hsize, .inr ⟨hne, hop'.trans hop, by omega, hle⟩⟩

end EvictionBus.Relay
