import EvictionBus.Proofs.Relay.History

/-!
# Why peers are dropped

While no connection fails, no payload is late and the relay is not told to stop, a peer is dropped
for one of three reasons: it has ended its side, its bytes are no frames within the limit, or its
queue is full.
-/

namespace EvictionBus.Relay

open State

/-- Whether an input is one at which nothing fails: no connection fails, no payload is late, the
relay goes on, and its writers stop only for peers that it has dropped. -/
def Input.Smooth (s : State) : Input → Prop
  | .writerStopped key => s.peers.contains key = false
  | .readFailed .. => False
  | .timer _ => False
  | .writeFailed .. => False
  | .shutDown => False
  | _ => True

/-! ## Queues of peers -/

/-- The queue of every peer has its reader. -/
def State.Open (s : State) : Prop :=
  ∀ key c, s.connections.get? key = some c → s.peers.contains key = true →
    c.outbound.reader = .reading

theorem open_start (config : Config) (identity : Identity) : (start config identity).Open := by
  intro key c hc
  cases hc

theorem State.Open.onward {s t : State} (h : s.Open) (ht : s.Onward t) : t.Open := by
  intro key c hc hm
  have hf := ht.fixed key
  rw [hc] at hf
  cases hd : s.connections.get? key with
  | none =>
    rw [hd] at hf
    cases hf
  | some d =>
    rw [hd] at hf
    simp only [Option.map_some, Option.some.injEq, Connection.fixed, Prod.mk.injEq] at hf
    rw [hf.2.2]
    exact h key d hd (ht.member hm)

/-- Connections may change as long as the readers of their queues stay. -/
theorem State.Open.of_connections {s t : State} (h : s.Open)
    (hm : ∀ key, t.peers.contains key = true → s.peers.contains key = true)
    (hc : ∀ key c, t.connections.get? key = some c → t.peers.contains key = true →
      ∃ d, s.connections.get? key = some d ∧ c.outbound.reader = d.outbound.reader) : t.Open := by
  intro key c hget hmember
  obtain ⟨d, hd, hreader⟩ := hc key c hget hmember
  rw [hreader]
  exact h key d hd (hm key hmember)

theorem open_accept {s : State} (h : s.Open) (address : String) :
    (s.accept address).2.Open := by
  intro key c hc hm
  change (KeyTable.insert ..).get? key = some c at hc
  rw [KeyTable.get?_insert] at hc
  rw [accept_contains] at hm
  by_cases hk : key = s.lastKey + 1
  · rw [if_pos hk] at hc
    cases hc
    rfl
  · rw [if_neg hk] at hc hm
    exact h key c hc hm

theorem open_receive {s : State} (h : s.Open) (hs : s.Sound) (now sender : Nat) (bytes : Bytes) :
    (s.receive now sender bytes).Open := by
  cases hc : s.reading? sender with
  | none =>
    rw [receive_of_not_reading hc]
    exact h
  | some c =>
    have hall := onward_handleAll s sender (c.input.feed s.readRules now bytes).1
    -- Frames are put into queues or peers dropped, and then a reader of bytes is put back.
    rcases receive_cases hs hc now bytes with ⟨t, next, ht, -, -, heq⟩ | ⟨ho, -, -⟩
    · rw [ht] at hall
      rw [heq]
      refine (h.onward hall).of_connections (fun key hm => hm) fun key d hd _ => ?_
      rw [KeyTable.get?_modify] at hd
      by_cases hk : key = sender
      · rw [if_pos hk] at hd
        obtain ⟨e, he, rfl⟩ := Option.map_eq_some_iff.1 hd
        exact ⟨e, he, rfl⟩
      · rw [if_neg hk] at hd
        exact ⟨d, hd, rfl⟩
    · exact (h.onward (onward_settled sender hall)).onward ho

theorem open_takeOutbound {s : State} (h : s.Open) (sender : Nat) :
    (s.takeOutbound sender).2.Open := by
  unfold takeOutbound
  cases hc : s.connections.get? sender with
  | none => exact h
  | some c =>
    simp only
    split
    · exact h
    · refine h.of_connections (fun key hm => hm) fun key d hd _ => ?_
      simp only [KeyTable.get?_insert] at hd
      by_cases hk : key = sender
      · rw [if_pos hk] at hd
        cases hd
        exact ⟨c, hk ▸ hc, take_reader _ _⟩
      · rw [if_neg hk] at hd
        exact ⟨d, hd, rfl⟩

theorem open_dropQueue {s : State} (h : s.Open) {sender : Nat}
    (hnot : s.peers.contains sender = false) : (s.dropQueue sender).2.Open := by
  unfold dropQueue changeQueue
  cases hc : s.connections.get? sender with
  | none => exact h
  | some c =>
    simp only
    split
    · exact h
    · refine h.of_connections (fun key hm => hm) fun key d hd hm => ?_
      change s.peers.contains key = true at hm
      simp only [KeyTable.get?_insert] at hd
      -- The queue dropped is of nobody in the table.
      by_cases hk : key = sender
      · rw [hk, hnot] at hm
        cases hm
      · rw [if_neg hk] at hd
        exact ⟨d, hd, rfl⟩

theorem open_after {s : State} (h : s.Open) (hs : s.Sound) (now : Nat) {input : Input}
    (hsmooth : input.Smooth s) : (s.after now input).Open := by
  have hdrop : ∀ {t key}, t = s ∨ (∃ reason, t = s.disconnect key reason) → t.Open := by
    rintro t key (rfl | ⟨reason, rfl⟩)
    · exact h
    · exact h.onward (onward_disconnect s key reason)
  -- Everything that closes the queue of a peer is ruled out.
  cases input with
  | connected address =>
    change (if s.stopping then s else (s.accept address).2).Open
    split
    · exact h
    · exact open_accept h address
  | arrived sender bytes => exact open_receive h hs now sender bytes
  | ended sender => exact hdrop (inputEnded_cases s sender)
  | readFailed sender e => exact hsmooth.elim
  | timer sender => exact hsmooth.elim
  | taken sender => exact open_takeOutbound h sender
  | writeFailed sender e => exact hsmooth.elim
  | writerStopped sender => exact open_dropQueue h hsmooth
  | shutDown => exact hsmooth.elim

theorem onward_of_mem_readings {s : State} {sender : Nat} {fs : List RawFrame} {r : Reading}
    (hr : r ∈ s.readings sender fs) : s.Onward r.before := by
  induction fs generalizing s with
  | nil => cases hr
  | cons f fs ih =>
    have ho := onward_handle s sender f
    unfold readings at hr
    rcases List.mem_cons.1 hr with rfl | hr
    · exact Onward.refl s
    · cases h : s.handle sender f with
      | mk t outcome =>
        rw [h] at ho hr
        cases outcome with
        | none => exact ho.trans (ih hr)
        | some reason => cases hr

theorem open_readingsAt {s : State} (h : s.Open) (now : Nat) (input : Input) :
    ∀ r ∈ s.readingsAt now input, r.before.Open := by
  intro r hr
  cases input with
  | arrived sender bytes =>
    cases hc : s.reading? sender with
    | none =>
      rw [readingsAt_of_not_reading hc] at hr
      cases hr
    | some c =>
      rw [readingsAt_of_reading hc] at hr
      exact h.onward (onward_of_mem_readings hr)
  | _ => cases hr

/-- A peer with an open queue refuses a frame only if its queue is full. -/
theorem Reading.length_waiting_of_refuses {r : Reading} {key : Nat} (hs : r.before.Sound)
    (hopen : r.before.Open) (h : r.refuses key = true) :
    (r.before.waiting key).length = max 1 r.before.config.queueDepth := by
  obtain ⟨hoffer, htakes⟩ := Bool.and_eq_true_iff.1 h
  obtain ⟨o, ho⟩ := Option.isSome_iff_exists.1 hoffer
  have hm := member_of_offer? ho
  -- Its queue has its reader, so only the depth can be in the way.
  obtain ⟨c, hc⟩ := hs.member_connected hm
  have hle := hs.length_waiting_le key
  have hdepth := hs.depth_eq hc
  unfold takes waiting at *
  simp only [hc, hopen key c hc hm, true_and, Bool.not_eq_true', decide_eq_false_iff_not,
    Nat.not_lt] at htakes hle ⊢
  omega

/-! ## Staying in the table -/

theorem member_handleAll {s : State} {sender key : Nat} {fs : List RawFrame}
    (hm : s.peers.contains key = true) (h : ∀ r ∈ s.readings sender fs, r.refuses key = false) :
    (settled sender (s.handleAll sender fs)).peers.contains key = true := by
  -- Frame by frame, since the peer takes what each one offers it.
  induction fs generalizing s with
  | nil => exact hm
  | cons f fs ih =>
    have hmember := (answered_handle s sender f key).member_eq
    unfold readings at h
    rw [h _ List.mem_cons_self, hm] at hmember
    cases hf : s.handle sender f with
    | mk t outcome =>
      rw [hf] at hmember h
      cases outcome with
      | none =>
        rw [handleAll_cons_none fs hf]
        exact ih hmember fun r hr => h r (List.mem_cons_of_mem _ hr)
      | some reason =>
        rw [handleAll_cons_some fs hf]
        exact hmember

theorem member_receive {s : State} {now sender key : Nat} {bytes : Bytes}
    (hm : s.peers.contains key = true)
    (h : ∀ r ∈ s.readingsAt now (.arrived sender bytes), r.refuses key = false)
    (hread : sender = key → ∀ c, s.reading? key = some c →
      ∃ next, (c.input.feed s.readRules now bytes).2 = .ok next) :
    (s.receive now sender bytes).peers.contains key = true := by
  cases hc : s.reading? sender with
  | none =>
    rw [receive_of_not_reading hc]
    exact hm
  | some c =>
    rw [readingsAt_of_reading hc] at h
    have hall := member_handleAll hm h
    unfold receive
    simp only [hc]
    cases hh : s.handleAll sender (c.input.feed s.readRules now bytes).1 with
    | mk t outcome =>
      rw [hh] at hall
      cases outcome with
      | some reason => exact hall
      | none =>
        cases hfeed : (c.input.feed s.readRules now bytes).2 with
        | ok next => exact hall
        | error reason =>
          show (t.disconnect sender reason).peers.contains key = true
          -- Bytes that are no frames cost only the place of their sender.
          have hne : key ≠ sender := by
            rintro rfl
            obtain ⟨next, hnext⟩ := hread rfl c hc
            rw [hfeed] at hnext
            cases hnext
          rw [disconnect_contains, decide_eq_true hne, Bool.and_true]
          exact hall

/-- While nothing fails, a peer stays in the table unless it refuses a frame, ends its side, or
sends bytes that are no frames within the limit. -/
theorem member_after {s : State} {now key : Nat} {input : Input}
    (hsmooth : input.Smooth s) (hm : s.peers.contains key = true)
    (h : ∀ r ∈ s.readingsAt now input, r.refuses key = false) (hended : input ≠ .ended key)
    (hread : ∀ bytes, input = .arrived key bytes → ∀ c, s.reading? key = some c →
      ∃ next, (c.input.feed s.readRules now bytes).2 = .ok next) :
    (s.after now input).peers.contains key = true := by
  -- Of the inputs that are left only the end of its own side drops a peer.
  cases input with
  | connected address =>
    change (if s.stopping then s else (s.accept address).2).peers.contains key = true
    split
    · exact hm
    · rw [accept_contains, hm, ite_self]
  | arrived sender bytes =>
    refine member_receive hm h fun he => ?_
    subst he
    exact hread bytes rfl
  | ended sender =>
    have hne : key ≠ sender := fun he => hended (by rw [he])
    rcases inputEnded_cases s sender with heq | ⟨reason, heq⟩
    · show (s.inputEnded sender).peers.contains key = true
      rw [heq]
      exact hm
    · show (s.inputEnded sender).peers.contains key = true
      rw [heq, disconnect_contains, decide_eq_true hne, Bool.and_true]
      exact hm
  | readFailed sender e => exact hsmooth.elim
  | timer sender => exact hsmooth.elim
  | taken sender =>
    change (s.takeOutbound sender).2.peers.contains key = true
    rwa [(requeued_takeOutbound s sender).tables_eq.1]
  | writeFailed sender e => exact hsmooth.elim
  | writerStopped sender =>
    change (s.dropQueue sender).2.peers.contains key = true
    rwa [(requeued_dropQueue s sender).tables_eq.1]
  | shutDown => exact hsmooth.elim

end EvictionBus.Relay
