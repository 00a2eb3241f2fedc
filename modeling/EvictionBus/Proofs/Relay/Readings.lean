import EvictionBus.Proofs.Relay.Effects

/-!
# What a relay has read and queued

The history of a run, told beside the run: the frames that the relay has acted on, each with the
state just before, the bytes that it has read, and the frames that have been put into a queue.  A
frame that has been read offers something to some peers, and a peer either takes what it is offered
or is dropped for it.
-/

namespace EvictionBus.Relay

/-! ## Frames that are acted on -/

/-- A frame that a relay acts on: the state just before, the peer that has sent it, and the frame.
-/
structure Reading where
  before : State
  sender : Nat
  frame : RawFrame

namespace State

/-- The frames that are acted on, of those that a peer has completed at one time.  After a frame for
which the peer is to be dropped no more is read. -/
def readings (s : State) (sender : Nat) : List RawFrame → List Reading
  | [] => []
  | f :: fs =>
    ⟨s, sender, f⟩ ::
      match s.handle sender f with
      | (s, none) => s.readings sender fs
      | (_, some _) => []

/-- The frames that are acted on at one input. -/
def readingsAt (s : State) (now : Nat) : Input → List Reading
  | .arrived key bytes =>
    match s.reading? key with
    | none => []
    | some c => s.readings key (c.input.feed s.readRules now bytes).1
  | _ => []

/-- The frames that are acted on in a run. -/
def readingsOver (s : State) : List (Nat × Input) → List Reading
  | [] => []
  | (now, input) :: inputs => s.readingsAt now input ++ (s.after now input).readingsOver inputs

/-- The bytes that are read from a peer at one input; nothing is read from a peer that has been
dropped. -/
def bytesReadAt (s : State) (key : Nat) : Input → Bytes
  | .arrived sender bytes =>
    if sender = key then
      match s.reading? key with
      | none => []
      | some _ => bytes
    else []
  | _ => []

/-- The bytes that are read from a peer in a run. -/
def bytesReadOver (s : State) (key : Nat) : List (Nat × Input) → Bytes
  | [] => []
  | (now, input) :: inputs =>
    s.bytesReadAt key input ++ (s.after now input).bytesReadOver key inputs

/-- The frames that are put into the queue of a peer at one input: those that wait behind the ones
that have been waiting before. -/
def queuedAt (s : State) (key now : Nat) (input : Input) : List Bytes :=
  ((s.after now input).waiting key).drop (s.waiting key).length

/-- The frames that are put into the queue of a peer in a run. -/
def queuedOver (s : State) (key : Nat) : List (Nat × Input) → List Bytes
  | [] => []
  | (now, input) :: inputs =>
    s.queuedAt key now input ++ (s.after now input).queuedOver key inputs

end State

/-! ## What a frame offers -/

/-- A frame for the queue of a peer, and the peer whose frame has caused it. -/
structure Offer where
  source : Nat
  item : Bytes
  deriving DecidableEq

namespace Reading

/-- What a frame that is acted on offers to a peer: a greeting is answered with a welcome, and an
eviction is passed on as it is, but not to the peer that has sent it. -/
def offer? (r : Reading) (key : Nat) : Option Offer :=
  if r.before.peers.contains key then
    match r.frame.header.op with
    | .hello => if r.sender = key then some ⟨key, r.before.welcome⟩ else none
    | .evict =>
      if r.sender ≠ key ∧ 0 < r.frame.header.length then some ⟨r.sender, r.frame.bytes⟩ else none
    | _ => none
  else none

/-- What a peer takes of what it is offered. -/
def accepted? (r : Reading) (key : Nat) : Option Offer :=
  if r.before.takes key then r.offer? key else none

theorem accepted?_eq_some {r : Reading} {key : Nat} {o : Offer} :
    r.accepted? key = some o ↔ r.before.takes key = true ∧ r.offer? key = some o := by
  unfold accepted?
  split
  next h => simp [h]
  next h => simp [h]

end Reading

namespace State

/-- The peer has been dropped, and its key is not given out again. -/
structure Gone (s : State) (key : Nat) : Prop where
  key_le : key ≤ s.lastKey
  not_member : s.peers.contains key = false

theorem Gone.onward {s t : State} {key : Nat} (h : s.Gone key) (ht : s.Onward t) : t.Gone key := by
  constructor
  · rw [ht.lastKey_eq]
    exact h.key_le
  -- No operation on frames brings a peer back.
  · cases hm : t.peers.contains key with
    | false => rfl
    | true =>
      have := ht.member hm
      rw [h.not_member] at this
      cases this

theorem Gone.offer?_eq_none {s : State} {key : Nat} (h : s.Gone key) (sender : Nat) (f : RawFrame) :
    (Reading.mk s sender f).offer? key = none := by
  unfold Reading.offer?
  simp [h.not_member]

/-! ## Acting on an eviction -/

/-- An eviction is offered to all peers but its sender, after it has been counted. -/
theorem exists_handleEviction_eq (s : State) (sender : Nat) (f : RawFrame) :
    ∃ t, s.Onward t ∧ t.connections = s.connections ∧
      (∀ key, t.peers.contains key = s.peers.contains key) ∧
      s.handleEviction sender f = (offerAll f.bytes t (s.peers.recipients sender)).1 := by
  -- Counting the eviction changes what is shown about the sender, not who is a peer.
  have hcontains : ∀ key, (s.peers.recordEviction sender).contains key = s.peers.contains key :=
    fun key => KeyTable.contains_modify ..
  have hkeys : (s.peers.recordEviction sender).recipients sender = s.peers.recipients sender := by
    unfold PeerTable.recipients PeerTable.recordEviction
    rw [KeyTable.keys_modify]
  unfold handleEviction fanOut nextSequence
  simp only [note, hkeys]
  refine ⟨_, ?_, ?_, ?_, rfl⟩
  · exact onward_of_tables rfl rfl rfl rfl rfl hcontains
  · rfl
  · exact hcontains

theorem onward_handleEviction (s : State) (sender : Nat) (f : RawFrame) :
    s.Onward (s.handleEviction sender f) := by
  obtain ⟨t, ht, -, -, heq⟩ := exists_handleEviction_eq s sender f
  rw [heq]
  exact ht.trans (onward_offerAll f.bytes t _)

theorem handleEviction_other (s : State) (sender : Nat) (f : RawFrame) {key : Nat}
    (h : key = sender ∨ s.peers.contains key = false) :
    (s.handleEviction sender f).waiting key = s.waiting key ∧
      (s.handleEviction sender f).peers.contains key = s.peers.contains key := by
  obtain ⟨t, -, hconn, hpeers, heq⟩ := exists_handleEviction_eq s sender f
  -- Neither the sender nor a stranger is among the recipients.
  have hnot : key ∉ s.peers.recipients sender := by
    rw [PeerTable.mem_recipients_iff]
    rintro ⟨hm, hne⟩
    rcases h with h | h
    · exact hne h
    · rw [h] at hm
      cases hm
  obtain ⟨hc, hm⟩ := offerAll_other f.bytes t hnot
  rw [heq]
  exact ⟨waiting_congr (hc.trans (by rw [hconn])), hm.trans (hpeers key)⟩

theorem handleEviction_recipient (s : State) (sender : Nat) (f : RawFrame) {key : Nat}
    (hm : s.peers.contains key = true) (hne : key ≠ sender) :
    (s.takes key = true →
      (s.handleEviction sender f).waiting key = s.waiting key ++ [f.bytes] ∧
      (s.handleEviction sender f).peers.contains key = true) ∧
    (s.takes key = false →
      (s.handleEviction sender f).waiting key = s.waiting key ∧
      (s.handleEviction sender f).peers.contains key = false) := by
  obtain ⟨t, -, hconn, hpeers, heq⟩ := exists_handleEviction_eq s sender f
  have hmem : key ∈ s.peers.recipients sender :=
    (PeerTable.mem_recipients_iff ..).2 ⟨hm, hne⟩
  have hsame : t.connections.get? key = s.connections.get? key := by rw [hconn]
  have := offerAll_mem f.bytes t hmem (s.peers.nodup_recipients sender)
  rw [takes_congr hsame, waiting_congr hsame, hpeers, hm] at this
  rw [heq]
  exact this

/-! ## Acting on a greeting -/

theorem exists_handleHello_eq (s : State) (sender : Nat) (f : RawFrame) :
    ∃ t, s.Onward t ∧ t.connections = s.connections ∧
      (∀ key, t.peers.contains key = s.peers.contains key) ∧
      s.handleHello sender f =
        if s.peers.contains sender = true then
          match t.enqueue sender s.welcome with
          | .ok u => (u, none)
          | .error reason => (t, some reason)
        else (t, some .queueClosed) := by
  have hcontains : ∀ name key,
      (s.peers.setNickname sender name).contains key = s.peers.contains key :=
    fun name key => KeyTable.contains_modify ..
  unfold handleHello
  simp only [note, hcontains]
  refine ⟨_, ?_, ?_, ?_, rfl⟩
  · exact onward_of_tables rfl rfl rfl rfl rfl (hcontains _)
  · rfl
  · exact hcontains _

theorem handleHello_of_takes {s : State} {sender : Nat} (f : RawFrame)
    (hm : s.peers.contains sender = true) (htakes : s.takes sender = true) :
    ∃ t, s.handleHello sender f = (t, none) ∧ s.Onward t ∧
      t.waiting sender = s.waiting sender ++ [s.welcome] ∧
      (∀ key, t.peers.contains key = s.peers.contains key) ∧
      ∀ key, key ≠ sender → t.connections.get? key = s.connections.get? key := by
  obtain ⟨t, ht, hconn, hpeers, heq⟩ := exists_handleHello_eq s sender f
  have hsame : ∀ key, t.connections.get? key = s.connections.get? key := fun key => by rw [hconn]
  obtain ⟨u, hu, honward, hpeers', hwaiting, hother⟩ :=
    enqueue_of_takes s.welcome (by rw [takes_congr (hsame sender)]; exact htakes)
  refine ⟨u, ?_, ht.trans honward, ?_, ?_, ?_⟩
  · rw [heq, if_pos hm, hu]
  · rw [hwaiting, waiting_congr (hsame sender)]
  · intro key
    rw [hpeers', hpeers]
  · intro key hk
    rw [hother key hk, hsame]

/-- A greeting that cannot be answered changes no queue, and its sender is to be dropped. -/
theorem handleHello_of_not_takes {s : State} {sender : Nat} (f : RawFrame)
    (h : ¬ (s.peers.contains sender = true ∧ s.takes sender = true)) :
    ∃ t reason, s.handleHello sender f = (t, some reason) ∧ s.Onward t ∧
      t.connections = s.connections ∧ ∀ key, t.peers.contains key = s.peers.contains key := by
  obtain ⟨t, ht, hconn, hpeers, heq⟩ := exists_handleHello_eq s sender f
  -- A sender that is a peer cannot take the answer; any other has no queue to put it into.
  by_cases hm : s.peers.contains sender = true
  · have htakes : s.takes sender = false := by
      cases hb : s.takes sender with
      | false => rfl
      | true => exact absurd ⟨hm, hb⟩ h
    have hsame : t.connections.get? sender = s.connections.get? sender := by rw [hconn]
    obtain ⟨reason, hr⟩ :=
      enqueue_of_not_takes s.welcome (by rw [takes_congr hsame]; exact htakes)
    refine ⟨t, reason, ?_, ht, hconn, hpeers⟩
    rw [heq, if_pos hm, hr]
  · exact ⟨t, _, by rw [heq, if_neg hm], ht, hconn, hpeers⟩

/-! ## Acting on a frame -/

theorem onward_handle (s : State) (sender : Nat) (f : RawFrame) :
    s.Onward (s.handle sender f).1 := by
  unfold handle
  split
  · split
    · exact onward_handleEviction s sender f
    · exact onward_note s _
  · by_cases h : s.peers.contains sender = true ∧ s.takes sender = true
    · obtain ⟨t, ht, honward, -⟩ := handleHello_of_takes f h.1 h.2
      rw [ht]
      exact honward
    · obtain ⟨t, reason, ht, honward, -⟩ := handleHello_of_not_takes f h
      rw [ht]
      exact honward
  · exact onward_note s _

theorem handle_keeps_sender {s : State} {sender : Nat} {f : RawFrame}
    (hm : s.peers.contains sender = true) (h : (s.handle sender f).2 = none) :
    (s.handle sender f).1.peers.contains sender = true := by
  unfold handle at h ⊢
  split
  · split
    · exact (handleEviction_other s sender f (.inl rfl)).2.trans hm
    · exact hm
  next hop =>
    rw [hop] at h
    -- A greeting that leaves no reason to drop its sender has been answered.
    by_cases ht : s.peers.contains sender = true ∧ s.takes sender = true
    · obtain ⟨t, heq, -, -, hpeers, -⟩ := handleHello_of_takes f ht.1 ht.2
      rw [heq]
      exact (hpeers sender).trans hm
    · obtain ⟨t, reason, heq, -⟩ := handleHello_of_not_takes f ht
      simp only [heq] at h
      cases h
  · exact hm

/-- The state when frames of a peer have been acted on, the peer dropped if it is to be. -/
def settled (sender : Nat) : State × Option Disconnect → State
  | (s, none) => s
  | (s, some reason) => s.disconnect sender reason

theorem onward_settled {s : State} (sender : Nat) {outcome : State × Option Disconnect}
    (h : s.Onward outcome.1) : s.Onward (settled sender outcome) := by
  obtain ⟨t, _ | reason⟩ := outcome
  · exact h
  · exact h.trans (onward_disconnect t sender reason)

end State

namespace Reading

/-- The state after a frame has been acted on, its sender dropped if it is to be. -/
def after (r : Reading) : State :=
  State.settled r.sender (r.before.handle r.sender r.frame)

theorem onward_after (r : Reading) : r.before.Onward r.after :=
  State.onward_settled r.sender (State.onward_handle r.before r.sender r.frame)

/-- A peer does not take what it is offered. -/
def refuses (r : Reading) (key : Nat) : Bool :=
  (r.offer? key).isSome && !r.before.takes key

theorem member_of_offer? {r : Reading} {key : Nat} {o : Offer} (h : r.offer? key = some o) :
    r.before.peers.contains key = true := by
  unfold offer? at h
  split at h
  next hm => exact hm
  next => cases h

/-- `t` is the state after a frame has been acted on, as far as one peer is concerned: what the peer
takes is at the end of its queue, and a peer that does not take what it is offered is dropped. -/
structure Answered (r : Reading) (t : State) (key : Nat) : Prop where
  waiting_eq : t.waiting key = r.before.waiting key ++ (r.accepted? key).toList.map Offer.item
  member_eq : t.peers.contains key = (r.before.peers.contains key && !r.refuses key)

variable {r : Reading} {t : State} {key : Nat}

theorem answered_of_none (h : r.offer? key = none)
    (hw : t.waiting key = r.before.waiting key)
    (hm : t.peers.contains key = r.before.peers.contains key) : r.Answered t key := by
  constructor
  · have ha : r.accepted? key = none := by
      unfold accepted?
      rw [h, ite_self]
    rw [hw, ha]
    simp
  · simp [refuses, h, hm]

theorem answered_of_takes {o : Offer} (h : r.offer? key = some o)
    (htakes : r.before.takes key = true)
    (hw : t.waiting key = r.before.waiting key ++ [o.item])
    (hm : t.peers.contains key = true) : r.Answered t key := by
  have ha : r.accepted? key = some o := accepted?_eq_some.2 ⟨htakes, h⟩
  constructor
  · rw [hw, ha]
    rfl
  · simp [refuses, htakes, hm, member_of_offer? h]

theorem answered_of_not_takes {o : Offer} (h : r.offer? key = some o)
    (htakes : r.before.takes key = false)
    (hw : t.waiting key = r.before.waiting key) (hm : t.peers.contains key = false) :
    r.Answered t key := by
  constructor
  · have ha : r.accepted? key = none := by
      unfold accepted?
      rw [if_neg (by rw [htakes]; simp)]
    rw [hw, ha]
    simp
  · simp [refuses, h, htakes, hm]

end Reading

namespace State

theorem answered_handleEviction (s : State) {sender : Nat} {f : RawFrame} (key : Nat)
    (hop : f.header.op = .evict) (hpos : 0 < f.header.length) :
    (Reading.mk s sender f).Answered (s.handleEviction sender f) key := by
  by_cases hto : s.peers.contains key = true ∧ key ≠ sender
  · obtain ⟨hm, hne⟩ := hto
    obtain ⟨htakes, hnot⟩ := handleEviction_recipient s sender f hm hne
    have hoffer : (Reading.mk s sender f).offer? key = some ⟨sender, f.bytes⟩ := by
      simp [Reading.offer?, hm, hop, hpos, Ne.symm hne]
    cases h : s.takes key with
    | true => exact Reading.answered_of_takes hoffer h (htakes h).1 (htakes h).2
    | false => exact Reading.answered_of_not_takes hoffer h (hnot h).1 (hnot h).2
  -- Nothing is offered to the sender itself or to one who is no peer.
  · have hother : key = sender ∨ s.peers.contains key = false := by
      by_cases hk : key = sender
      · exact .inl hk
      · exact .inr (by simpa [hk] using hto)
    have hoffer : (Reading.mk s sender f).offer? key = none := by
      rcases hother with hk | hk
      · simp [Reading.offer?, hop, hk]
      · simp [Reading.offer?, hk]
    obtain ⟨hw, hm⟩ := handleEviction_other s sender f hother
    exact Reading.answered_of_none hoffer hw hm

theorem answered_handleHello (s : State) {sender : Nat} {f : RawFrame} (key : Nat)
    (hop : f.header.op = .hello) :
    (Reading.mk s sender f).Answered (settled sender (s.handleHello sender f)) key := by
  -- Only the sender is offered anything: the answer.
  have hoffer : key ≠ sender → (Reading.mk s sender f).offer? key = none := by
    intro hk
    simp [Reading.offer?, hop, Ne.symm hk]
  by_cases h : s.peers.contains sender = true ∧ s.takes sender = true
  · obtain ⟨hm, htakes⟩ := h
    obtain ⟨t, heq, -, hwaiting, hpeers, hother⟩ := handleHello_of_takes f hm htakes
    rw [heq]
    by_cases hk : key = sender
    · subst hk
      have hwelcome : (Reading.mk s key f).offer? key = some ⟨key, s.welcome⟩ := by
        simp [Reading.offer?, hop, hm]
      exact Reading.answered_of_takes hwelcome htakes hwaiting ((hpeers key).trans hm)
    · exact Reading.answered_of_none (hoffer hk) (waiting_congr (hother key hk)) (hpeers key)
  · obtain ⟨t, reason, heq, -, hconn, hpeers⟩ := handleHello_of_not_takes f h
    rw [heq]
    -- The answer is not queued, and the sender is dropped.
    have hwaiting : (t.disconnect sender reason).waiting key = s.waiting key := by
      rw [disconnect_waiting]
      exact waiting_congr (by rw [hconn])
    by_cases hk : key = sender
    · subst hk
      by_cases hm : s.peers.contains key = true
      · have htakes : s.takes key = false := by
          cases hb : s.takes key with
          | false => rfl
          | true => exact absurd ⟨hm, hb⟩ h
        have hwelcome : (Reading.mk s key f).offer? key = some ⟨key, s.welcome⟩ := by
          simp [Reading.offer?, hop, hm]
        exact Reading.answered_of_not_takes hwelcome htakes hwaiting
          (disconnect_not_member t key reason)
      · have hnone : (Reading.mk s key f).offer? key = none := by
          simp [Reading.offer?, hm]
        refine Reading.answered_of_none hnone hwaiting ?_
        show (t.disconnect key reason).peers.contains key = s.peers.contains key
        rw [disconnect_not_member]
        simpa using Eq.symm (Bool.eq_false_iff.2 hm)
    · refine Reading.answered_of_none (hoffer hk) hwaiting ?_
      show (t.disconnect sender reason).peers.contains key = s.peers.contains key
      rw [disconnect_contains, decide_eq_true hk, Bool.and_true, hpeers]

/-- Whatever frame is acted on, each peer takes what it is offered or is dropped. -/
theorem answered_handle (s : State) (sender : Nat) (f : RawFrame) (key : Nat) :
    (Reading.mk s sender f).Answered (settled sender (s.handle sender f)) key := by
  unfold handle
  split
  next hop =>
    split
    next hpos => exact answered_handleEviction s key hop hpos
    next hzero =>
      -- An eviction without a payload is not passed on.
      have hnone : (Reading.mk s sender f).offer? key = none := by
        simp [Reading.offer?, hop, hzero]
      exact Reading.answered_of_none hnone rfl rfl
  next hop => exact answered_handleHello s key hop
  next op hevict hhello =>
    -- Other frames are noted and nothing more.
    have hnone : (Reading.mk s sender f).offer? key = none := by
      unfold Reading.offer?
      split
      · split <;> simp_all
      · rfl
    exact Reading.answered_of_none hnone rfl rfl

end State

theorem Reading.answered (r : Reading) (key : Nat) : r.Answered r.after key :=
  State.answered_handle r.before r.sender r.frame key

end EvictionBus.Relay
