import EvictionBus.Proofs.Relay.Readings

/-!
# Runs of a relay

What one input does, for any input, and from that what a whole run does.  Frames are put into queues
only when bytes arrive; every other input takes frames out of a queue or leaves it alone.
-/

namespace EvictionBus.Relay.State

/-! ## What every input keeps -/

/-- `t` comes from `s` by an input: the settings stay, keys are given out in order, and only peers
with new keys come into the table. -/
structure Follows (s t : State) : Prop where
  config_eq : t.config = s.config
  identity_eq : t.identity = s.identity
  lastKey_le : s.lastKey ≤ t.lastKey
  member : ∀ {key}, key ≤ s.lastKey → t.peers.contains key = true → s.peers.contains key = true
  sound : t.Sound

theorem Follows.refl {s : State} (hs : s.Sound) : s.Follows s :=
  ⟨rfl, rfl, Nat.le_refl _, fun _ h => h, hs⟩

theorem Follows.trans {s t u : State} (h : s.Follows t) (h' : t.Follows u) : s.Follows u where
  config_eq := h'.config_eq.trans h.config_eq
  identity_eq := h'.identity_eq.trans h.identity_eq
  lastKey_le := Nat.le_trans h.lastKey_le h'.lastKey_le
  member hle hm := h.member hle (h'.member (Nat.le_trans hle h.lastKey_le) hm)
  sound := h'.sound

theorem Onward.follows {s t : State} (h : s.Onward t) (hs : s.Sound) : s.Follows t where
  config_eq := h.config_eq
  identity_eq := h.identity_eq
  lastKey_le := Nat.le_of_eq h.lastKey_eq.symm
  member _ hm := h.member hm
  sound := h.sound hs

theorem Gone.follows {s t : State} {key : Nat} (h : s.Gone key) (ht : s.Follows t) :
    t.Gone key := by
  constructor
  · exact Nat.le_trans h.key_le ht.lastKey_le
  · cases hm : t.peers.contains key with
    | false => rfl
    | true =>
      have := ht.member h.key_le hm
      rw [h.not_member] at this
      cases this

theorem Sound.waiting_of_lt {s : State} (hs : s.Sound) {key : Nat} (h : s.lastKey < key) :
    s.waiting key = [] := by
  unfold waiting
  split
  next c hc =>
    have := hs.key_le hc
    omega
  next => rfl

/-! ## Changing connections -/

/-- Connections change in their queues, their readers and the order to stop; the table of peers
follows that order. -/
theorem follows_of_connections {s t : State} (hs : s.Sound) (hconfig : t.config = s.config)
    (hidentity : t.identity = s.identity) (hkey : t.lastKey = s.lastKey)
    (hpeers : t.peers = s.peers)
    (hfrom : ∀ {j d}, t.connections.get? j = some d → ∃ c, s.connections.get? j = some c ∧
      d.outbound.depth = c.outbound.depth ∧ d.cancelled = c.cancelled ∧ d.input.Sound s.readRules)
    (hto : ∀ {j c}, s.connections.get? j = some c → ∃ d, t.connections.get? j = some d) :
    s.Follows t where
  config_eq := hconfig
  identity_eq := hidentity
  lastKey_le := Nat.le_of_eq hkey.symm
  member _ hm := by rwa [hpeers] at hm
  sound := by
    refine hs.of_connections hconfig hidentity hkey (fun hm => by rwa [hpeers] at hm) hto
      fun {j d} hd => ?_
    obtain ⟨c, hc, hdepth, hcancelled, hreader⟩ := hfrom hd
    refine ⟨c, hc, hdepth, hreader, fun hiff => ?_⟩
    rw [hpeers, hcancelled]
    exact hiff

theorem follows_insert_queue {s : State} (hs : s.Sound) {key : Nat} {c : Connection} {q : Queue}
    (hc : s.connections.get? key = some c) (hdepth : q.depth = c.outbound.depth) :
    s.Follows { s with connections := s.connections.insert key { c with outbound := q } } := by
  refine follows_of_connections hs rfl rfl rfl rfl ?_ ?_
  · intro j d hd
    rw [KeyTable.get?_insert] at hd
    by_cases hj : j = key
    · subst hj
      rw [if_pos rfl] at hd
      cases hd
      have hreader := hs.reader_sound hc
      exact ⟨c, hc, hdepth, rfl, hreader⟩
    · rw [if_neg hj] at hd
      exact ⟨d, hd, rfl, rfl, hs.reader_sound hd⟩
  · intro j d hd
    rw [KeyTable.get?_insert]
    by_cases hj : j = key
    · exact ⟨_, if_pos hj⟩
    · exact ⟨d, by rw [if_neg hj, hd]⟩

theorem waiting_insert_queue (s : State) (key j : Nat) (c : Connection) (q : Queue) :
    State.waiting { s with connections := s.connections.insert key { c with outbound := q } } j =
      if j = key then q.frames else s.waiting j := by
  unfold waiting
  simp only [KeyTable.get?_insert]
  by_cases hj : j = key
  · simp only [if_pos hj]
  · simp only [if_neg hj]

/-! ## The inputs -/

theorem take_depth (q : Queue) (live : Bool) : (q.take live).2.depth = q.depth := by
  unfold Queue.take
  split <;> rfl

theorem take_reader (q : Queue) (live : Bool) : (q.take live).2.reader = q.reader := by
  unfold Queue.take
  split <;> rfl

theorem take_frames (q : Queue) (live : Bool) : (q.take live).2.frames = q.frames.drop 1 := by
  unfold Queue.take
  split
  next bytes rest h => exact (congrArg (List.drop 1) h).symm
  next h => exact h.trans (congrArg (List.drop 1) h).symm

/-- `t` is `s`, but for the queue of one connection at most, from which frames have been taken. -/
inductive Requeued (s : State) (key : Nat) : State → Prop where
  | same : s.Requeued key s
  | queue {c : Connection} (connection : s.connections.get? key = some c) (outbound : Queue)
      (depth_eq : outbound.depth = c.outbound.depth)
      (suffix : outbound.frames <:+ c.outbound.frames) :
      s.Requeued key
        { s with connections := s.connections.insert key { c with outbound := outbound } }

theorem requeued_takeOutbound (s : State) (key : Nat) : s.Requeued key (s.takeOutbound key).2 := by
  unfold takeOutbound
  cases hc : s.connections.get? key with
  | none => exact .same
  | some c =>
    simp only
    split
    · exact .same
    · apply Requeued.queue hc _ (take_depth ..)
      rw [take_frames]
      exact List.drop_suffix 1 _

/-- A queue that is dropped is empty from then on. -/
theorem requeued_dropQueue (s : State) (key : Nat) : s.Requeued key (s.dropQueue key).2 := by
  unfold dropQueue changeQueue
  cases hc : s.connections.get? key with
  | none => exact .same
  | some c =>
    simp only
    split
    · exact .same
    · exact .queue hc _ rfl List.nil_suffix

namespace Requeued

variable {s t : State} {key : Nat}

theorem follows (h : s.Requeued key t) (hs : s.Sound) : s.Follows t := by
  cases h with
  | same => exact Follows.refl hs
  | queue hc _ hdepth => exact follows_insert_queue hs hc hdepth

theorem waiting_other (h : s.Requeued key t) {j : Nat} (hj : j ≠ key) :
    t.waiting j = s.waiting j := by
  cases h with
  | same => rfl
  | queue => rw [waiting_insert_queue, if_neg hj]

theorem waiting_suffix (h : s.Requeued key t) (j : Nat) : t.waiting j <:+ s.waiting j := by
  by_cases hj : j = key
  · subst hj
    cases h with
    | same => exact List.suffix_refl _
    | queue hc _ _ hsuffix =>
      rw [waiting_insert_queue, if_pos rfl]
      unfold waiting
      rw [hc]
      exact hsuffix
  · rw [h.waiting_other hj]

theorem tables_eq (h : s.Requeued key t) :
    t.peers = s.peers ∧ t.lastKey = s.lastKey ∧ t.stopping = s.stopping := by
  cases h <;> exact ⟨rfl, rfl, rfl⟩

end Requeued

theorem after_connected {s : State} (hgoing : s.stopping = false) (now : Nat) (address : String) :
    s.after now (.connected address) = (s.accept address).2 := by
  show (if _ then _ else _) = _
  rw [hgoing]
  rfl

theorem accept_contains (s : State) (address : String) (j : Nat) :
    (s.accept address).2.peers.contains j =
      if j = s.lastKey + 1 then true else s.peers.contains j := by
  show (KeyTable.insert ..).contains j = _
  unfold KeyTable.contains
  rw [KeyTable.get?_insert]
  by_cases hj : j = s.lastKey + 1
  · rw [if_pos hj, if_pos hj]
    rfl
  · rw [if_neg hj, if_neg hj]

theorem accept_get? (s : State) (address : String) (j : Nat) :
    (s.accept address).2.connections.get? j =
      if j = s.lastKey + 1 then some ⟨.ofDepth s.config.queueDepth, .start, s.stopping⟩
      else s.connections.get? j :=
  KeyTable.get?_insert ..

theorem follows_accept {s : State} (hs : s.Sound) (hgoing : s.stopping = false)
    (address : String) : s.Follows (s.accept address).2 := by
  have hmember := accept_contains s address
  have hkey : (s.accept address).2.lastKey = s.lastKey + 1 := rfl
  -- A connection is the new one or one of before, which has a smaller key.
  have hfrom : ∀ {j d}, (s.accept address).2.connections.get? j = some d →
      j = s.lastKey + 1 ∧ d = ⟨.ofDepth s.config.queueDepth, .start, s.stopping⟩ ∨
        j ≠ s.lastKey + 1 ∧ s.connections.get? j = some d := by
    intro j d hd
    rw [accept_get?] at hd
    by_cases hj : j = s.lastKey + 1
    · rw [if_pos hj] at hd
      exact .inl ⟨hj, (Option.some.inj hd).symm⟩
    · rw [if_neg hj] at hd
      exact .inr ⟨hj, hd⟩
  refine ⟨rfl, rfl, by omega, ?_, ?_⟩
  · intro j hle hm
    rwa [hmember, if_neg (by omega)] at hm
  constructor
  case key_pos =>
    intro j d hd
    rcases hfrom hd with ⟨hj, -⟩ | ⟨-, hd⟩
    · omega
    · exact hs.key_pos hd
  case key_le =>
    intro j d hd
    rcases hfrom hd with ⟨hj, -⟩ | ⟨-, hd⟩
    · omega
    · have := hs.key_le hd
      omega
  case member_connected =>
    intro j hm
    rw [accept_get?]
    by_cases hj : j = s.lastKey + 1
    · exact ⟨_, if_pos hj⟩
    · rw [hmember, if_neg hj] at hm
      rw [if_neg hj]
      exact hs.member_connected hm
  case member_iff =>
    intro j d hd
    rw [hmember]
    rcases hfrom hd with ⟨hj, rfl⟩ | ⟨hj, hd⟩
    · simp [hj, hgoing]
    · rw [if_neg hj]
      exact hs.member_iff hd
  case depth_eq =>
    intro j d hd
    rcases hfrom hd with ⟨-, rfl⟩ | ⟨-, hd⟩
    · rfl
    · exact hs.depth_eq hd
  case reader_sound =>
    intro j d hd
    rcases hfrom hd with ⟨-, rfl⟩ | ⟨-, hd⟩
    · exact Reader.sound_start
    · exact hs.reader_sound hd

theorem waiting_accept {s : State} (hs : s.Sound) (address : String) (j : Nat) :
    (s.accept address).2.waiting j = s.waiting j := by
  by_cases hj : j = s.lastKey + 1
  · rw [hs.waiting_of_lt (by omega)]
    unfold waiting
    rw [accept_get?, if_pos hj]
    rfl
  · apply waiting_congr
    rw [accept_get?, if_neg hj]

theorem onward_disconnectAll (s : State) (keys : List Nat) : s.Onward (s.disconnectAll keys) := by
  induction keys generalizing s with
  | nil => exact Onward.refl s
  | cons key keys ih => exact (onward_disconnect s key .shutdown).trans (ih _)

theorem disconnectAll_spec {s : State} (keys : List Nat)
    (hstop : ∀ {j c}, s.connections.get? j = some c → c.cancelled = true) :
    (∀ j, (s.disconnectAll keys).connections.get? j = s.connections.get? j) ∧
      ∀ j, (s.disconnectAll keys).peers.contains j =
        (s.peers.contains j && decide (j ∉ keys)) := by
  induction keys generalizing s with
  | nil => exact ⟨fun j => rfl, fun j => by simp [disconnectAll]⟩
  | cons key keys ih =>
    -- They have all been told to stop already.
    have hsame : ∀ j, (s.disconnect key .shutdown).connections.get? j = s.connections.get? j := by
      intro j
      rw [disconnect_get?]
      split
      · cases hc : s.connections.get? j with
        | none => rfl
        | some c =>
          rw [Option.map_some, ← hstop hc]
      · rfl
    obtain ⟨hget, hmember⟩ :=
      ih (s := s.disconnect key .shutdown) fun {j c} hc => hstop (by rw [← hsame, hc])
    refine ⟨fun j => (hget j).trans (hsame j), fun j => ?_⟩
    refine (hmember j).trans ?_
    rw [disconnect_contains]
    by_cases hj : j = key <;> simp [hj]

theorem shutDown_spec {s : State} (hgoing : s.stopping = false) :
    s.shutDown.config = s.config ∧ s.shutDown.identity = s.identity ∧
      s.shutDown.lastKey = s.lastKey ∧
      (∀ j, s.shutDown.connections.get? j =
        (s.connections.get? j).map fun c => { c with cancelled := true }) ∧
      ∀ j, s.shutDown.peers.contains j = false := by
  unfold shutDown
  rw [hgoing, if_neg (by simp)]
  let told : State := { s with
    stopping := true
    connections := s.connections.mapValues fun _ c => { c with cancelled := true } }
  have honward := onward_disconnectAll (told.note .shutdownRequested) s.peers.keys
  obtain ⟨hget, hmember⟩ :=
    disconnectAll_spec (s := told.note .shutdownRequested) s.peers.keys fun {j c} hc => by
      obtain ⟨d, -, rfl⟩ := Option.map_eq_some_iff.1 ((KeyTable.get?_mapValues ..).symm.trans hc)
      rfl
  refine ⟨honward.config_eq, honward.identity_eq, honward.lastKey_eq, fun j => (hget j).trans ?_,
    fun j => (hmember j).trans ?_⟩
  · exact KeyTable.get?_mapValues ..
  · show (s.peers.contains j && decide (j ∉ s.peers.keys)) = false
    cases hm : s.peers.contains j with
    | false => rfl
    | true => simp [KeyTable.mem_keys_iff, hm]

theorem follows_shutDown {s : State} (hs : s.Sound) : s.Follows s.shutDown := by
  cases hstop : s.stopping with
  | true =>
    have : s.shutDown = s := by
      unfold shutDown
      rw [if_pos hstop]
    rw [this]
    exact Follows.refl hs
  | false =>
    obtain ⟨hconfig, hidentity, hkey, hget, hmember⟩ := shutDown_spec hstop
    have hnobody : ∀ {j}, s.shutDown.peers.contains j ≠ true := fun {j} hm => by
      rw [hmember] at hm
      cases hm
    refine ⟨hconfig, hidentity, Nat.le_of_eq hkey.symm, fun _ hm => absurd hm hnobody, ?_⟩
    refine hs.of_connections hconfig hidentity hkey (fun hm => absurd hm hnobody)
      (fun {j c} hc => ⟨_, by rw [hget, hc]; rfl⟩) fun {j d} hd => ?_
    rw [hget] at hd
    obtain ⟨c, hc, rfl⟩ := Option.map_eq_some_iff.1 hd
    have hreader := hs.reader_sound hc
    refine ⟨c, hc, rfl, hreader, fun _ => ?_⟩
    -- Every connection is told to stop, and nobody is a peer any more.
    rw [hmember]
    simp

theorem waiting_shutDown (s : State) (j : Nat) : s.shutDown.waiting j = s.waiting j := by
  cases hstop : s.stopping with
  | true =>
    unfold shutDown
    rw [if_pos hstop]
  | false =>
    obtain ⟨-, -, -, hget, -⟩ := shutDown_spec hstop
    unfold waiting
    rw [hget]
    cases s.connections.get? j <;> rfl

/-! ## Bytes that arrive -/

theorem handleAll_cons_none {s t : State} {key : Nat} {f : RawFrame} (fs : List RawFrame)
    (h : s.handle key f = (t, none)) : s.handleAll key (f :: fs) = t.handleAll key fs := by
  rw [handleAll, h]

theorem handleAll_cons_some {s t : State} {key : Nat} {f : RawFrame} {reason : Disconnect}
    (fs : List RawFrame) (h : s.handle key f = (t, some reason)) :
    s.handleAll key (f :: fs) = (t, some reason) := by
  rw [handleAll, h]

theorem onward_handleAll (s : State) (key : Nat) (fs : List RawFrame) :
    s.Onward (s.handleAll key fs).1 := by
  -- Up to the frame, if there is one, that makes the relay drop the sender.
  induction fs generalizing s with
  | nil => exact Onward.refl s
  | cons f fs ih =>
    have hf := onward_handle s key f
    cases h : s.handle key f with
    | mk t outcome =>
      rw [h] at hf
      cases outcome with
      | none =>
        rw [handleAll_cons_none fs h]
        exact hf.trans (ih t)
      | some reason =>
        rw [handleAll_cons_some fs h]
        exact hf

theorem handleAll_keeps_sender {s : State} {key : Nat} {fs : List RawFrame}
    (hm : s.peers.contains key = true) (h : (s.handleAll key fs).2 = none) :
    (s.handleAll key fs).1.peers.contains key = true := by
  induction fs generalizing s with
  | nil => exact hm
  | cons f fs ih =>
    cases hf : s.handle key f with
    | mk t outcome =>
      cases outcome with
      | none =>
        have hm' := handle_keeps_sender hm (congrArg Prod.snd hf)
        rw [hf] at hm'
        rw [handleAll_cons_none fs hf] at h ⊢
        exact ih hm' h
      | some reason =>
        rw [handleAll_cons_some fs hf] at h
        cases h

theorem follows_modify_input {s : State} (hs : s.Sound) (key : Nat) {input : Reader}
    (hinput : input.Sound s.readRules) :
    s.Follows { s with
      connections := s.connections.modify key fun c => { c with input := input } } := by
  refine follows_of_connections hs rfl rfl rfl rfl ?_ ?_
  · intro j d hd
    rw [KeyTable.get?_modify] at hd
    by_cases hj : j = key
    · rw [if_pos hj] at hd
      obtain ⟨c, hc, rfl⟩ := Option.map_eq_some_iff.1 hd
      exact ⟨c, hc, rfl, rfl, hinput⟩
    · rw [if_neg hj] at hd
      exact ⟨d, hd, rfl, rfl, hs.reader_sound hd⟩
  · intro j c hc
    rw [KeyTable.get?_modify]
    by_cases hj : j = key
    · exact ⟨_, by rw [if_pos hj, hc]; rfl⟩
    · exact ⟨c, by rw [if_neg hj, hc]⟩

theorem waiting_modify_input (s : State) (key j : Nat) (input : Reader) :
    State.waiting { s with
      connections := s.connections.modify key fun c => { c with input := input } } j =
        s.waiting j := by
  unfold waiting
  simp only [KeyTable.get?_modify]
  by_cases hj : j = key
  · rw [if_pos hj]
    cases s.connections.get? j <;> rfl
  · rw [if_neg hj]

theorem receive_of_not_reading {s : State} {sender : Nat} (hc : s.reading? sender = none)
    (now : Nat) (bytes : Bytes) : s.receive now sender bytes = s := by
  unfold receive
  rw [hc]

section Received

variable {s t : State} {key now : Nat} {c : Connection} {bytes : Bytes} {reason : Disconnect}

theorem receive_of_unanswered (hc : s.reading? key = some c)
    (h : s.handleAll key (c.input.feed s.readRules now bytes).1 = (t, some reason)) :
    s.receive now key bytes = t.disconnect key reason := by
  simp only [receive, hc, h]

theorem receive_of_refused (hc : s.reading? key = some c)
    (h : s.handleAll key (c.input.feed s.readRules now bytes).1 = (t, none))
    (hrest : (c.input.feed s.readRules now bytes).2 = .error reason) :
    s.receive now key bytes = t.disconnect key reason := by
  simp only [receive, hc, h, hrest]

theorem receive_of_read {input : Reader} (hc : s.reading? key = some c)
    (h : s.handleAll key (c.input.feed s.readRules now bytes).1 = (t, none))
    (hrest : (c.input.feed s.readRules now bytes).2 = .ok input) :
    s.receive now key bytes = { t with
      connections := t.connections.modify key fun c => { c with input := input } } := by
  simp only [receive, hc, h, hrest]

end Received

/-- What becomes of a peer whose bytes have arrived, once their frames have been acted on: it is
read from as before, or it is dropped. -/
theorem receive_cases {s : State} {key : Nat} {c : Connection}
    (hs : s.Sound) (hc : s.reading? key = some c) (now : Nat) (bytes : Bytes) :
    (∃ t next, s.handleAll key (c.input.feed s.readRules now bytes).1 = (t, none) ∧
      (c.input.feed s.readRules now bytes).2 = .ok next ∧ next.Sound s.readRules ∧
      s.receive now key bytes = { t with
        connections := t.connections.modify key fun c => { c with input := next } }) ∨
    (settled key (s.handleAll key (c.input.feed s.readRules now bytes).1)).Onward
        (s.receive now key bytes) ∧
      (∀ j, (s.receive now key bytes).waiting j =
        (settled key (s.handleAll key (c.input.feed s.readRules now bytes).1)).waiting j) ∧
      (s.receive now key bytes).peers.contains key = false := by
  have hreader := hs.reader_sound (hs.member_of_reading? hc).1
  obtain ⟨rest, -, -, hend⟩ := Reader.feed_spec now bytes hreader
  -- A frame that cannot be acted on is noticed before what the reader says about the rest.
  cases hall : s.handleAll key (c.input.feed s.readRules now bytes).1 with
  | mk t outcome =>
    cases outcome with
    | some reason =>
      rw [receive_of_unanswered hc hall]
      exact .inr ⟨Onward.refl _, fun _ => rfl, disconnect_not_member t key reason⟩
    | none =>
      rcases hend with ⟨next, hnext, hsound, -⟩ | ⟨hreason, -, -⟩
      · exact .inl ⟨t, next, rfl, hnext, hsound, receive_of_read hc hall hnext⟩
      · rw [receive_of_refused hc hall hreason]
        exact .inr ⟨onward_disconnect t key _,
          fun j => disconnect_waiting t key j _, disconnect_not_member t key _⟩

theorem follows_settled_receive {s : State} {key : Nat} {c : Connection}
    (hs : s.Sound) (hc : s.reading? key = some c) (now : Nat) (bytes : Bytes) :
    (settled key (s.handleAll key (c.input.feed s.readRules now bytes).1)).Follows
        (s.receive now key bytes) ∧
      ∀ j, (s.receive now key bytes).waiting j =
        (settled key (s.handleAll key (c.input.feed s.readRules now bytes).1)).waiting j := by
  have hall := onward_settled key
    (onward_handleAll s key (c.input.feed s.readRules now bytes).1)
  rcases receive_cases hs hc now bytes with ⟨t, next, ht, -, hnext, heq⟩ | ⟨ho, hw, -⟩
  · rw [ht] at hall ⊢
    rw [heq]
    refine ⟨follows_modify_input (hall.sound hs) key ?_, fun j => waiting_modify_input t key j next⟩
    -- No frame changes what the readers go by.
    have hrules := hall.readRules_eq
    change t.readRules = s.readRules at hrules
    change next.Sound t.readRules
    rw [hrules]
    exact hnext
  · exact ⟨ho.follows (hall.sound hs), hw⟩

theorem follows_receive {s : State} (hs : s.Sound) (now key : Nat) (bytes : Bytes) :
    s.Follows (s.receive now key bytes) := by
  cases hc : s.reading? key with
  | none =>
    rw [receive_of_not_reading hc]
    exact Follows.refl hs
  | some c =>
    have hall := onward_settled key
      (onward_handleAll s key (c.input.feed s.readRules now bytes).1)
    exact (hall.follows hs).trans (follows_settled_receive hs hc now bytes).1

theorem receive_tables_eq {s : State} (hs : s.Sound) (now key : Nat) (bytes : Bytes) :
    (s.receive now key bytes).lastKey = s.lastKey ∧
      (s.receive now key bytes).stopping = s.stopping := by
  cases hc : s.reading? key with
  | none =>
    rw [receive_of_not_reading hc]
    exact ⟨rfl, rfl⟩
  | some c =>
    have hall := onward_handleAll s key (c.input.feed s.readRules now bytes).1
    -- The frames are handled, and then the reader is put back or the peer dropped.
    rcases receive_cases hs hc now bytes with ⟨t, next, ht, -, -, heq⟩ | ⟨ho, -, -⟩
    · rw [ht] at hall
      rw [heq]
      exact ⟨hall.lastKey_eq, hall.stopping_eq⟩
    · have hboth := (onward_settled key hall).trans ho
      exact ⟨hboth.lastKey_eq, hboth.stopping_eq⟩

/-! ## Any input -/

theorem follows_of_drop {s t : State} (hs : s.Sound) {key : Nat}
    (h : t = s ∨ ∃ reason, t = s.disconnect key reason) :
    s.Follows t ∧ ∀ j, t.waiting j = s.waiting j := by
  rcases h with rfl | ⟨reason, rfl⟩
  · exact ⟨Follows.refl hs, fun _ => rfl⟩
  · exact ⟨(onward_disconnect s key reason).follows hs,
      fun j => disconnect_waiting s key j reason⟩

theorem inputEnded_cases (s : State) (key : Nat) :
    s.inputEnded key = s ∨ ∃ reason, s.inputEnded key = s.disconnect key reason := by
  unfold inputEnded
  split
  · exact .inl rfl
  · exact .inr ⟨_, rfl⟩

theorem inputFailed_cases (s : State) (key : Nat) (e : IoError) :
    s.inputFailed key e = s ∨ ∃ reason, s.inputFailed key e = s.disconnect key reason := by
  unfold inputFailed
  split
  · exact .inl rfl
  · exact .inr ⟨_, rfl⟩

theorem checkDeadline_cases (s : State) (now key : Nat) :
    s.checkDeadline now key = s ∨ ∃ reason, s.checkDeadline now key = s.disconnect key reason := by
  unfold checkDeadline
  split
  · exact .inl rfl
  · exact .inr ⟨_, rfl⟩

/-- Whatever happens, a sound relay goes on as a sound relay. -/
theorem follows_after {s : State} (hs : s.Sound) (now : Nat) (input : Input) :
    s.Follows (s.after now input) := by
  -- One lemma for each input; those that only drop a peer are taken together.
  cases input with
  | connected address =>
    unfold after
    cases h : s.stopping with
    | true => exact Follows.refl hs
    | false => exact follows_accept hs h address
  | arrived key bytes => exact follows_receive hs now key bytes
  | ended key => exact (follows_of_drop hs (inputEnded_cases s key)).1
  | readFailed key e => exact (follows_of_drop hs (inputFailed_cases s key e)).1
  | timer key => exact (follows_of_drop hs (checkDeadline_cases s now key)).1
  | taken key => exact (requeued_takeOutbound s key).follows hs
  | writeFailed key e => exact (follows_of_drop hs (.inr ⟨_, rfl⟩)).1
  | writerStopped key => exact (requeued_dropQueue s key).follows hs
  | shutDown => exact follows_shutDown hs

theorem follows_run {s : State} (hs : s.Sound) (inputs : List (Nat × Input)) :
    s.Follows (s.run inputs) := by
  -- Input by input, from the state that the one before leaves.
  induction inputs generalizing s with
  | nil => exact Follows.refl hs
  | cons i inputs ih =>
    obtain ⟨now, input⟩ := i
    have h := follows_after hs now input
    exact h.trans (ih h.sound)

/-- Only bytes that arrive put frames into queues. -/
theorem waiting_after_suffix {s : State} (hs : s.Sound) (now : Nat) {input : Input}
    (h : ∀ key bytes, input ≠ .arrived key bytes) (j : Nat) :
    (s.after now input).waiting j <:+ s.waiting j := by
  -- A peer that is dropped keeps what waits for it.
  have hdrop : ∀ {t key}, t = s ∨ (∃ reason, t = s.disconnect key reason) →
      t.waiting j <:+ s.waiting j := by
    intro t key ht
    rw [(follows_of_drop hs ht).2 j]
  cases input with
  | connected address =>
    change (if s.stopping then s else (s.accept address).2).waiting j <:+ s.waiting j
    split
    · exact List.suffix_refl _
    · rw [waiting_accept hs]
  | arrived key bytes => exact absurd rfl (h key bytes)
  | ended key => exact hdrop (inputEnded_cases s key)
  | readFailed key e => exact hdrop (inputFailed_cases s key e)
  | timer key => exact hdrop (checkDeadline_cases s now key)
  | taken key => exact (requeued_takeOutbound s key).waiting_suffix j
  | writeFailed key e => exact hdrop (.inr ⟨_, rfl⟩)
  | writerStopped key => exact (requeued_dropQueue s key).waiting_suffix j
  | shutDown =>
    have := waiting_shutDown s j
    change s.shutDown.waiting j <:+ s.waiting j
    rw [this]

end EvictionBus.Relay.State
