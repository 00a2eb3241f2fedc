import Mathlib.Data.List.Infix
import EvictionBus.Proofs.Relay.Reader
import EvictionBus.Relay.Input

/-!
# What a relay's operations change

A relay acts on frames by putting frames into queues and by dropping peers.  Both leave the
settings, the keys and the readers alone, and a frame that waits for a peer stays where it is.
`Onward` says so for every operation at once; what an operation does to the queue of one peer is
said beside it.
-/

namespace EvictionBus.Relay

/-- What handling frames never changes about a connection. -/
def Connection.fixed (c : Connection) : Reader × Nat × QueueReader :=
  (c.input, c.outbound.depth, c.outbound.reader)

namespace State

/-- The frames that wait for a peer. -/
def waiting (s : State) (key : Nat) : List Bytes :=
  match s.connections.get? key with
  | some c => c.outbound.frames
  | none => []

/-- Whether the queue of a peer has a reader and room. -/
def takes (s : State) (key : Nat) : Bool :=
  match s.connections.get? key with
  | some c => c.outbound.reader = .reading ∧ c.outbound.frames.length < c.outbound.depth
  | none => false

theorem waiting_congr {s t : State} {key : Nat}
    (h : t.connections.get? key = s.connections.get? key) : t.waiting key = s.waiting key := by
  unfold waiting
  rw [h]

theorem takes_congr {s t : State} {key : Nat}
    (h : t.connections.get? key = s.connections.get? key) : t.takes key = s.takes key := by
  unfold takes
  rw [h]

/-- The state of a relay as it comes about: the peers are the connections that have not been told
to stop, all queues are as deep as the settings say, and all readers hold a part of a frame. -/
structure Sound (s : State) : Prop where
  key_pos : ∀ {key c}, s.connections.get? key = some c → 0 < key
  key_le : ∀ {key c}, s.connections.get? key = some c → key ≤ s.lastKey
  member_connected : ∀ {key}, s.peers.contains key = true →
    ∃ c, s.connections.get? key = some c
  member_iff : ∀ {key c}, s.connections.get? key = some c →
    (s.peers.contains key = true ↔ c.cancelled = false)
  depth_eq : ∀ {key c}, s.connections.get? key = some c →
    c.outbound.depth = max 1 s.config.queueDepth
  reader_sound : ∀ {key c}, s.connections.get? key = some c → c.input.Sound s.readRules

theorem sound_start (config : Config) (identity : Identity) : (start config identity).Sound := by
  constructor
  · intro key c h
    cases h
  · intro key c h
    cases h
  · intro key h
    cases h
  · intro key c h
    cases h
  · intro key c h
    cases h
  · intro key c h
    cases h

/-- Connections that come from those of before: their queues are as deep, and whether they have been
told to stop agrees with the table of peers again. -/
theorem Sound.of_connections {s t : State} (hs : s.Sound) (hconfig : t.config = s.config)
    (hidentity : t.identity = s.identity) (hkey : t.lastKey = s.lastKey)
    (hmember : ∀ {key}, t.peers.contains key = true → s.peers.contains key = true)
    (hstays : ∀ {key c}, s.connections.get? key = some c → ∃ d, t.connections.get? key = some d)
    (hfrom : ∀ {key d}, t.connections.get? key = some d → ∃ c, s.connections.get? key = some c ∧
      d.outbound.depth = c.outbound.depth ∧ d.input.Sound s.readRules ∧
      ((s.peers.contains key = true ↔ c.cancelled = false) →
        (t.peers.contains key = true ↔ d.cancelled = false))) : t.Sound where
  key_pos hd := by
    obtain ⟨c, hc, -⟩ := hfrom hd
    exact hs.key_pos hc
  key_le hd := by
    obtain ⟨c, hc, -⟩ := hfrom hd
    rw [hkey]
    exact hs.key_le hc
  member_connected hm := by
    obtain ⟨c, hc⟩ := hs.member_connected (hmember hm)
    exact hstays hc
  member_iff hd := by
    obtain ⟨c, hc, -, -, hiff⟩ := hfrom hd
    exact hiff (hs.member_iff hc)
  depth_eq hd := by
    obtain ⟨c, hc, hdepth, -⟩ := hfrom hd
    rw [hconfig, hdepth]
    exact hs.depth_eq hc
  reader_sound hd := by
    obtain ⟨c, -, -, hreader, -⟩ := hfrom hd
    unfold readRules
    rw [hconfig, hidentity]
    exact hreader

theorem Sound.member_of_reading? {s : State} (h : s.Sound) {key : Nat} {c : Connection}
    (hr : s.reading? key = some c) :
    s.connections.get? key = some c ∧ s.peers.contains key = true := by
  obtain ⟨hc, hcancelled⟩ := Option.filter_eq_some_iff.1 hr
  refine ⟨hc, (h.member_iff hc).2 ?_⟩
  simpa using hcancelled

theorem Sound.reading?_of_member {s : State} (h : s.Sound) {key : Nat}
    (hm : s.peers.contains key = true) : (s.reading? key).isSome = true := by
  obtain ⟨c, hc⟩ := h.member_connected hm
  have hgoing := (h.member_iff hc).1 hm
  unfold reading?
  rw [hc, Option.isSome_filter, Option.any_some, hgoing]
  rfl

theorem Sound.length_waiting_le {s : State} (h : s.Sound) (key : Nat) :
    (s.waiting key).length ≤ max 1 s.config.queueDepth := by
  unfold waiting
  split
  next c hc =>
    rw [← h.depth_eq hc]
    exact c.outbound.length_le
  next => exact Nat.zero_le _

/-! ## Going on from a state -/

/-- `t` comes from `s` by putting frames into queues and dropping peers. -/
structure Onward (s t : State) : Prop where
  config_eq : t.config = s.config
  identity_eq : t.identity = s.identity
  lastKey_eq : t.lastKey = s.lastKey
  stopping_eq : t.stopping = s.stopping
  member : ∀ {key}, t.peers.contains key = true → s.peers.contains key = true
  fixed : ∀ key, (t.connections.get? key).map Connection.fixed =
    (s.connections.get? key).map Connection.fixed
  waiting : ∀ key, s.waiting key <+: t.waiting key
  sound : s.Sound → t.Sound

namespace Onward

variable {s t u : State}

theorem refl (s : State) : s.Onward s :=
  ⟨rfl, rfl, rfl, rfl, fun h => h, fun _ => rfl, fun _ => List.prefix_refl _, fun h => h⟩

theorem trans (h : s.Onward t) (h' : t.Onward u) : s.Onward u where
  config_eq := h'.config_eq.trans h.config_eq
  identity_eq := h'.identity_eq.trans h.identity_eq
  lastKey_eq := h'.lastKey_eq.trans h.lastKey_eq
  stopping_eq := h'.stopping_eq.trans h.stopping_eq
  member hm := h.member (h'.member hm)
  fixed key := (h'.fixed key).trans (h.fixed key)
  waiting key := (h.waiting key).trans (h'.waiting key)
  sound hs := h'.sound (h.sound hs)

theorem exists_connection (h : s.Onward t) {key : Nat} {c : Connection}
    (hc : s.connections.get? key = some c) :
    ∃ d, t.connections.get? key = some d ∧ d.input = c.input ∧
      d.outbound.depth = c.outbound.depth ∧ d.outbound.reader = c.outbound.reader := by
  have hf := h.fixed key
  rw [hc] at hf
  cases hd : t.connections.get? key with
  | none =>
    rw [hd] at hf
    cases hf
  | some d =>
    rw [hd] at hf
    simp only [Option.map_some, Option.some.injEq, Connection.fixed, Prod.mk.injEq] at hf
    exact ⟨d, rfl, hf.1, hf.2.1, hf.2.2⟩

theorem readRules_eq (h : s.Onward t) : t.readRules = s.readRules := by
  rw [State.readRules, State.readRules, h.identity_eq, h.config_eq]

end Onward

/-- Changing the journal, the counter or what is shown about the peers changes nothing else. -/
theorem onward_of_tables {s t : State} (hconfig : t.config = s.config)
    (hidentity : t.identity = s.identity) (hkey : t.lastKey = s.lastKey)
    (hstopping : t.stopping = s.stopping) (hconnections : t.connections = s.connections)
    (hpeers : ∀ key, t.peers.contains key = s.peers.contains key) : s.Onward t where
  config_eq := hconfig
  identity_eq := hidentity
  lastKey_eq := hkey
  stopping_eq := hstopping
  member hm := by rwa [hpeers] at hm
  fixed key := by rw [hconnections]
  waiting key := by
    rw [waiting_congr (congrArg (KeyTable.get? · key) hconnections)]
  sound hs := by
    refine hs.of_connections hconfig hidentity hkey (fun hm => by rwa [hpeers] at hm)
      (fun hc => ⟨_, by rw [hconnections]; exact hc⟩) fun {key d} hd => ?_
    rw [hconnections] at hd
    refine ⟨d, hd, rfl, hs.reader_sound hd, fun hiff => ?_⟩
    rw [hpeers]
    exact hiff

theorem onward_note (s : State) (e : Event) : s.Onward (s.note e) :=
  onward_of_tables rfl rfl rfl rfl rfl fun _ => rfl

/-- What is read off the journal grows by what its new entry says. -/
theorem filterMap_note {α : Type} (s : State) (e : Event) (f : Event → Option α) :
    (s.note e).journal.filterMap f = s.journal.filterMap f ++ (f e).toList := by
  show (s.journal ++ [e]).filterMap f = _
  rw [List.filterMap_append]
  cases h : f e <;> simp [h]

theorem filterMap_note_of_none {α : Type} (s : State) {e : Event} {f : Event → Option α}
    (h : f e = none) : (s.note e).journal.filterMap f = s.journal.filterMap f := by
  rw [filterMap_note, h]
  exact List.append_nil _

/-! ## Greetings -/

/-- A peer has been named, and the answer to its greeting is due. -/
def greeted (s : State) (key : Nat) (f : RawFrame) : State :=
  let name := String.ofList (Text.Utf8.decodeLossy f.payload)
  let s := { s with peers := s.peers.setNickname key name }
  s.note (.hello ((s.peers.nickname? key).getD ""))

def answerHello (s : State) (key : Nat) : State × Option Disconnect :=
  if s.peers.contains key then
    match s.enqueue key s.welcome with
    | .ok t => (t, none)
    | .error reason => (s, some reason)
  else (s, some .queueClosed)

theorem handleHello_eq (s : State) (key : Nat) (f : RawFrame) :
    s.handleHello key f = (s.greeted key f).answerHello key := rfl

/-! ## Dropping a peer -/

theorem disconnect_of_get?_eq_none {s : State} {key : Nat} (h : s.peers.get? key = none)
    (reason : Disconnect) : s.disconnect key reason = s := by
  unfold disconnect
  rw [h]

theorem disconnect_of_get? {s : State} {key : Nat} {p : Peer} (h : s.peers.get? key = some p)
    (reason : Disconnect) : s.disconnect key reason =
      State.note { s with
          peers := s.peers.erase key
          connections := s.connections.modify key fun c => { c with cancelled := true } }
        (.disconnected key p.nickname p.evictions reason (s.peers.erase key).size) := by
  unfold disconnect
  rw [h]
  rfl

theorem disconnect_get? (s : State) (key j : Nat) (reason : Disconnect) :
    (s.disconnect key reason).connections.get? j =
      if j = key ∧ s.peers.contains key = true then
        (s.connections.get? j).map fun c => { c with cancelled := true }
      else s.connections.get? j := by
  unfold disconnect
  cases hp : s.peers.get? key with
  | none =>
    rw [if_neg]
    simp [KeyTable.contains, hp]
  | some p =>
    by_cases hj : j = key
    · subst hj
      simp [KeyTable.contains, hp]
    · simp [hj]

theorem disconnect_contains (s : State) (key j : Nat) (reason : Disconnect) :
    (s.disconnect key reason).peers.contains j = (s.peers.contains j && decide (j ≠ key)) := by
  unfold disconnect
  cases hp : s.peers.get? key with
  | none =>
    by_cases hj : j = key
    · subst hj
      simp [KeyTable.contains, hp]
    · simp [hj]
  | some p =>
    by_cases hj : j = key
    · subst hj
      simp [KeyTable.contains]
    · simp [KeyTable.contains, hj]

theorem disconnect_not_member (s : State) (key : Nat) (reason : Disconnect) :
    (s.disconnect key reason).peers.contains key = false := by
  rw [disconnect_contains, decide_eq_false (by simp), Bool.and_false]

theorem disconnect_waiting (s : State) (key j : Nat) (reason : Disconnect) :
    (s.disconnect key reason).waiting j = s.waiting j := by
  unfold waiting
  rw [disconnect_get?]
  by_cases hj : j = key ∧ s.peers.contains key = true
  · rw [if_pos hj]
    cases s.connections.get? j <;> rfl
  · rw [if_neg hj]

theorem disconnect_settings (s : State) (key : Nat) (reason : Disconnect) :
    (s.disconnect key reason).config = s.config ∧
      (s.disconnect key reason).identity = s.identity ∧
      (s.disconnect key reason).lastKey = s.lastKey := by
  unfold disconnect
  split <;> exact ⟨rfl, rfl, rfl⟩

theorem onward_disconnect (s : State) (key : Nat) (reason : Disconnect) :
    s.Onward (s.disconnect key reason) where
  config_eq := (disconnect_settings s key reason).1
  identity_eq := (disconnect_settings s key reason).2.1
  lastKey_eq := (disconnect_settings s key reason).2.2
  stopping_eq := by
    unfold disconnect
    split <;> rfl
  member hm := by
    rw [disconnect_contains, Bool.and_eq_true] at hm
    exact hm.1
  fixed j := by
    rw [disconnect_get?]
    split
    · rw [Option.map_map]
      rfl
    · rfl
  waiting j := by
    rw [disconnect_waiting]
  sound hs := by
    obtain ⟨hconfig, hidentity, hkey⟩ := disconnect_settings s key reason
    refine hs.of_connections hconfig hidentity hkey (fun hm => ?_) (fun {j c} hc => ?_)
      fun {j d} hd => ?_
    · rw [disconnect_contains, Bool.and_eq_true] at hm
      exact hm.1
    · rw [disconnect_get?]
      split
      · exact ⟨_, by rw [hc]; rfl⟩
      · exact ⟨c, hc⟩
    · -- It is a connection of before, told to stop if it is the one of the peer dropped.
      rw [disconnect_get?] at hd
      split at hd
      next hj =>
        obtain ⟨c, hc, rfl⟩ := Option.map_eq_some_iff.1 hd
        have hreader := hs.reader_sound hc
        refine ⟨c, hc, rfl, hreader, fun _ => ?_⟩
        rw [disconnect_contains, hj.1]
        simp
      next hj =>
        refine ⟨d, hd, rfl, hs.reader_sound hd, fun hiff => ?_⟩
        rw [disconnect_contains, ← hiff]
        by_cases heq : j = key
        · subst heq
          simpa using hj
        · simp [heq]

theorem disconnect_other (s : State) {key j : Nat} (reason : Disconnect) (hj : j ≠ key) :
    (s.disconnect key reason).connections.get? j = s.connections.get? j ∧
      (s.disconnect key reason).peers.contains j = s.peers.contains j := by
  constructor
  · rw [disconnect_get?, if_neg fun h => hj h.1]
  · rw [disconnect_contains, decide_eq_true hj, Bool.and_true]

/-! ## Putting a frame into a queue -/

theorem push_eq_ok {q : Queue} (bytes : Bytes) (h : q.reader = .reading)
    (hroom : q.frames.length < q.depth) : ∃ r, q.push bytes = .ok r ∧
      r.frames = q.frames ++ [bytes] ∧ r.depth = q.depth ∧ r.reader = q.reader := by
  unfold Queue.push
  rw [if_pos h, dif_pos hroom]
  exact ⟨_, rfl, rfl, rfl, rfl⟩

theorem push_eq_error {q : Queue} (bytes : Bytes)
    (h : ¬ (q.reader = .reading ∧ q.frames.length < q.depth)) :
    ∃ refusal, q.push bytes = .error refusal := by
  unfold Queue.push
  by_cases hr : q.reader = .reading
  · rw [if_pos hr, dif_neg fun hroom => h ⟨hr, hroom⟩]
    exact ⟨_, rfl⟩
  · rw [if_neg hr]
    exact ⟨_, rfl⟩

theorem onward_insert {s : State} {key : Nat} {c : Connection} {q : Queue}
    (hc : s.connections.get? key = some c) (hframes : c.outbound.frames <+: q.frames)
    (hdepth : q.depth = c.outbound.depth) (hreader : q.reader = c.outbound.reader) :
    s.Onward { s with connections := s.connections.insert key { c with outbound := q } } where
  config_eq := rfl
  identity_eq := rfl
  lastKey_eq := rfl
  stopping_eq := rfl
  member hm := hm
  fixed j := by
    simp only [KeyTable.get?_insert]
    by_cases hj : j = key
    · subst hj
      rw [if_pos rfl, hc]
      simp only [Option.map_some, Connection.fixed, hdepth, hreader]
    · rw [if_neg hj]
  waiting j := by
    unfold State.waiting
    simp only [KeyTable.get?_insert]
    by_cases hj : j = key
    · subst hj
      rw [if_pos rfl, hc]
      exact hframes
    · rw [if_neg hj]
  sound hs := by
    -- What the invariant says about the connection holds of it with its new queue.
    refine hs.of_connections rfl rfl rfl (fun hm => hm) (fun {j e} he => ?_) fun {j d} hd => ?_
    · rw [KeyTable.get?_insert]
      by_cases hj : j = key
      · exact ⟨_, if_pos hj⟩
      · exact ⟨e, by rw [if_neg hj, he]⟩
    · rw [KeyTable.get?_insert] at hd
      by_cases hj : j = key
      · subst hj
        rw [if_pos rfl] at hd
        cases hd
        have hreader := hs.reader_sound hc
        exact ⟨c, hc, hdepth, hreader, fun hiff => hiff⟩
      · rw [if_neg hj] at hd
        exact ⟨d, hd, rfl, hs.reader_sound hd, fun hiff => hiff⟩

theorem enqueue_of_takes {s : State} {key : Nat} (bytes : Bytes) (h : s.takes key = true) :
    ∃ t, s.enqueue key bytes = .ok t ∧ s.Onward t ∧ t.peers = s.peers ∧
      t.waiting key = s.waiting key ++ [bytes] ∧
      ∀ j, j ≠ key → t.connections.get? j = s.connections.get? j := by
  unfold takes at h
  cases hc : s.connections.get? key with
  | none =>
    rw [hc] at h
    cases h
  | some c =>
    rw [hc] at h
    obtain ⟨hr, hroom⟩ := of_decide_eq_true h
    obtain ⟨q, hq, hframes, hdepth, hreader⟩ := push_eq_ok bytes hr hroom
    -- The frame goes to the end of the queue.
    have hgrown : c.outbound.frames <+: q.frames := by
      rw [hframes]
      exact List.prefix_append _ _
    refine ⟨{ s with connections := s.connections.insert key { c with outbound := q } },
      ?_, onward_insert hc hgrown hdepth hreader, rfl, ?_, ?_⟩
    · unfold enqueue
      rw [hc]
      simp only [hq]
    · unfold waiting
      simp only [KeyTable.get?_insert, if_pos, hc, hframes]
    · intro j hj
      simp only [KeyTable.get?_insert, if_neg hj]

theorem enqueue_of_not_takes {s : State} {key : Nat} (bytes : Bytes) (h : s.takes key = false) :
    ∃ reason, s.enqueue key bytes = .error reason := by
  unfold takes at h
  unfold enqueue
  cases hc : s.connections.get? key with
  | none => exact ⟨_, rfl⟩
  | some c =>
    rw [hc] at h
    obtain ⟨refusal, hpush⟩ := push_eq_error bytes (of_decide_eq_false h)
    simp only [hpush]
    cases refusal with
    | full => exact ⟨_, rfl⟩
    | closed => exact ⟨_, rfl⟩

/-! ## Offering a frame -/

theorem offer_of_not_takes {s : State} {key : Nat} (bytes : Bytes) (h : s.takes key = false) :
    ∃ reason, (offer bytes s key).1 = s.disconnect key reason := by
  obtain ⟨reason, hr⟩ := enqueue_of_not_takes bytes h
  exact ⟨reason, by unfold offer; rw [hr]⟩

theorem onward_offer (bytes : Bytes) (s : State) (key : Nat) : s.Onward (offer bytes s key).1 := by
  cases h : s.takes key with
  | true =>
    obtain ⟨t, ht, honward, -⟩ := enqueue_of_takes bytes h
    unfold offer
    rw [ht]
    exact honward
  | false =>
    obtain ⟨reason, hr⟩ := offer_of_not_takes bytes h
    rw [hr]
    exact onward_disconnect s key reason

theorem offer_other (bytes : Bytes) (s : State) {key j : Nat} (hj : j ≠ key) :
    (offer bytes s key).1.connections.get? j = s.connections.get? j ∧
      (offer bytes s key).1.peers.contains j = s.peers.contains j := by
  -- Whether the frame is taken or its peer dropped, only the connection of that peer changes.
  cases h : s.takes key with
  | true =>
    obtain ⟨t, ht, -, hpeers, -, hother⟩ := enqueue_of_takes bytes h
    unfold offer
    rw [ht]
    exact ⟨hother j hj, by rw [hpeers]⟩
  | false =>
    obtain ⟨reason, hr⟩ := offer_of_not_takes bytes h
    rw [hr]
    exact disconnect_other s reason hj

theorem onward_offerAll (bytes : Bytes) (s : State) (keys : List Nat) :
    s.Onward (offerAll bytes s keys).1 := by
  -- The frame is offered to one peer after the other.
  induction keys generalizing s with
  | nil => exact Onward.refl s
  | cons key keys ih => exact (onward_offer bytes s key).trans (ih _)

theorem offerAll_other (bytes : Bytes) (s : State) {keys : List Nat} {j : Nat} (hj : j ∉ keys) :
    (offerAll bytes s keys).1.connections.get? j = s.connections.get? j ∧
      (offerAll bytes s keys).1.peers.contains j = s.peers.contains j := by
  induction keys generalizing s with
  | nil => exact ⟨rfl, rfl⟩
  | cons key keys ih =>
    have hne : j ≠ key := fun e => hj (by rw [e]; exact List.mem_cons_self)
    obtain ⟨hc, hm⟩ := offer_other bytes s hne
    obtain ⟨hc', hm'⟩ := ih (offer bytes s key).1 fun hmem => hj (List.mem_cons_of_mem _ hmem)
    exact ⟨hc'.trans hc, hm'.trans hm⟩

/-- A peer to whom a frame is offered has it at the end of its queue, or is dropped. -/
theorem offerAll_mem (bytes : Bytes) (s : State) {keys : List Nat} {j : Nat} (hj : j ∈ keys)
    (hnodup : keys.Nodup) :
    (s.takes j = true → (offerAll bytes s keys).1.waiting j = s.waiting j ++ [bytes] ∧
      (offerAll bytes s keys).1.peers.contains j = s.peers.contains j) ∧
    (s.takes j = false → (offerAll bytes s keys).1.waiting j = s.waiting j ∧
      (offerAll bytes s keys).1.peers.contains j = false) := by
  -- Nobody is offered the frame twice, so the order of the peers does not matter.
  induction keys generalizing s with
  | nil => exact absurd hj List.not_mem_nil
  | cons key keys ih =>
    obtain ⟨hnot, hnodup'⟩ := List.nodup_cons.1 hnodup
    by_cases he : j = key
    · -- The keys after this one are those of other peers.
      subst he
      obtain ⟨hc, hm⟩ := offerAll_other bytes (offer bytes s j).1 hnot
      have hw := waiting_congr hc
      change ((s.takes j = true → (offerAll bytes (offer bytes s j).1 keys).1.waiting j = _ ∧
        (offerAll bytes (offer bytes s j).1 keys).1.peers.contains j = _) ∧ (s.takes j = false →
        (offerAll bytes (offer bytes s j).1 keys).1.waiting j = _ ∧
        (offerAll bytes (offer bytes s j).1 keys).1.peers.contains j = _))
      rw [hw, hm]
      constructor
      · intro htakes
        obtain ⟨t, ht, -, hpeers, hwaiting, -⟩ := enqueue_of_takes bytes htakes
        unfold offer
        rw [ht]
        exact ⟨hwaiting, by rw [hpeers]⟩
      · intro htakes
        obtain ⟨reason, hr⟩ := offer_of_not_takes bytes htakes
        rw [hr]
        exact ⟨disconnect_waiting s j j reason, disconnect_not_member s j reason⟩
    · obtain ⟨hc, hm⟩ := offer_other bytes s he
      have hmem : j ∈ keys := (List.mem_cons.1 hj).resolve_left he
      have := ih (offer bytes s key).1 hmem hnodup'
      rw [takes_congr hc, waiting_congr hc, hm] at this
      exact this

end State

end EvictionBus.Relay
