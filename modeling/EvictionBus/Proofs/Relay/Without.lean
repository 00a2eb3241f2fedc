import Mathlib.Data.List.Forall2
import Mathlib.Data.List.Sort
import EvictionBus.Proofs.Relay.Runs

/-!
# A relay without one connection

Two relays are compared: in one of them a connection has never come.  The connections that come
later have smaller keys there, by one; otherwise the two agree about everybody else.  What a relay
does for the others keeps it so, and so does what it does to the one connection alone.
-/

namespace EvictionBus.Relay

/-! ## Keys -/

/-- The key in a relay with connection `c` of what has this key in the relay without it. -/
def skip (c key : Nat) : Nat :=
  if key < c then key else key + 1

/-- The key in the relay without connection `c` of what has this other key in the relay with it. -/
def renumber (c key : Nat) : Nat :=
  if key < c then key else key - 1

variable {c i j : Nat}

theorem skip_ne (c i : Nat) : skip c i ≠ c := by
  unfold skip
  split <;> omega

theorem skip_lt_skip (h : i < j) : skip c i < skip c j := by
  unfold skip
  split <;> split <;> omega

@[simp] theorem skip_inj : skip c i = skip c j ↔ i = j := by
  refine ⟨fun h => ?_, fun h => by rw [h]⟩
  rcases Nat.lt_trichotomy i j with hlt | rfl | hlt
  · have := skip_lt_skip (c := c) hlt
    omega
  · rfl
  · have := skip_lt_skip (c := c) hlt
    omega

theorem skip_renumber (h : j ≠ c) : skip c (renumber c j) = j := by
  unfold renumber
  by_cases hj : j < c
  · rw [if_pos hj, skip, if_pos hj]
  · rw [if_neg hj, skip, if_neg (by omega)]
    omega

theorem keys_of_skip {α : Type} {t u : KeyTable α} (h : ∀ i, u.get? i = t.get? (skip c i)) :
    u.keys.map (skip c) = t.keys.filter (· ≠ c) := by
  refine List.Pairwise.eq_of_mem_iff (r := (· < ·)) ?_ (t.sorted_keys.filter _) fun key => ?_
  · exact List.pairwise_map.2 (u.sorted_keys.imp skip_lt_skip)
  · rw [List.mem_map, List.mem_filter, KeyTable.mem_keys_iff, decide_eq_true_eq]
    constructor
    · rintro ⟨i, hi, rfl⟩
      rw [KeyTable.mem_keys_iff, KeyTable.contains, h] at hi
      exact ⟨hi, skip_ne c i⟩
    · rintro ⟨hkey, hne⟩
      refine ⟨renumber c key, ?_, skip_renumber hne⟩
      rw [KeyTable.mem_keys_iff, KeyTable.contains, h, skip_renumber hne]
      exact hkey

/-! ## Events -/

/-- A peer is called the same, or both times by its key. -/
inductive SameLabel (c : Nat) : String → String → Prop where
  | same (label : String) : SameLabel c label label
  | key (i : Nat) : SameLabel c (keyText (skip c i)) (keyText i)

/-- Two relays, the first of them with connection `c`, report the same; the keys and the numbers of
peers may differ. -/
inductive Event.Same (c : Nat) : Event → Event → Prop where
  | listening (address : String) : Same c (.listening address) (.listening address)
  | accepted (i : Nat) (address : String) (n m : Nat) :
      Same c (.accepted (skip c i) address n) (.accepted i address m)
  | received (sequence : Nat) {label label' : String} (length evictions : Nat)
      (h : SameLabel c label label') :
      Same c (.received sequence label length evictions)
        (.received sequence label' length evictions)
  | sending (sequence size n m : Nat) : Same c (.sending sequence size n) (.sending sequence size m)
  | hello (name : String) : Same c (.hello name) (.hello name)
  | ignored {label label' : String} (op : OpCode) (length : Nat) (h : SameLabel c label label') :
      Same c (.ignored label op length) (.ignored label' op length)
  | disconnected (i : Nat) (nickname : String) (evictions : Nat) (reason : Disconnect) (n m : Nat) :
      Same c (.disconnected (skip c i) nickname evictions reason n)
        (.disconnected i nickname evictions reason m)
  | shutdownRequested : Same c .shutdownRequested .shutdownRequested
  | stopped (broadcasts : Nat) : Same c (.stopped broadcasts) (.stopped broadcasts)

/-- The event tells that a connection has come or gone. -/
def Event.isOf (c : Nat) : Event → Bool
  | .accepted key .. | .disconnected key .. => key = c
  | _ => false

/-- The event tells of a frame that nobody else gets to see. -/
def Event.isChat : Event → Bool
  | .hello _ | .ignored .. => true
  | _ => false

/-- The event is of connection `c`, or it tells of a frame that nobody else gets to see. -/
def Event.IsOwn (c : Nat) (e : Event) : Prop :=
  e.isOf c = true ∨ e.isChat = true

theorem Event.Same.isOf_eq {e e' : Event} (h : e.Same c e') : e.isOf c = false := by
  cases h with
  | accepted i => exact decide_eq_false (skip_ne c i)
  | disconnected i => exact decide_eq_false (skip_ne c i)
  | _ => rfl

/-! ## Side by side -/

namespace State

/-- `t` is what `s` would be if connection `c` had never come, apart from the journal. -/
structure Beside (c : Nat) (s t : State) : Prop where
  config_eq : t.config = s.config
  identity_eq : t.identity = s.identity
  lastKey_eq : t.lastKey = if c ≤ s.lastKey then s.lastKey - 1 else s.lastKey
  broadcasts_eq : t.broadcasts = s.broadcasts
  stopping_eq : t.stopping = s.stopping
  peer_eq : ∀ i, t.peers.get? i = s.peers.get? (skip c i)
  connection_eq : ∀ i, t.connections.get? i = s.connections.get? (skip c i)

/-- Since their journals were `js` and `jt`, both have reported the same about the others. -/
structure Mirrors (c : Nat) (js jt : List Event) (s t : State) : Prop extends Beside c s t where
  told : ∃ es et, s.journal = js ++ es ∧ t.journal = jt ++ et ∧
    List.Forall₂ (Event.Same c) (es.filter fun e => !e.isOf c) et

variable {js jt : List Event} {s s' t t' : State}

theorem Beside.mirrors (h : Beside c s t) : Mirrors c s.journal t.journal s t :=
  ⟨h, [], [], (List.append_nil _).symm, (List.append_nil _).symm, .nil⟩

theorem Mirrors.of_beside (h : Mirrors c js jt s t) (hb : Beside c s' t')
    (hs : s'.journal = s.journal) (ht : t'.journal = t.journal) : Mirrors c js jt s' t' := by
  obtain ⟨es, et, hes, het, hsame⟩ := h.told
  exact ⟨hb, es, et, hs.trans hes, ht.trans het, hsame⟩

theorem Mirrors.note (h : Mirrors c js jt s t) {e e' : Event} (he : e.Same c e') :
    Mirrors c js jt (s.note e) (t.note e') := by
  obtain ⟨es, et, hes, het, hsame⟩ := h.told
  refine ⟨⟨h.config_eq, h.identity_eq, h.lastKey_eq, h.broadcasts_eq, h.stopping_eq, h.peer_eq,
    h.connection_eq⟩, es ++ [e], et ++ [e'], ?_, ?_, ?_⟩
  · show s.journal ++ [e] = _
    rw [hes, List.append_assoc]
  · show t.journal ++ [e'] = _
    rw [het, List.append_assoc]
  · rw [List.filter_append, List.filter_cons_of_pos (by simp [he.isOf_eq])]
    exact List.rel_append hsame (.cons he .nil)

namespace Beside

theorem contains_eq (h : Beside c s t) (i : Nat) :
    t.peers.contains i = s.peers.contains (skip c i) := by
  unfold KeyTable.contains
  rw [h.peer_eq]

theorem nickname?_eq (h : Beside c s t) (i : Nat) :
    t.peers.nickname? i = s.peers.nickname? (skip c i) := by
  unfold PeerTable.nickname?
  rw [h.peer_eq]

theorem evictions?_eq (h : Beside c s t) (i : Nat) :
    t.peers.evictions? i = s.peers.evictions? (skip c i) := by
  unfold PeerTable.evictions?
  rw [h.peer_eq]

theorem sameLabel (h : Beside c s t) (i : Nat) :
    SameLabel c (s.peers.label (skip c i)) (t.peers.label i) := by
  unfold PeerTable.label
  rw [h.nickname?_eq]
  cases s.peers.nickname? (skip c i) with
  | none => exact .key i
  | some name => exact .same name

theorem recipients_eq (h : Beside c s t) (i : Nat) :
    (t.peers.recipients i).map (skip c) = (s.peers.recipients (skip c i)).filter (· ≠ c) := by
  unfold PeerTable.recipients
  rw [List.filter_comm, ← keys_of_skip h.peer_eq, List.filter_map]
  congr 1
  apply List.filter_congr
  intro j _
  simp

theorem readRules_eq (h : Beside c s t) : t.readRules = s.readRules := by
  unfold readRules
  rw [h.identity_eq, h.config_eq]

theorem welcome_eq (h : Beside c s t) : t.welcome = s.welcome := by
  unfold welcome
  rw [h.identity_eq]

theorem reading?_eq (h : Beside c s t) (i : Nat) : t.reading? i = s.reading? (skip c i) := by
  unfold reading?
  rw [h.connection_eq]

end Beside

/-! ## What is done for the others -/

/-- Both tables of connections change in the same place in the same way. -/
theorem Mirrors.insert (h : Mirrors c js jt s t) (i : Nat) (x : Connection) :
    Mirrors c js jt { s with connections := s.connections.insert (skip c i) x }
      { t with connections := t.connections.insert i x } := by
  refine h.of_beside ⟨h.config_eq, h.identity_eq, h.lastKey_eq, h.broadcasts_eq, h.stopping_eq,
    h.peer_eq, fun j => ?_⟩ rfl rfl
  simp only [KeyTable.get?_insert, skip_inj, h.connection_eq]

theorem Mirrors.modify (h : Mirrors c js jt s t) (i : Nat) (f : Connection → Connection) :
    Mirrors c js jt { s with connections := s.connections.modify (skip c i) f }
      { t with connections := t.connections.modify i f } := by
  refine h.of_beside ⟨h.config_eq, h.identity_eq, h.lastKey_eq, h.broadcasts_eq, h.stopping_eq,
    h.peer_eq, fun j => ?_⟩ rfl rfl
  simp only [KeyTable.get?_modify, skip_inj, h.connection_eq]

theorem Mirrors.modifyPeer (h : Mirrors c js jt s t) (i : Nat) (f : Peer → Peer) :
    Mirrors c js jt { s with peers := s.peers.modify (skip c i) f }
      { t with peers := t.peers.modify i f } := by
  refine h.of_beside ⟨h.config_eq, h.identity_eq, h.lastKey_eq, h.broadcasts_eq, h.stopping_eq,
    fun j => ?_, h.connection_eq⟩ rfl rfl
  simp only [KeyTable.get?_modify, skip_inj, h.peer_eq]

theorem Mirrors.erasePeer (h : Mirrors c js jt s t) (i : Nat) :
    Mirrors c js jt { s with peers := s.peers.erase (skip c i) }
      { t with peers := t.peers.erase i } := by
  refine h.of_beside ⟨h.config_eq, h.identity_eq, h.lastKey_eq, h.broadcasts_eq, h.stopping_eq,
    fun j => ?_, h.connection_eq⟩ rfl rfl
  simp only [KeyTable.get?_erase, skip_inj, h.peer_eq]

theorem Mirrors.disconnect (h : Mirrors c js jt s t) (i : Nat) (reason : Disconnect) :
    Mirrors c js jt (s.disconnect (skip c i) reason) (t.disconnect i reason) := by
  cases hp : s.peers.get? (skip c i) with
  | none =>
    rw [disconnect_of_get?_eq_none hp, disconnect_of_get?_eq_none (by rw [h.peer_eq, hp])]
    exact h
  | some p =>
    rw [disconnect_of_get? hp, disconnect_of_get? (by rw [h.peer_eq, hp])]
    exact ((h.erasePeer i).modify i _).note (.disconnected ..)

theorem Mirrors.enqueue (h : Mirrors c js jt s t) (i : Nat) (bytes : Bytes) :
    (∃ s' t', s.enqueue (skip c i) bytes = .ok s' ∧ t.enqueue i bytes = .ok t' ∧
      Mirrors c js jt s' t') ∨
    ∃ reason, s.enqueue (skip c i) bytes = .error reason ∧ t.enqueue i bytes = .error reason := by
  unfold State.enqueue
  rw [h.connection_eq]
  cases s.connections.get? (skip c i) with
  | none => exact .inr ⟨_, rfl, rfl⟩
  | some x =>
    cases hpush : x.outbound.push bytes with
    | ok q =>
      simp only [hpush]
      exact .inl ⟨_, _, rfl, rfl, h.insert i _⟩
    | error refusal =>
      simp only [hpush]
      cases refusal <;> exact .inr ⟨_, rfl, rfl⟩

theorem Mirrors.offer (h : Mirrors c js jt s t) (i : Nat) (bytes : Bytes) :
    Mirrors c js jt (State.offer bytes s (skip c i)).1 (State.offer bytes t i).1 := by
  unfold State.offer
  rcases h.enqueue i bytes with ⟨s', t', hs, ht, h'⟩ | ⟨reason, hs, ht⟩
  · rw [hs, ht]
    exact h'
  · rw [hs, ht]
    exact h.disconnect i reason

/-! ## What is done to the one connection -/

/-- Only connection `c` is concerned on the way from `s` to `t`, and all events are of a kind. -/
structure Apart (P : Event → Prop) (c : Nat) (s t : State) : Prop where
  config_eq : t.config = s.config
  identity_eq : t.identity = s.identity
  lastKey_eq : t.lastKey = s.lastKey
  broadcasts_eq : t.broadcasts = s.broadcasts
  stopping_eq : t.stopping = s.stopping
  peer_eq : ∀ j, j ≠ c → t.peers.get? j = s.peers.get? j
  connection_eq : ∀ j, j ≠ c → t.connections.get? j = s.connections.get? j
  told : ∃ es, t.journal = s.journal ++ es ∧ ∀ e ∈ es, P e

namespace Apart

variable {P : Event → Prop} {u : State}

theorem refl (P : Event → Prop) (c : Nat) (s : State) : Apart P c s s :=
  ⟨rfl, rfl, rfl, rfl, rfl, fun _ _ => rfl, fun _ _ => rfl, [], (List.append_nil _).symm,
    fun _ he => absurd he List.not_mem_nil⟩

theorem trans (h : Apart P c s t) (h' : Apart P c t u) : Apart P c s u where
  config_eq := h'.config_eq.trans h.config_eq
  identity_eq := h'.identity_eq.trans h.identity_eq
  lastKey_eq := h'.lastKey_eq.trans h.lastKey_eq
  broadcasts_eq := h'.broadcasts_eq.trans h.broadcasts_eq
  stopping_eq := h'.stopping_eq.trans h.stopping_eq
  peer_eq j hj := (h'.peer_eq j hj).trans (h.peer_eq j hj)
  connection_eq j hj := (h'.connection_eq j hj).trans (h.connection_eq j hj)
  told := by
    obtain ⟨es, hes, hP⟩ := h.told
    obtain ⟨es', hes', hP'⟩ := h'.told
    refine ⟨es ++ es', by rw [hes', hes, List.append_assoc], fun e he => ?_⟩
    exact (List.mem_append.1 he).elim (hP e) (hP' e)

theorem mono {Q : Event → Prop} (h : Apart P c s t) (hPQ : ∀ e, P e → Q e) : Apart Q c s t := by
  obtain ⟨es, hes, hP⟩ := h.told
  exact { h with told := ⟨es, hes, fun e he => hPQ e (hP e he)⟩ }

theorem note {e : Event} (he : P e) : Apart P c s (s.note e) :=
  ⟨rfl, rfl, rfl, rfl, rfl, fun _ _ => rfl, fun _ _ => rfl, [e], rfl, fun d hd => by
    rw [List.mem_singleton.1 hd]
    exact he⟩

theorem of_connections (x : KeyTable Connection)
    (hx : ∀ j, j ≠ c → x.get? j = s.connections.get? j) :
    Apart P c s { s with connections := x } :=
  ⟨rfl, rfl, rfl, rfl, rfl, fun _ _ => rfl, hx, [], (List.append_nil _).symm,
    fun _ he => absurd he List.not_mem_nil⟩

theorem of_peers (x : PeerTable) (hx : ∀ j, j ≠ c → x.get? j = s.peers.get? j) :
    Apart P c s { s with peers := x } :=
  ⟨rfl, rfl, rfl, rfl, rfl, hx, fun _ _ => rfl, [], (List.append_nil _).symm,
    fun _ he => absurd he List.not_mem_nil⟩

theorem insert (x : Connection) :
    Apart P c s { s with connections := s.connections.insert c x } :=
  of_connections _ fun j hj => by rw [KeyTable.get?_insert, if_neg hj]

theorem modify (f : Connection → Connection) :
    Apart P c s { s with connections := s.connections.modify c f } :=
  of_connections _ fun j hj => by rw [KeyTable.get?_modify, if_neg hj]

end Apart

theorem apart_disconnect (s : State) (c : Nat) (reason : Disconnect) :
    Apart (fun e => e.isOf c = true) c s (s.disconnect c reason) := by
  cases hp : s.peers.get? c with
  | none =>
    rw [disconnect_of_get?_eq_none hp]
    exact Apart.refl _ c s
  | some p =>
    rw [disconnect_of_get? hp]
    have herase : Apart (fun e => e.isOf c = true) c s { s with peers := s.peers.erase c } :=
      .of_peers _ fun j hj => by rw [KeyTable.get?_erase, if_neg hj]
    exact (herase.trans (.modify _)).trans (.note (decide_eq_true rfl))

theorem apart_enqueue {P : Event → Prop} {bytes : Bytes} (h : s.enqueue c bytes = .ok t) :
    Apart P c s t := by
  unfold enqueue at h
  cases hx : s.connections.get? c with
  | none =>
    rw [hx] at h
    cases h
  | some x =>
    rw [hx] at h
    cases hpush : x.outbound.push bytes with
    | ok q =>
      simp only [hpush] at h
      cases h
      exact .insert _
    | error refusal =>
      simp only [hpush] at h
      cases refusal <;> cases h

theorem apart_offer (s : State) (c : Nat) (bytes : Bytes) :
    Apart (fun e => e.isOf c = true) c s (State.offer bytes s c).1 := by
  unfold offer
  cases h : s.enqueue c bytes with
  | ok t => exact apart_enqueue h
  | error reason => exact apart_disconnect s c reason

theorem Beside.apart {P : Event → Prop} (h : Beside c s t) (ha : Apart P c s s') :
    Beside c s' t where
  config_eq := h.config_eq.trans ha.config_eq.symm
  identity_eq := h.identity_eq.trans ha.identity_eq.symm
  lastKey_eq := by rw [h.lastKey_eq, ha.lastKey_eq]
  broadcasts_eq := h.broadcasts_eq.trans ha.broadcasts_eq.symm
  stopping_eq := h.stopping_eq.trans ha.stopping_eq.symm
  peer_eq i := by rw [h.peer_eq, ha.peer_eq _ (skip_ne c i)]
  connection_eq i := by rw [h.connection_eq, ha.connection_eq _ (skip_ne c i)]

theorem Mirrors.apart (h : Mirrors c js jt s t) (ha : Apart (fun e => e.isOf c = true) c s s') :
    Mirrors c js jt s' t := by
  obtain ⟨es, et, hes, het, hsame⟩ := h.told
  obtain ⟨more, hmore, hown⟩ := ha.told
  refine ⟨h.toBeside.apart ha, es ++ more, et, ?_, het, ?_⟩
  · rw [hmore, hes, List.append_assoc]
  · -- The new events are left out.
    have hnone : more.filter (fun e => !e.isOf c) = [] :=
      List.filter_eq_nil_iff.2 fun e he => by simp [hown e he]
    rw [List.filter_append, hnone, List.append_nil]
    exact hsame

/-! ## Frames from the others -/

theorem Mirrors.offerAll (h : Mirrors c js jt s t) (bytes : Bytes) {keys left : List Nat}
    (hkeys : left.map (skip c) = keys.filter (· ≠ c)) :
    Mirrors c js jt (State.offerAll bytes s keys).1 (State.offerAll bytes t left).1 := by
  induction keys generalizing s t left with
  | nil =>
    cases List.map_eq_nil_iff.1 hkeys
    exact h
  | cons key keys ih =>
    by_cases hkey : key = c
    · -- Only the first relay has this peer.
      subst hkey
      rw [List.filter_cons_of_neg (by simp)] at hkeys
      exact ih (h.apart (apart_offer s key bytes)) hkeys
    · rw [List.filter_cons_of_pos (by simpa using hkey)] at hkeys
      obtain ⟨i, left, rfl, rfl, hleft⟩ := List.map_eq_cons_iff.1 hkeys
      exact ih (h.offer i bytes) hleft

theorem Mirrors.nextSequence (h : Mirrors c js jt s t) :
    t.nextSequence.1 = s.nextSequence.1 ∧ Mirrors c js jt s.nextSequence.2 t.nextSequence.2 := by
  refine ⟨congrArg (· + 1) h.broadcasts_eq, h.of_beside ⟨h.config_eq, h.identity_eq, h.lastKey_eq,
    congrArg (· + 1) h.broadcasts_eq, h.stopping_eq, h.peer_eq, h.connection_eq⟩ rfl rfl⟩

theorem Mirrors.fanOut (h : Mirrors c js jt s t) (sequence i : Nat) (bytes : Bytes) :
    Mirrors c js jt (s.fanOut sequence (skip c i) bytes).1 (t.fanOut sequence i bytes).1 :=
  (h.note (.sending ..)).offerAll bytes (h.recipients_eq i)

theorem Mirrors.handleEviction (h : Mirrors c js jt s t) (i : Nat) (f : RawFrame) :
    Mirrors c js jt (s.handleEviction (skip c i) f) (t.handleEviction i f) := by
  have hcounted := h.modifyPeer i fun p => { p with evictions := p.evictions + 1 }
  obtain ⟨hsequence, hnumbered⟩ := hcounted.nextSequence
  have hevictions := hcounted.evictions?_eq i
  have hlabel := hcounted.sameLabel i
  unfold State.handleEviction PeerTable.recordEviction
  simp only
  rw [hsequence, hevictions]
  exact (hnumbered.note (.received _ _ _ hlabel)).fanOut _ i _

theorem Mirrors.handleHello (h : Mirrors c js jt s t) (i : Nat) (f : RawFrame) :
    Mirrors c js jt (s.handleHello (skip c i) f).1 (t.handleHello i f).1 ∧
      (t.handleHello i f).2 = (s.handleHello (skip c i) f).2 := by
  rw [handleHello_eq, handleHello_eq]
  have hgreeted : Mirrors c js jt (s.greeted (skip c i) f) (t.greeted i f) := by
    have hnamed := h.modifyPeer i fun p =>
      { p with nickname := s!"{String.ofList (Text.Utf8.decodeLossy f.payload)} ({p.address})" }
    have hname := hnamed.nickname?_eq i
    unfold greeted PeerTable.setNickname
    simp only
    rw [hname]
    exact hnamed.note (.hello _)
  unfold answerHello
  rw [hgreeted.contains_eq, hgreeted.welcome_eq]
  split
  · rcases hgreeted.enqueue i (s.greeted (skip c i) f).welcome with
      ⟨s', t', hs, ht, h'⟩ | ⟨reason, hs, ht⟩
    · rw [hs, ht]
      exact ⟨h', rfl⟩
    · rw [hs, ht]
      exact ⟨hgreeted, rfl⟩
  · exact ⟨hgreeted, rfl⟩

theorem Mirrors.handle (h : Mirrors c js jt s t) (i : Nat) (f : RawFrame) :
    Mirrors c js jt (s.handle (skip c i) f).1 (t.handle i f).1 ∧
      (t.handle i f).2 = (s.handle (skip c i) f).2 := by
  unfold State.handle
  cases f.header.op with
  | evict =>
    simp only
    split
    · exact ⟨h.handleEviction i f, rfl⟩
    · exact ⟨h.note (.ignored _ _ (h.sameLabel i)), rfl⟩
  | hello => exact h.handleHello i f
  | welcome => exact ⟨h.note (.ignored _ _ (h.sameLabel i)), rfl⟩
  | other code => exact ⟨h.note (.ignored _ _ (h.sameLabel i)), rfl⟩

theorem Mirrors.handleAll (h : Mirrors c js jt s t) (i : Nat) (fs : List RawFrame) :
    Mirrors c js jt (s.handleAll (skip c i) fs).1 (t.handleAll i fs).1 ∧
      (t.handleAll i fs).2 = (s.handleAll (skip c i) fs).2 := by
  induction fs generalizing s t with
  | nil => exact ⟨h, rfl⟩
  | cons f fs ih =>
    obtain ⟨h', hrefused⟩ := h.handle i f
    unfold State.handleAll
    cases hs : s.handle (skip c i) f with
    | mk s' refused =>
      cases ht : t.handle i f with
      | mk t' refused' =>
        rw [hs, ht] at h' hrefused
        cases hrefused
        cases refused with
        | none => exact ih h'
        | some reason => exact ⟨h', rfl⟩

end State

end EvictionBus.Relay
