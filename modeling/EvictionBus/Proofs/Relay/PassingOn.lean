import EvictionBus.Proofs.Relay.Effects

/-!
# Passing an eviction on

A relay offers an eviction to all peers but the one it has come from, in the order in which it
happens to find them.  A queue that has a reader and room takes the frame, and a peer whose queue
does not is dropped.  What becomes of a peer depends on its own queue alone, so the order does not
matter, except for the numbers of peers that the journal says are left.
-/

namespace EvictionBus.Relay

/-! ## Offering a frame to one queue -/

/-- Why a queue does not take a frame, if it does not. -/
def Queue.obstacle? (q : Queue) : Option Refusal :=
  if q.reader ≠ .reading then some .closed
  else if q.depth ≤ q.frames.length then some .full
  else none

/-- Why a peer is dropped whose queue refuses a frame. -/
def Refusal.reason : Refusal → Disconnect
  | .full => .slowConsumer
  | .closed => .queueClosed

theorem Queue.push_of_obstacle {q : Queue} {refusal : Refusal} (h : q.obstacle? = some refusal)
    (bytes : Bytes) : q.push bytes = .error refusal := by
  unfold obstacle? at h
  unfold push
  split at h
  next hreader =>
    rw [if_neg hreader]
    cases h
    rfl
  next hreader =>
    rw [if_pos (Decidable.not_not.1 hreader)]
    split at h
    next hfull =>
      rw [dif_neg (Nat.not_lt.2 hfull)]
      cases h
      rfl
    next => cases h

theorem Queue.exists_push {q : Queue} (h : q.obstacle? = none) (bytes : Bytes) :
    ∃ r, q.push bytes = .ok r ∧ r.frames = q.frames ++ [bytes] ∧ r.depth = q.depth ∧
      r.reader = q.reader := by
  unfold obstacle? at h
  split at h
  · cases h
  next hreader =>
    split at h
    · cases h
    next hroom => exact State.push_eq_ok bytes (Decidable.not_not.1 hreader) (Nat.not_le.1 hroom)

/-- A connection whose queue has been offered a frame: it is told to stop if the queue has not taken
the frame. -/
def Connection.offered (bytes : Bytes) (c : Connection) : Connection :=
  match c.outbound.push bytes with
  | .ok q => { c with outbound := q }
  | .error _ => { c with cancelled := true }

/-! ## Farewells -/

/-- What the journal says of a peer that is dropped, apart from the number of peers left: its key,
its nickname, its evictions and the reason. -/
def Event.farewell? : Event → Option (Nat × String × Nat × Disconnect)
  | .disconnected key nickname evictions reason _ => some (key, nickname, evictions, reason)
  | _ => none

namespace State

/-- Why a peer cannot be handed a frame, if it cannot. -/
def obstacle? (s : State) (key : Nat) : Option Disconnect :=
  match s.connections.get? key with
  | some c => c.outbound.obstacle?.map Refusal.reason
  | none => some .queueClosed

/-- The farewell to a peer that cannot be handed a frame. -/
def farewell? (s : State) (key : Nat) : Option (Nat × String × Nat × Disconnect) :=
  (s.peers.get? key).bind fun p =>
    (s.obstacle? key).map fun reason => (key, p.nickname, p.evictions, reason)

/-- An eviction is passed on to peers in the order given. -/
def passOn (s : State) (sequence : Nat) (bytes : Bytes) (keys : List Nat) : State × Nat :=
  (s.note (.sending sequence bytes.length keys.length)).offerAll bytes keys

/-- The order that the relay takes is the one of the keys. -/
theorem fanOut_eq_passOn (s : State) (sequence origin : Nat) (bytes : Bytes) :
    s.fanOut sequence origin bytes = s.passOn sequence bytes (s.peers.recipients origin) := rfl

variable {s : State} {key : Nat}

/-! ## One peer -/

theorem offer_of_obstacle {reason : Disconnect} (h : s.obstacle? key = some reason)
    (bytes : Bytes) : offer bytes s key = (s.disconnect key reason, 0) := by
  unfold obstacle? at h
  unfold offer enqueue
  cases hc : s.connections.get? key with
  | none =>
    rw [hc] at h
    cases h
    rfl
  | some c =>
    rw [hc] at h
    obtain ⟨refusal, hrefusal, rfl⟩ := Option.map_eq_some_iff.1 h
    simp only [Queue.push_of_obstacle hrefusal]
    cases refusal <;> rfl

theorem exists_offer (h : s.obstacle? key = none) (bytes : Bytes) :
    ∃ c q, s.connections.get? key = some c ∧ c.outbound.push bytes = .ok q ∧
      q.frames = c.outbound.frames ++ [bytes] ∧ q.depth = c.outbound.depth ∧
      q.reader = c.outbound.reader ∧
      offer bytes s key =
        ({ s with connections := s.connections.insert key { c with outbound := q } }, 1) := by
  unfold obstacle? at h
  unfold offer enqueue
  cases hc : s.connections.get? key with
  | none =>
    rw [hc] at h
    cases h
  | some c =>
    rw [hc] at h
    obtain ⟨q, hq, hframes, hdepth, hreader⟩ :=
      Queue.exists_push (Option.map_eq_none_iff.1 h) bytes
    exact ⟨c, q, rfl, hq, hframes, hdepth, hreader, by simp only [hq]⟩

/-- What an offer says about other peers is what was said before. -/
theorem obstacle?_congr {t : State} (h : t.connections.get? key = s.connections.get? key) :
    t.obstacle? key = s.obstacle? key := by
  unfold obstacle?
  rw [h]

theorem offer_connection (hm : s.peers.contains key = true) (bytes : Bytes) (j : Nat) :
    (offer bytes s key).1.connections.get? j =
      if j = key then (s.connections.get? j).map (Connection.offered bytes)
      else s.connections.get? j := by
  cases ho : s.obstacle? key with
  | none =>
    obtain ⟨c, q, hc, hq, -, -, -, hoffer⟩ := exists_offer ho bytes
    rw [hoffer]
    change (s.connections.insert key { c with outbound := q }).get? j = _
    rw [KeyTable.get?_insert]
    split
    next hj =>
      rw [hj, hc, Option.map_some]
      unfold Connection.offered
      rw [hq]
    next => rfl
  | some reason =>
    rw [offer_of_obstacle ho]
    change (s.disconnect key reason).connections.get? j = _
    rw [disconnect_get?]
    simp only [hm, and_true]
    split
    next hj =>
      -- The connection is told to stop just as the refusal has it.
      subst hj
      unfold obstacle? at ho
      cases hc : s.connections.get? j with
      | none => rfl
      | some c =>
        rw [hc] at ho
        obtain ⟨refusal, hrefusal, -⟩ := Option.map_eq_some_iff.1 ho
        rw [Option.map_some, Option.map_some]
        unfold Connection.offered
        rw [Queue.push_of_obstacle hrefusal]
    next => rfl

theorem offer_peer (hm : s.peers.contains key = true) (bytes : Bytes) (j : Nat) :
    (offer bytes s key).1.peers.get? j =
      if j = key ∧ (s.obstacle? key).isSome = true then none else s.peers.get? j := by
  cases ho : s.obstacle? key with
  | none =>
    obtain ⟨c, q, -, -, -, -, -, hoffer⟩ := exists_offer ho bytes
    rw [hoffer, if_neg (by simp)]
  | some reason =>
    rw [offer_of_obstacle ho]
    obtain ⟨p, hp⟩ := Option.isSome_iff_exists.1 hm
    change (s.disconnect key reason).peers.get? j = _
    rw [disconnect_of_get? hp]
    change (s.peers.erase key).get? j = _
    rw [KeyTable.get?_erase]
    simp

theorem offer_count (s : State) (key : Nat) (bytes : Bytes) :
    (offer bytes s key).2 = if (s.obstacle? key).isNone = true then 1 else 0 := by
  cases ho : s.obstacle? key with
  | none =>
    obtain ⟨c, q, -, -, -, -, -, hoffer⟩ := exists_offer ho bytes
    rw [hoffer]
    rfl
  | some reason =>
    rw [offer_of_obstacle ho]
    rfl

theorem offer_journal (hm : s.peers.contains key = true) (bytes : Bytes) :
    ∃ events, (offer bytes s key).1.journal = s.journal ++ events ∧
      events.map Event.farewell? = (s.farewell? key).toList.map some := by
  obtain ⟨p, hp⟩ := Option.isSome_iff_exists.1 hm
  cases ho : s.obstacle? key with
  | none =>
    obtain ⟨c, q, -, -, -, -, -, hoffer⟩ := exists_offer ho bytes
    refine ⟨[], by rw [hoffer, List.append_nil], ?_⟩
    unfold farewell?
    rw [hp, ho]
    rfl
  | some reason =>
    refine ⟨_, by rw [offer_of_obstacle ho, disconnect_of_get? hp]; rfl, ?_⟩
    unfold farewell?
    rw [hp, ho]
    rfl

/-- Beside the peers, the connections and the journal an offer changes nothing. -/
theorem offer_rest (bytes : Bytes) (s : State) (key : Nat) :
    (offer bytes s key).1 = { s with
      peers := (offer bytes s key).1.peers
      connections := (offer bytes s key).1.connections
      journal := (offer bytes s key).1.journal } := by
  cases ho : s.obstacle? key with
  | none =>
    obtain ⟨c, q, -, -, -, -, -, hoffer⟩ := exists_offer ho bytes
    rw [hoffer]
  | some reason =>
    rw [offer_of_obstacle ho]
    unfold disconnect
    split <;> rfl

/-! ## Peers one after another -/

/-- What an offer to one peer leaves to be said about another. -/
theorem offer_apart (bytes : Bytes) {j : Nat} (hj : j ≠ key) (hm : s.peers.contains key = true) :
    (offer bytes s key).1.obstacle? j = s.obstacle? j ∧
      (offer bytes s key).1.peers.get? j = s.peers.get? j ∧
      (offer bytes s key).1.farewell? j = s.farewell? j := by
  have hobstacle : (offer bytes s key).1.obstacle? j = s.obstacle? j := by
    apply obstacle?_congr
    rw [offer_connection hm, if_neg hj]
  have hpeer : (offer bytes s key).1.peers.get? j = s.peers.get? j := by
    rw [offer_peer hm, if_neg fun h => hj h.1]
  refine ⟨hobstacle, hpeer, ?_⟩
  unfold farewell?
  rw [hobstacle, hpeer]

/-- What has been offered to peers one after another, each of them once. -/
structure Offered (s : State) (bytes : Bytes) (keys : List Nat) (t : State) (n : Nat) : Prop where
  connection : ∀ j, t.connections.get? j =
    if j ∈ keys then (s.connections.get? j).map (Connection.offered bytes)
    else s.connections.get? j
  peer : ∀ j, t.peers.get? j =
    if j ∈ keys ∧ (s.obstacle? j).isSome = true then none else s.peers.get? j
  count : n = keys.countP fun j => (s.obstacle? j).isNone
  journal : ∃ events, t.journal = s.journal ++ events ∧
    events.map Event.farewell? = (keys.filterMap s.farewell?).map some
  rest : t = { s with peers := t.peers, connections := t.connections, journal := t.journal }

theorem offered_nil (s : State) (bytes : Bytes) : s.Offered bytes [] s 0 where
  connection j := by rw [if_neg List.not_mem_nil]
  peer j := by rw [if_neg fun h => List.not_mem_nil h.1]
  count := rfl
  journal := ⟨[], by rw [List.append_nil], rfl⟩
  rest := rfl

/-- The frame is offered to a peer that it is not offered to later. -/
theorem Offered.cons {bytes : Bytes} {keys : List Nat} {t : State} {n : Nat} (hkey : key ∉ keys)
    (hm : s.peers.contains key = true)
    (h : (offer bytes s key).1.Offered bytes keys t n) :
    s.Offered bytes (key :: keys) t ((offer bytes s key).2 + n) := by
  have hapart : ∀ j ∈ keys, (offer bytes s key).1.obstacle? j = s.obstacle? j ∧
      (offer bytes s key).1.peers.get? j = s.peers.get? j ∧
      (offer bytes s key).1.farewell? j = s.farewell? j := by
    intro j hj
    exact offer_apart bytes (fun e => hkey (e ▸ hj)) hm
  constructor
  case connection =>
    intro j
    rw [h.connection, offer_connection hm]
    by_cases hj : j = key
    · subst hj
      rw [if_neg hkey, if_pos rfl, if_pos List.mem_cons_self]
    · rw [if_neg hj]
      simp only [List.mem_cons, hj, false_or]
  case peer =>
    intro j
    rw [h.peer, offer_peer hm]
    by_cases hj : j = key
    · subst hj
      rw [if_neg fun e => hkey e.1]
      simp
    · by_cases hmem : j ∈ keys
      · rw [(hapart j hmem).1]
        simp [hmem, hj]
      · simp [hmem, hj]
  case count =>
    have hcongr : (keys.countP fun j => ((offer bytes s key).1.obstacle? j).isNone) =
        keys.countP fun j => (s.obstacle? j).isNone :=
      List.countP_congr fun j hj => by rw [(hapart j hj).1]
    rw [h.count, hcongr, offer_count, List.countP_cons, Nat.add_comm]
  case journal =>
    obtain ⟨events, hfirst, hfarewell⟩ := offer_journal hm bytes
    obtain ⟨later, hlater, hfarewells⟩ := h.journal
    refine ⟨events ++ later, by rw [hlater, hfirst, List.append_assoc], ?_⟩
    have hcongr : keys.filterMap (offer bytes s key).1.farewell? = keys.filterMap s.farewell? :=
      List.filterMap_congr fun j hj => (hapart j hj).2.2
    rw [List.map_append, hfarewell, hfarewells, hcongr, ← List.map_append, List.filterMap_cons]
    cases s.farewell? key <;> rfl
  case rest =>
    rw [h.rest, offer_rest bytes s key]

theorem offered_offerAll {bytes : Bytes} {keys : List Nat} (hnodup : keys.Nodup)
    (hm : ∀ key ∈ keys, s.peers.contains key = true) :
    s.Offered bytes keys (offerAll bytes s keys).1 (offerAll bytes s keys).2 := by
  -- A peer that the frame is still to be offered to is in the table until then.
  induction keys generalizing s with
  | nil => exact offered_nil s bytes
  | cons key keys ih =>
    obtain ⟨hkey, hnodup⟩ := List.nodup_cons.1 hnodup
    have hself := hm key List.mem_cons_self
    refine Offered.cons hkey hself (ih hnodup fun j hj => ?_)
    have hpeer := (offer_apart bytes (fun e => hkey (e ▸ hj) : j ≠ key) hself).2.1
    unfold KeyTable.contains
    rw [hpeer]
    exact hm j (List.mem_cons_of_mem _ hj)

/-! ## All peers but the origin -/

/-- The farewells to the peers that cannot be handed an eviction, in the order of the keys. -/
def farewells (s : State) (origin : Nat) : List (Nat × String × Nat × Disconnect) :=
  (s.peers.recipients origin).filterMap s.farewell?

/-- An eviction has been passed on to all peers but its origin, and `n` queues have taken it. -/
structure PassedOn (s : State) (sequence origin : Nat) (bytes : Bytes) (t : State) (n : Nat) :
    Prop where
  /-- A queue with a reader and room takes the frame; all else about the peer stays. -/
  taken : ∀ {key p}, key ≠ origin → s.peers.get? key = some p → s.obstacle? key = none →
    t.peers.get? key = some p ∧ ∃ c q, s.connections.get? key = some c ∧
      t.connections.get? key = some { c with outbound := q } ∧
      q.frames = c.outbound.frames ++ [bytes] ∧ q.depth = c.outbound.depth ∧
      q.reader = c.outbound.reader
  /-- A peer whose queue is closed or full is dropped and told to stop; its queue stays. -/
  dropped : ∀ {key p reason}, key ≠ origin → s.peers.get? key = some p →
    s.obstacle? key = some reason →
    t.peers.get? key = none ∧
      t.connections.get? key =
        (s.connections.get? key).map (fun c => { c with cancelled := true }) ∧
      (key, p.nickname, p.evictions, reason) ∈ s.farewells origin
  untouched : ∀ {key}, key = origin ∨ s.peers.contains key = false →
    t.peers.get? key = s.peers.get? key ∧ t.connections.get? key = s.connections.get? key
  count : n = (s.peers.recipients origin).countP fun key => (s.obstacle? key).isNone
  total : n + (s.farewells origin).length = (s.peers.recipients origin).length
  /-- Everybody who is dropped is reported once. -/
  journal : ∃ events, t.journal =
      s.journal ++ .sending sequence bytes.length (s.peers.recipients origin).length :: events ∧
    (events.map Event.farewell?).Perm ((s.farewells origin).map some)
  rest : t = { s with peers := t.peers, connections := t.connections, journal := t.journal }

theorem contains_of_mem_recipients {origin : Nat} (h : key ∈ s.peers.recipients origin) :
    s.peers.contains key = true :=
  ((PeerTable.mem_recipients_iff s.peers origin key).1 h).1

/-- Some take the frame and all others are bidden farewell. -/
theorem countP_add_length_farewells (s : State) {keys : List Nat}
    (hm : ∀ key ∈ keys, s.peers.contains key = true) :
    (keys.countP fun key => (s.obstacle? key).isNone) + (keys.filterMap s.farewell?).length =
      keys.length := by
  induction keys with
  | nil => rfl
  | cons key keys ih =>
    have hkeys := ih fun j hj => hm j (List.mem_cons_of_mem _ hj)
    obtain ⟨p, hp⟩ := Option.isSome_iff_exists.1 (hm key List.mem_cons_self)
    rw [List.countP_cons, List.filterMap_cons, List.length_cons]
    unfold farewell? at hkeys ⊢
    rw [hp]
    cases s.obstacle? key with
    | none =>
      simp only [Option.bind_some, Option.map_none, Option.isNone_none, if_true]
      omega
    | some reason =>
      simp only [Option.bind_some, Option.map_some, Option.isNone_some, Bool.false_eq_true,
        if_false, List.length_cons]
      omega

theorem Offered.taken {bytes : Bytes} {keys : List Nat} {t : State} {n : Nat}
    (h : s.Offered bytes keys t n) (hmem : key ∈ keys) (ho : s.obstacle? key = none) :
    t.peers.get? key = s.peers.get? key ∧ ∃ c q, s.connections.get? key = some c ∧
      t.connections.get? key = some { c with outbound := q } ∧
      q.frames = c.outbound.frames ++ [bytes] ∧ q.depth = c.outbound.depth ∧
      q.reader = c.outbound.reader := by
  obtain ⟨c, q, hc, hq, hframes, hdepth, hreader, -⟩ := exists_offer ho bytes
  refine ⟨?_, c, q, hc, ?_, hframes, hdepth, hreader⟩
  · rw [h.peer, if_neg]
    rintro ⟨-, hsome⟩
    rw [ho] at hsome
    cases hsome
  · rw [h.connection, if_pos hmem, hc, Option.map_some]
    unfold Connection.offered
    rw [hq]

theorem Offered.dropped {bytes : Bytes} {keys : List Nat} {t : State} {n : Nat}
    (h : s.Offered bytes keys t n) (hmem : key ∈ keys) {reason : Disconnect}
    (ho : s.obstacle? key = some reason) :
    t.peers.get? key = none ∧
      t.connections.get? key =
        (s.connections.get? key).map (fun c => { c with cancelled := true }) := by
  refine ⟨?_, ?_⟩
  · rw [h.peer, if_pos]
    rw [ho]
    exact ⟨hmem, rfl⟩
  · rw [h.connection, if_pos hmem]
    unfold obstacle? at ho
    cases hc : s.connections.get? key with
    | none => rfl
    | some c =>
      rw [hc] at ho
      obtain ⟨refusal, hrefusal, -⟩ := Option.map_eq_some_iff.1 ho
      rw [Option.map_some, Option.map_some]
      unfold Connection.offered
      rw [Queue.push_of_obstacle hrefusal]

theorem Offered.passedOn {sequence origin : Nat} {bytes : Bytes} {keys : List Nat} {t : State}
    {n : Nat} (hkeys : keys.Perm (s.peers.recipients origin))
    (h : (s.note (.sending sequence bytes.length keys.length)).Offered bytes keys t n) :
    s.PassedOn sequence origin bytes t n := by
  have hmem : ∀ {key}, key ∈ keys ↔ s.peers.contains key = true ∧ key ≠ origin := by
    intro key
    rw [hkeys.mem_iff]
    exact PeerTable.mem_recipients_iff s.peers origin key
  have hcount : n = (s.peers.recipients origin).countP fun key => (s.obstacle? key).isNone :=
    h.count.trans (hkeys.countP_eq _)
  have hin : ∀ {key p}, key ≠ origin → s.peers.get? key = some p → key ∈ keys := by
    intro key p hkey hp
    exact hmem.2 ⟨by rw [KeyTable.contains, hp]; rfl, hkey⟩
  constructor
  case taken =>
    intro key p hkey hp ho
    obtain ⟨hpeer, htaken⟩ := h.taken (hin hkey hp) ho
    exact ⟨hpeer.trans hp, htaken⟩
  case dropped =>
    intro key p reason hkey hp ho
    obtain ⟨hpeer, hconnection⟩ := h.dropped (hin hkey hp) ho
    refine ⟨hpeer, hconnection, ?_⟩
    unfold farewells
    rw [List.mem_filterMap]
    refine ⟨key, hkeys.mem_iff.1 (hin hkey hp), ?_⟩
    unfold farewell?
    rw [hp, ho]
    rfl
  case untouched =>
    intro key hkey
    have hnot : key ∉ keys := by
      rw [hmem]
      rintro ⟨hm, hne⟩
      rcases hkey with rfl | hkey
      · exact hne rfl
      · rw [hm] at hkey
        cases hkey
    rw [h.peer, if_neg fun e => hnot e.1, h.connection, if_neg hnot]
    exact ⟨rfl, rfl⟩
  case count => exact hcount
  case total =>
    rw [hcount]
    exact countP_add_length_farewells s fun key => contains_of_mem_recipients
  case journal =>
    obtain ⟨events, hjournal, hfarewells⟩ := h.journal
    refine ⟨events, ?_, ?_⟩
    · rw [hjournal, hkeys.length_eq]
      exact List.append_assoc ..
    · rw [hfarewells]
      exact (hkeys.filterMap s.farewell?).map some
  case rest => exact h.rest

/-- The order of the peers shows in the journal only, and there in the numbers of peers left. -/
theorem Offered.same_of_perm {bytes : Bytes} {keys keys' : List Nat} {t t' : State} {n n' : Nat}
    (hkeys : keys.Perm keys') (h : s.Offered bytes keys t n) (h' : s.Offered bytes keys' t' n') :
    n = n' ∧ { t with journal := [] } = { t' with journal := [] } ∧
      (t.journal.filterMap Event.farewell?).Perm (t'.journal.filterMap Event.farewell?) := by
  have hpeers : t.peers = t'.peers := by
    apply KeyTable.ext_get?
    intro j
    rw [h.peer, h'.peer]
    simp only [hkeys.mem_iff]
  have hconnections : t.connections = t'.connections := by
    apply KeyTable.ext_get?
    intro j
    rw [h.connection, h'.connection]
    simp only [hkeys.mem_iff]
  refine ⟨?_, ?_, ?_⟩
  · rw [h.count, h'.count]
    exact hkeys.countP_eq _
  · rw [h.rest, h'.rest, hpeers, hconnections]
  · obtain ⟨events, hjournal, hfarewells⟩ := h.journal
    obtain ⟨events', hjournal', hfarewells'⟩ := h'.journal
    have hmap : ∀ es : List Event, es.filterMap Event.farewell? =
        (es.map Event.farewell?).filterMap id := by
      intro es
      rw [List.filterMap_map]
      rfl
    rw [hjournal, hjournal', List.filterMap_append, List.filterMap_append, hmap events,
      hmap events', hfarewells, hfarewells']
    exact (((hkeys.filterMap s.farewell?).map some).filterMap id).append_left _

/-- An eviction is passed on to everybody but its origin: the queues that can take it have it at
their end, the other peers are dropped, and nothing else changes.  The order in which the peers are
found does not matter. -/
theorem passedOn_in_any_order (s : State) (sequence origin : Nat) (bytes : Bytes) {keys : List Nat}
    (hkeys : keys.Perm (s.peers.recipients origin)) :
    s.PassedOn sequence origin bytes (s.passOn sequence bytes keys).1
        (s.passOn sequence bytes keys).2 ∧
      (s.passOn sequence bytes keys).2 = (s.fanOut sequence origin bytes).2 ∧
      { (s.passOn sequence bytes keys).1 with journal := [] } =
        { (s.fanOut sequence origin bytes).1 with journal := [] } ∧
      ((s.passOn sequence bytes keys).1.journal.filterMap Event.farewell?).Perm
        ((s.fanOut sequence origin bytes).1.journal.filterMap Event.farewell?) := by
  have hnodup := s.peers.nodup_recipients origin
  have hm : ∀ key ∈ keys, s.peers.contains key = true :=
    fun key h => contains_of_mem_recipients (hkeys.mem_iff.1 h)
  have hoffered : (s.note (.sending sequence bytes.length keys.length)).Offered bytes keys
      (s.passOn sequence bytes keys).1 (s.passOn sequence bytes keys).2 :=
    offered_offerAll (hkeys.nodup_iff.2 hnodup) hm
  have hfound : (s.note (.sending sequence bytes.length keys.length)).Offered bytes
      (s.peers.recipients origin) (s.fanOut sequence origin bytes).1
      (s.fanOut sequence origin bytes).2 := by
    rw [fanOut_eq_passOn, passOn, hkeys.length_eq]
    exact offered_offerAll hnodup fun key => contains_of_mem_recipients
  exact ⟨hoffered.passedOn hkeys, hoffered.same_of_perm hkeys hfound⟩

/-- Four peers with room for one frame each: the queue of the third is full, and the fourth one has
lost its reader. -/
def crowd : State :=
  let s := start ⟨.ofIpv4 .unspecified 9999, 100, ⟨5, 0⟩, 1, 5⟩
    ⟨List.replicate 16 21, List.length_replicate⟩
  let s := (((s.accept "a").2.accept "b").2.accept "c").2.accept "d"
  ((offer [1] s.2 3).1.dropQueue 4).2

theorem passedOn_in_any_order_crowd :
    [4, 2, 3].Perm (crowd.peers.recipients 1) ∧
      crowd.PassedOn 7 1 [2] (crowd.passOn 7 [2] [4, 2, 3]).1 (crowd.passOn 7 [2] [4, 2, 3]).2 ∧
      (crowd.passOn 7 [2] [4, 2, 3]).2 = 1 ∧
      crowd.farewells 1 = [(3, "c", 0, .slowConsumer), (4, "d", 0, .queueClosed)] := by
  have hkeys : [4, 2, 3].Perm (crowd.peers.recipients 1) := by decide
  exact ⟨hkeys, (passedOn_in_any_order crowd 7 1 [2] hkeys).1, by decide, by decide⟩

end State

end EvictionBus.Relay
