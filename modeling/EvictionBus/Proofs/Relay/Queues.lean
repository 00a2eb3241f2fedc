import EvictionBus.Proofs.Relay.Interleaving

/-!
# The queue of one peer

Whatever the tasks of a relay do, a step of one of them opens the queue of a peer, puts a frame at
its end, takes the first one out, or drops it with all that is in it; most steps leave it alone.
The frames that come out of a queue are therefore the ones that have gone in, in order, and as long
as somebody reads the queue the others are still there.
-/

namespace EvictionBus.Relay

/-! ## One queue -/

def Taken.frames : Taken → List Bytes
  | .frame bytes => [bytes]
  | .empty | .closed => []

namespace Queue

variable {depth : Nat} {before after : Option Queue} {put out : List Bytes}

/-- What may become of the queue of a connection in one step: the frames `put` go in, and `out` come
out. -/
inductive Moves (depth : Nat) : Option Queue → List Bytes → List Bytes → Option Queue → Prop where
  | same (q : Option Queue) : Moves depth q [] [] q
  | opened : Moves depth none [] [] (some (.ofDepth depth))
  | put {q r : Queue} {bytes : Bytes} (taken : q.push bytes = .ok r) :
    Moves depth (some q) [bytes] [] (some r)
  | taken (q : Queue) (live : Bool) :
    Moves depth (some q) [] (q.take live).1.frames (some (q.take live).2)
  /-- Its reader goes away, and the frames with it. -/
  | dropped (q : Queue) : Moves depth (some q) [] [] (some q.drop)

/-- The frames that wait. -/
def waiting (q : Option Queue) : List Bytes :=
  q.elim [] Queue.frames

/-- Of the frames that have been put into a queue some have come out and others wait.  The rest was
in the queue when its reader went away. -/
structure Tells (depth : Nat) (q : Option Queue) (put out : List Bytes) : Prop where
  depth_eq : ∀ {r}, q = some r → r.depth = max 1 depth
  frames_eq : ∃ lost, put = out ++ waiting q ++ lost ∧
    (lost ≠ [] → ∃ r, q = some r ∧ r.reader = .gone)

theorem frames_take (q : Queue) (live : Bool) :
    q.frames = (q.take live).1.frames ++ (q.take live).2.frames := by
  unfold take
  split
  next bytes rest h => exact h
  next h =>
    rw [h]
    split <;> rfl

theorem push_kept {q r : Queue} {bytes : Bytes} (h : q.push bytes = .ok r) :
    q.reader = .reading ∧ r.depth = q.depth := by
  unfold push at h
  split at h
  next hreading =>
    split at h
    next => cases h; exact ⟨hreading, rfl⟩
    next => cases h
  next => cases h

theorem Moves.tells (h : Moves depth before put out after) {puts outs : List Bytes}
    (ht : Tells depth before puts outs) : Tells depth after (puts ++ put) (outs ++ out) := by
  obtain ⟨lost, hlost, hgone⟩ := ht.frames_eq
  cases h with
  | same =>
    rw [List.append_nil, List.append_nil]
    exact ht
  | opened =>
    have hnone : lost = [] := by
      by_contra hne
      obtain ⟨r, hr, -⟩ := hgone hne
      cases hr
    rw [List.append_nil, List.append_nil]
    exact ⟨fun hr => by cases hr; rfl, [], by rw [hlost, hnone]; rfl, fun h => absurd rfl h⟩
  | @put q r bytes htaken =>
    obtain ⟨hreading, hdepth⟩ := push_kept htaken
    -- Somebody reads the queue, so that nothing has been lost.
    have hnone : lost = [] := by
      by_contra hne
      obtain ⟨q', hq', hreader⟩ := hgone hne
      cases hq'
      rw [hreading] at hreader
      cases hreader
    refine ⟨fun hr => ?_, [], ?_, fun h => absurd rfl h⟩
    · cases hr
      exact hdepth.trans (ht.depth_eq rfl)
    · show puts ++ [bytes] = outs ++ [] ++ r.frames ++ []
      rw [hlost, hnone, frames_push htaken, List.append_nil, List.append_nil, List.append_nil,
        List.append_assoc]
      rfl
  | taken q live =>
    refine ⟨fun hr => ?_, lost, ?_, fun hne => ?_⟩
    · cases hr
      exact (State.take_depth q live).trans (ht.depth_eq rfl)
    · rw [List.append_nil, hlost, List.append_assoc outs (q.take live).1.frames]
      exact congrArg (outs ++ · ++ lost) (frames_take q live)
    · obtain ⟨q', hq', hreader⟩ := hgone hne
      cases hq'
      exact ⟨_, rfl, (State.take_reader q live).trans hreader⟩
  | dropped q =>
    refine ⟨fun hr => ?_, q.frames ++ lost, ?_, fun _ => ⟨_, rfl, rfl⟩⟩
    · cases hr
      show q.depth = _
      exact ht.depth_eq rfl
    · show puts ++ [] = outs ++ [] ++ [] ++ (q.frames ++ lost)
      rw [List.append_nil, hlost, List.append_nil, List.append_nil, List.append_assoc]
      rfl

theorem Tells.length_waiting_le (h : Tells depth before put out) :
    (waiting before).length ≤ max 1 depth := by
  cases before with
  | none => exact Nat.zero_le _
  | some q =>
    rw [← h.depth_eq rfl]
    exact q.length_le

end Queue

/-! ## What is put into queues -/

/-- What the next step of the reader of a connection puts into the queue of a peer. -/
def Work.puts (s : State) (sender key : Nat) : Work → List Offer
  | .offering bytes (j :: _) => if j = key ∧ s.takes key then [⟨sender, bytes⟩] else []
  | .answering => if sender = key ∧ s.takes key then [⟨sender, s.welcome⟩] else []
  | _ => []

namespace State

variable {s s' : State} {key j : Nat} {put out : List Bytes}

/-- The queue of a connection. -/
def outbound? (s : State) (key : Nat) : Option Queue :=
  (s.connections.get? key).map Connection.outbound

theorem waiting_eq (s : State) (key : Nat) : s.waiting key = Queue.waiting (s.outbound? key) := by
  unfold waiting outbound?
  cases s.connections.get? key <;> rfl

/-- What a step of a task does to a peer: its queue moves, it may leave the table, and it comes only
when it has had no queue before. -/
structure Moves (s : State) (key : Nat) (put out : List Bytes) (s' : State) : Prop where
  config_eq : s'.config = s.config
  identity_eq : s'.identity = s.identity
  queue : Queue.Moves s.config.queueDepth (s.outbound? key) put out (s'.outbound? key)
  member : s'.peers.contains key = true → s.peers.contains key = true ∨ s.outbound? key = none

theorem moves_of_same (hconfig : s'.config = s.config) (hidentity : s'.identity = s.identity)
    (hqueue : s'.outbound? key = s.outbound? key)
    (hm : s'.peers.contains key = true → s.peers.contains key = true) : s.Moves key [] [] s' := by
  refine ⟨hconfig, hidentity, ?_, fun h => .inl (hm h)⟩
  rw [hqueue]
  exact .same _

theorem moves_modify (s : State) (key j : Nat) {f : Connection → Connection}
    (hf : ∀ c, (f c).outbound = c.outbound) :
    s.Moves key [] [] { s with connections := s.connections.modify j f } := by
  refine moves_of_same rfl rfl ?_ id
  show (KeyTable.get? _ key).map Connection.outbound = _
  rw [KeyTable.get?_modify]
  split
  · rw [Option.map_map, show Connection.outbound ∘ f = Connection.outbound from funext hf]
    rfl
  · rfl

theorem moves_cancelAll (s : State) (key : Nat) : s.Moves key [] [] s.cancelAll := by
  refine moves_of_same rfl rfl ?_ id
  unfold cancelAll outbound?
  rw [KeyTable.get?_mapValues, Option.map_map]
  rfl

theorem outbound?_insert {c : Connection} {outbound : Queue} :
    State.outbound? { s with
        connections := s.connections.insert j { c with outbound := outbound } } key =
      if key = j then some outbound else s.outbound? key := by
  unfold outbound?
  rw [KeyTable.get?_insert]
  split <;> rfl

theorem outbound?_of_get? {c : Connection} (hc : s.connections.get? key = some c) :
    s.outbound? key = some c.outbound := by
  unfold outbound?
  rw [hc]
  rfl

/-- The queue of one connection is put back, and those of the others stay as they are. -/
theorem moves_insert (key : Nat) {c : Connection} {outbound : Queue}
    (hc : s.connections.get? j = some c)
    (hmoves : Queue.Moves s.config.queueDepth (some c.outbound) put out (some outbound)) :
    s.Moves key (if j = key then put else []) (if j = key then out else [])
      { s with connections := s.connections.insert j { c with outbound := outbound } } := by
  refine ⟨rfl, rfl, ?_, .inl⟩
  rw [outbound?_insert]
  by_cases hj : j = key
  · subst hj
    rw [if_pos rfl, if_pos rfl, if_pos rfl, outbound?_of_get? hc]
    exact hmoves
  · rw [if_neg hj, if_neg hj, if_neg (Ne.symm hj)]
    exact .same _

theorem moves_enqueue {bytes : Bytes} (h : s.enqueue j bytes = .ok s') (key : Nat) :
    s.Moves key (if j = key then [bytes] else []) [] s' := by
  unfold enqueue at h
  split at h
  next => cases h
  next c hc =>
    split at h
    next q hq =>
      cases h
      have hmoves := moves_insert key hc (Queue.Moves.put hq)
      rwa [ite_self] at hmoves
    all_goals cases h

theorem moves_takeOutbound (s : State) (key j : Nat) :
    s.Moves key [] (if j = key then (s.takeOutbound j).1.elim [] Taken.frames else [])
      (s.takeOutbound j).2 := by
  unfold takeOutbound
  cases hc : s.connections.get? j with
  | none =>
    rw [Option.elim_none, ite_self]
    exact moves_of_same rfl rfl rfl id
  | some c =>
    simp only
    by_cases hgone : c.outbound.reader = .gone
    · rw [if_pos hgone, Option.elim_none, ite_self]
      exact moves_of_same rfl rfl rfl id
    · have hmoves := moves_insert key hc
        (Queue.Moves.taken c.outbound (s.peers.contains j))
      rw [ite_self] at hmoves
      rw [if_neg hgone]
      exact hmoves

theorem moves_dropQueue (s : State) (key j : Nat) : s.Moves key [] [] (s.dropQueue j).2 := by
  unfold dropQueue changeQueue
  cases hc : s.connections.get? j with
  | none => exact moves_of_same rfl rfl rfl id
  | some c =>
    simp only
    split
    · exact moves_of_same rfl rfl rfl id
    · have hmoves := moves_insert key hc (Queue.Moves.dropped c.outbound)
      rw [ite_self] at hmoves
      exact hmoves

/-- A new connection has a new queue. -/
theorem moves_insertPeer (hnew : s.outbound? j = none) (key : Nat) (address : String) :
    s.Moves key [] [] (s.insertPeer j address) := by
  have hqueue : (s.insertPeer j address).outbound? key =
      if key = j then some (.ofDepth s.config.queueDepth) else s.outbound? key := by
    unfold outbound? insertPeer
    rw [KeyTable.get?_insert]
    split <;> rfl
  have hmember : (s.insertPeer j address).peers.contains key =
      if key = j then true else s.peers.contains key := by
    unfold insertPeer KeyTable.contains
    rw [KeyTable.get?_insert]
    split <;> rfl
  by_cases hkey : key = j
  · subst hkey
    refine ⟨rfl, rfl, ?_, fun _ => .inr hnew⟩
    rw [hqueue, if_pos rfl, hnew]
    exact .opened
  · rw [if_neg hkey] at hqueue hmember
    exact moves_of_same rfl rfl hqueue fun hm => by rwa [hmember] at hm

end State

/-! ## One step -/

theorem Dropping.moves_proceed (s : State) (key j : Nat) (d : Dropping) :
    s.Moves key [] [] (d.proceed s j).1 := by
  cases d with
  | remove reason =>
    cases hp : s.peers.get? j with
    | none =>
      rw [proceed_of_get?_eq_none hp]
      exact State.moves_of_same rfl rfl rfl id
    | some p =>
      rw [proceed_of_get? hp]
      exact State.moves_of_same rfl rfl rfl fun hm => (KeyTable.contains_erase.1 hm).2
  | cancel p reason => exact State.moves_modify s key j fun _ => rfl
  | count p reason => exact State.moves_of_same rfl rfl rfl id
  | report p reason left => exact State.moves_of_same rfl rfl rfl id

namespace Work

theorem moves_take (s : State) (key sender : Nat) (f : RawFrame) :
    s.Moves key [] [] (take s sender f).1 := by
  unfold take
  split
  · split
    · exact State.moves_of_same rfl rfl rfl fun hm => (KeyTable.contains_modify ..).symm.trans hm
    · exact State.moves_of_same rfl rfl rfl id
  · exact State.moves_of_same rfl rfl rfl fun hm => (KeyTable.contains_modify ..).symm.trans hm
  · exact State.moves_of_same rfl rfl rfl id

section

variable {s s' : State} {j : Nat} {reason : Disconnect} (o : Offer) (key : Nat)

theorem moves_offered (h : s.enqueue j o.item = .ok s') :
    s.Moves key ((if j = key ∧ s.takes key then [o] else []).map Offer.item) [] s' := by
  have htakes : s.takes j = true := by
    by_contra hfull
    obtain ⟨reason, hr⟩ := State.enqueue_of_not_takes o.item ((Bool.not_eq_true _).mp hfull)
    rw [hr] at h
    cases h
  have hmoves := State.moves_enqueue h key
  by_cases hj : j = key
  · subst hj
    rw [if_pos ⟨rfl, htakes⟩]
    rwa [if_pos rfl] at hmoves
  · rw [if_neg fun hor => hj hor.1]
    rwa [if_neg hj] at hmoves

theorem moves_refused (h : s.enqueue j o.item = .error reason) :
    s.Moves key ((if j = key ∧ s.takes key then [o] else []).map Offer.item) [] s := by
  rw [if_neg]
  · exact State.moves_of_same rfl rfl rfl id
  · rintro ⟨rfl, htakes⟩
    obtain ⟨s', hs', -⟩ := State.enqueue_of_takes o.item htakes
    rw [hs'] at h
    cases h

end

theorem moves_offer (s : State) (sender key : Nat) (bytes : Bytes) (j : Nat) (keys : List Nat) :
    s.Moves key ((puts s sender key (.offering bytes (j :: keys))).map Offer.item) []
      (offer s bytes j keys).1 := by
  unfold offer
  split
  next s' hs' => exact moves_offered ⟨sender, bytes⟩ key hs'
  next reason hreason => exact moves_refused ⟨sender, bytes⟩ key hreason

theorem moves_answer (s : State) (sender key : Nat) :
    s.Moves key ((puts s sender key .answering).map Offer.item) [] (answer s sender).1 := by
  unfold answer
  split
  next s' hs' => exact moves_offered ⟨sender, s.welcome⟩ key hs'
  next reason hreason => exact moves_refused ⟨sender, s.welcome⟩ key hreason

theorem moves_proceed (s : State) (sender key : Nat) (w : Work) :
    s.Moves key ((w.puts s sender key).map Offer.item) [] (w.proceed s sender).1 := by
  cases w with
  | offering bytes keys =>
    cases keys with
    | nil => exact State.moves_of_same rfl rfl rfl id
    | cons j keys => exact moves_offer s sender key bytes j keys
  | answering => exact moves_answer s sender key
  | dropping j d bytes keys => exact d.moves_proceed s key j
  | ending d => exact d.moves_proceed s key sender
  | _ => exact State.moves_of_same rfl rfl rfl id

end Work

theorem Serving.moves_proceed {s : State} {serving : Serving} (key : Nat)
    (hnew : ∀ {j address}, serving = .keyed j address → s.outbound? j = none) :
    s.Moves key [] [] (serving.proceed s).1 := by
  cases serving with
  | keyed j address => exact State.moves_insertPeer (hnew rfl) key address
  | leaving keys => cases keys <;> exact State.moves_of_same rfl rfl rfl id
  | dropping j d keys => exact d.moves_proceed s key j
  | _ => exact State.moves_of_same rfl rfl rfl id

namespace Tasks

variable {t : Tasks} {taken missed key : Nat}

/-- What a step puts into the queue of a peer. -/
def acceptedAt (key : Nat) (t : Tasks) : Step → List Offer
  | .proceed sender => (t.works.get? sender).elim [] (Work.puts t.relay sender key)
  | _ => []

/-- What its writer takes out of it at a step. -/
def takenAt (key : Nat) (t : Tasks) : Step → List Bytes
  | .take j => if j = key then (t.relay.takeOutbound j).1.elim [] Taken.frames else []
  | _ => []

theorem Sound.connected_iff (h : t.Sound taken missed) :
    (t.relay.outbound? key).isSome = true ↔ key ∈ t.relay.accepted ++ t.serving.arrivals := by
  unfold State.outbound?
  rw [Option.isSome_map]
  exact h.booked.connected_iff key

/-- Whoever is in the table has a queue. -/
theorem Sound.connected (h : t.Sound taken missed) (hm : t.relay.peers.contains key = true) :
    (t.relay.outbound? key).isSome = true :=
  h.connected_iff.2 ((h.booked.member_iff key).1 hm).1

/-- A key that has just been given out has none yet. -/
theorem Sound.outbound?_of_keyed (h : t.Sound taken missed) {address : String}
    (hkeyed : t.serving = .keyed key address) : t.relay.outbound? key = none := by
  have hnew := h.booked.not_arrived (congrArg Serving.newKeys hkeyed)
  rw [← Option.not_isSome_iff_eq_none]
  exact fun hq => hnew (h.connected_iff.1 hq)

theorem moves_put (t : Tasks) (sender : Nat) {put : List Bytes} {outcome : State × Option Work}
    (h : t.relay.Moves key put [] outcome.1) :
    t.relay.Moves key put [] (t.put sender outcome).relay := by
  rw [relay_put]
  exact h

/-- What a step puts into the queue of a peer is what the reader at work offers, and only the writer
of the peer takes something out. -/
theorem moves_step (h : t.Sound taken missed) (key : Nat) (x : Step) :
    t.relay.Moves key ((t.acceptedAt key x).map Offer.item) (t.takenAt key x)
      (t.step x).relay := by
  have hsame : t.relay.Moves key [] [] t.relay := State.moves_of_same rfl rfl rfl id
  cases x with
  | accept address =>
    show t.relay.Moves key [] [] (t.accept address).relay
    unfold accept
    split
    · exact State.moves_of_same rfl rfl rfl id
    · exact hsame
  | leave =>
    show t.relay.Moves key [] [] t.leave.relay
    unfold leave
    split
    · split
      · exact State.moves_of_same rfl rfl rfl id
      · exact hsame
    · exact hsame
  | serve => exact Serving.moves_proceed key h.outbound?_of_keyed
  | read sender frame =>
    show t.relay.Moves key [] [] (t.read sender frame).relay
    unfold read
    split
    · exact moves_put t sender (Work.moves_take t.relay key sender frame)
    · exact hsame
  | giveUp sender reason =>
    show t.relay.Moves key [] [] (t.giveUp sender reason).relay
    unfold giveUp
    split
    · exact moves_put t sender hsame
    · exact hsame
  | proceed sender =>
    show t.relay.Moves key (List.map _ ((t.works.get? sender).elim [] _)) []
      (t.proceed sender).relay
    cases hw : t.works.get? sender with
    | none =>
      unfold proceed
      rw [hw]
      exact hsame
    | some w =>
      rw [proceed_of_get? hw]
      exact moves_put t sender (w.moves_proceed t.relay sender key)
  | keep j input => exact State.moves_modify t.relay key j fun _ => rfl
  | take j => exact State.moves_takeOutbound t.relay key j
  | failWriting j e =>
    show t.relay.Moves key [] [] (t.failWriting j e).relay
    unfold failWriting
    split <;> exact hsame
  | settle j =>
    show t.relay.Moves key [] [] (t.settle j).relay
    unfold settle
    split
    next d hd => exact d.moves_proceed t.relay key j
    next => exact hsame
  | stopWriting j => exact State.moves_dropQueue t.relay key j
  | ask => exact hsame
  | tell j =>
    show t.relay.Moves key [] [] (t.tell j).relay
    unfold tell
    split
    · exact State.moves_modify t.relay key j fun _ => rfl
    · exact hsame
  | request =>
    show t.relay.Moves key [] [] t.request.relay
    unfold request
    split
    · exact State.moves_cancelAll t.relay key
    · exact hsame

/-- The frames put into the queue of a peer come out in order, and those that have not come out wait
unless nobody reads the queue any more. -/
theorem queue_tells_run (h : t.Sound taken missed) {puts outs : List Bytes}
    (hq : Queue.Tells t.relay.config.queueDepth (t.relay.outbound? key) puts outs)
    (steps : List Step) :
    Queue.Tells t.relay.config.queueDepth ((t.run steps).relay.outbound? key)
      (puts ++ (t.along (acceptedAt key) steps).map Offer.item)
      (outs ++ t.along (takenAt key) steps) := by
  induction steps generalizing t taken missed puts outs with
  | nil =>
    show Queue.Tells _ _ (puts ++ []) (outs ++ [])
    rw [List.append_nil, List.append_nil]
    exact hq
  | cons x steps ih =>
    have hmoves := moves_step h key x
    have hnext := hmoves.queue.tells hq
    rw [← hmoves.config_eq] at hnext ⊢
    have hrest := ih (sound_step h x) hnext
    rw [List.append_assoc, List.append_assoc, ← List.map_append] at hrest
    exact hrest

end Tasks

end EvictionBus.Relay
