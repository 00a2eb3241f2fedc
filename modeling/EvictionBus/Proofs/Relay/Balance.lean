import EvictionBus.Proofs.Relay.Interleaving

/-!
# The books after a run

When nothing is under way in a relay, nothing is left in the ledger but the evictions that have been
missed.  An eviction is missed if its reader starts on it when another task has taken the peer out
of the table and has not yet told it to stop; it gets a number and is passed on, and is not counted
for the peer.  A relay that is left alone misses none.
-/

namespace EvictionBus.Relay

/-- The counters, the table of peers and the journal agree when nothing is under way.  Readers have
started on `taken` evictions and missed `missed` of them. -/
structure State.Settled (s : State) (taken missed : Nat) : Prop where
  accepted_eq : s.accepted = List.range' 1 s.lastKey
  member_iff : ∀ key, s.peers.contains key = true ↔ key ∈ s.accepted ∧ key ∉ s.dropped
  dropped_nodup : s.dropped.Nodup
  dropped_subset : s.dropped ⊆ s.accepted
  connected_iff : ∀ key, s.connections.contains key = true ↔ key ∈ s.accepted
  cancelled_iff : ∀ {key c}, s.connections.get? key = some c →
    (c.cancelled = true ↔ s.peers.contains key = false ∨ s.stopping = true)
  received_perm : s.received.Perm (List.range' 1 s.broadcasts)
  sent_perm : s.sent.Perm (List.range' 1 s.broadcasts)
  taken_eq : s.broadcasts = taken
  evictions_eq : s.evictions + missed = taken

namespace State.Books

variable {s : State} {l : Ledger} {os : List OpenItem} {taken missed : Nat}

/-- Items of which nothing is left can be crossed out. -/
theorem of_forall_none (h : s.Books { l with items := os }) (hnone : ∀ o ∈ os, o = {}) :
    s.Books { l with items := [] } := by
  induction os with
  | nil => exact h
  | cons o os ih =>
    cases hnone o List.mem_cons_self
    exact ih h.of_cons_none fun o ho => hnone o (List.mem_cons_of_mem _ ho)

theorem settled (h : s.Books ⟨taken, missed, s.stopping, [], [], []⟩) :
    s.Settled taken missed := by
  have haccepted : s.accepted ++ [] = s.accepted := List.append_nil _
  have hdropped : s.dropped ++ [] = s.dropped := List.append_nil _
  have hmember : ∀ key, s.peers.contains key = true ↔ key ∈ s.accepted ∧ key ∉ s.dropped := by
    intro key
    rw [← haccepted, ← hdropped]
    exact h.member_iff key
  have hconnected : ∀ key, s.connections.contains key = true ↔ key ∈ s.accepted := by
    intro key
    rw [← haccepted]
    exact h.connected_iff key
  constructor
  case accepted_eq =>
    have heq := h.accepted_eq
    rwa [List.append_nil, List.append_nil] at heq
  case member_iff => exact hmember
  case dropped_nodup =>
    rw [← hdropped]
    exact h.dropped_nodup
  case dropped_subset =>
    rw [← haccepted, ← hdropped]
    exact h.dropped_subset
  case connected_iff => exact hconnected
  case cancelled_iff =>
    intro key c hc
    have hknown : key ∈ s.accepted := (hconnected key).1 (by rw [KeyTable.contains, hc]; rfl)
    -- Who is not in the table has been dropped.
    have hgone : s.peers.contains key = false ↔ key ∈ s.dropped := by
      rw [← Bool.not_eq_true, hmember, not_and, not_not]
      exact ⟨fun h => h hknown, fun h _ => h⟩
    rw [hgone, or_comm, ← hdropped]
    exact ⟨h.told_of_cancelled hc, h.cancelled_of_told hc⟩
  case received_perm =>
    have hperm := h.received_perm
    change (s.received ++ []).Perm _ at hperm
    rwa [List.append_nil] at hperm
  case sent_perm =>
    have hperm := h.sent_perm
    change (s.sent ++ []).Perm _ at hperm
    rwa [List.append_nil] at hperm
  case taken_eq => exact h.taken_eq
  case evictions_eq => exact h.evictions_eq

/-- Peers that have all left the table have been dropped, each of them once, or are being dropped.
-/
theorem dropped_perm (h : s.Books l) (harriving : l.arriving = [])
    (hempty : ∀ key, s.peers.contains key ≠ true) :
    s.peers.keys = [] ∧ (s.dropped ++ l.leaving).Perm s.accepted := by
  have hnodup : s.accepted.Nodup := by
    have hrange := List.nodup_range' (s := 1) (n := s.lastKey)
    rw [← h.accepted_eq, List.append_assoc] at hrange
    exact (List.nodup_append.1 hrange).1
  have haccepted : s.accepted ++ l.arriving = s.accepted := by
    rw [harriving]
    exact List.append_nil _
  constructor
  · apply List.eq_nil_iff_forall_not_mem.2
    intro key hk
    exact hempty key ((KeyTable.mem_keys_iff _ key).1 hk)
  · rw [List.perm_ext_iff_of_nodup h.dropped_nodup hnodup]
    intro key
    constructor
    · intro hk
      rw [← haccepted]
      exact h.dropped_subset hk
    · intro hk
      by_contra hnot
      rw [← haccepted] at hk
      exact hempty key ((h.member_iff key).2 ⟨hk, hnot⟩)

end State.Books

/-! ## Quiet relays -/

def Work.isReturned : Work → Bool
  | .returned => true
  | _ => false

def Serving.isIdle : Serving → Bool
  | .accepting | .returned => true
  | _ => false

namespace Tasks

variable {t : Tasks} {s : State} {taken missed : Nat}

/-- Nothing is under way. -/
def isQuiet (t : Tasks) : Bool :=
  t.works.values.all Work.isReturned && t.failures.values.all Option.isNone && t.serving.isIdle &&
    t.asked == t.relay.stopping

theorem Sound.settled (h : t.Sound taken missed) (hquiet : t.isQuiet = true) :
    t.relay.Settled taken missed := by
  unfold isQuiet at hquiet
  rw [Bool.and_eq_true, Bool.and_eq_true, Bool.and_eq_true, beq_iff_eq] at hquiet
  obtain ⟨⟨⟨hworks, hfailures⟩, hserving⟩, hasked⟩ := hquiet
  have hnone : ∀ o ∈ (t.ledger taken missed).items, o = {} := by
    intro o ho
    rcases List.mem_cons.1 ho with rfl | ho
    · cases hs : t.serving <;> rw [hs] at hserving <;> first | rfl | cases hserving
    rcases List.mem_append.1 ho with ho | ho
    · obtain ⟨e, he, rfl⟩ := List.mem_map.1 ho
      have hreturned := List.all_eq_true.1 hworks e.2 (List.mem_map_of_mem he)
      cases hw : e.2 <;> rw [hw] at hreturned <;> first | rfl | cases hreturned
    · obtain ⟨e, he, rfl⟩ := List.mem_map.1 ho
      have hdone := List.all_eq_true.1 hfailures e.2 (List.mem_map_of_mem he)
      rw [Option.isNone_iff_eq_none.1 hdone]
      rfl
  have hb := State.Books.of_forall_none (l := t.ledger taken missed) h.booked hnone
  unfold ledger at hb
  rw [hasked] at hb
  cases hs : t.serving <;> rw [hs] at hserving hb <;> first | exact hb.settled | cases hserving

theorem Rests.isQuiet (h : t.Rests s) : t.isQuiet = true := by
  have hworks : t.works.values.all Work.isReturned = true := by
    rw [List.all_eq_true]
    intro w hw
    obtain ⟨e, he, rfl⟩ := List.mem_map.1 hw
    rw [(h.returned ((KeyTable.get?_eq_some_iff ..).2 he)).1]
    rfl
  have hfailures : t.failures.values.all Option.isNone = true := by
    rw [List.all_eq_true]
    intro d hd
    obtain ⟨e, he, rfl⟩ := List.mem_map.1 hd
    rw [(h.settled ((KeyTable.get?_eq_some_iff ..).2 he)).1]
    rfl
  have hserving : t.serving.isIdle = true := by
    rw [h.serving_eq]
    split <;> rfl
  unfold Tasks.isQuiet
  rw [hworks, hfailures, hserving, h.asked_eq, h.relay_eq]
  simp

theorem Sound.dropped_perm (h : t.Sound taken missed) (hserving : t.serving = .returned) :
    t.relay.peers.keys = [] ∧
      (t.relay.dropped ++ (t.ledger taken missed).leaving).Perm t.relay.accepted := by
  refine h.booked.dropped_perm (congrArg Serving.arrivals hserving) fun key hm => ?_
  exact absurd (h.left (congrArg Serving.left? hserving) hm) List.not_mem_nil

/-- A reader misses an eviction only when somebody has taken its peer out of the table and has still
to tell it to stop. -/
theorem Sound.leaver_of_missed (h : t.Sound taken missed) {key : Nat} {frame : RawFrame}
    (hmissed : t.missedAt (.read key frame) ≠ []) :
    ∃ x ∈ (t.ledger taken missed).leavers, x.key = key ∧ x.told = false := by
  obtain ⟨e, he⟩ := List.exists_mem_of_ne_nil _ hmissed
  obtain ⟨he, hgone⟩ := List.mem_filter.1 he
  change e ∈ (if t.canRead key then [(key, frame)] else []) at he
  split at he
  next hcan =>
    cases List.mem_singleton.1 he
    rw [Bool.and_eq_true, Bool.not_eq_true'] at hgone
    rw [canRead, Bool.and_eq_true] at hcan
    exact h.booked.leaver_of_reading? hcan.2 hgone.2
  next => cases he

end Tasks

/-- In whatever order the tasks of a relay take their steps, its counters, its table of peers, what
connections have been told and its journal agree but for what is under way.  A reader misses only
evictions of a peer that another task is about to tell to stop.  Once the relay has returned, all
peers that it has accepted have left the table, each of them has been dropped once or is being
dropped, and when nothing is under way any more the evictions counted for the peers are all that
have been passed on but the missed ones.  After any inputs, when all that has been read has been
acted on, nothing is under way and no eviction has been missed. -/
theorem books_run (config : Config) (identity : Identity) :
    (∀ steps : List Tasks.Step,
      let t := (Tasks.start config identity).run steps
      let taken := ((Tasks.start config identity).startedOver steps).countP fun e => e.2.isEviction
      let missed := ((Tasks.start config identity).missedOver steps).length
      t.relay.Books (t.ledger taken missed) ∧
        (∀ key frame, t.missedAt (.read key frame) ≠ [] →
          ∃ x ∈ (t.ledger taken missed).leavers, x.key = key ∧ x.told = false) ∧
        (t.serving = .returned → t.relay.peers.keys = [] ∧
          (t.relay.dropped ++ (t.ledger taken missed).leaving).Perm t.relay.accepted) ∧
        (t.isQuiet = true → t.relay.Settled taken missed)) ∧
    ∀ inputs : List (Nat × Input),
      let s := (State.start config identity).run inputs
      s.Settled (((State.start config identity).readingsOver inputs).countP fun r =>
          r.frame.isEviction) 0 ∧
        (s.stopping = true → s.peers.keys = [] ∧ s.dropped.Perm s.accepted) := by
  have hrun : ∀ steps, ((Tasks.start config identity).run steps).Sound
      (((Tasks.start config identity).startedOver steps).countP fun e => e.2.isEviction)
      ((Tasks.start config identity).missedOver steps).length := by
    intro steps
    have h := Tasks.sound_run (Tasks.sound_start config identity) steps
    rw [Nat.zero_add, Nat.zero_add] at h
    exact h
  refine ⟨fun steps => ⟨(hrun steps).booked, fun _ _ => (hrun steps).leaver_of_missed,
    (hrun steps).dropped_perm, (hrun steps).settled⟩, fun inputs => ?_⟩
  -- The inputs lead to tasks at rest.
  obtain ⟨t, ht, steps, hsteps, hstarted, hmissed⟩ := Tasks.settles_run
    (Tasks.rests_start config identity) (State.sound_start config identity) inputs
  have h := hrun steps
  rw [hsteps, hstarted, hmissed, List.countP_map] at h
  have hsettled := h.settled ht.isQuiet
  rw [ht.relay_eq] at hsettled
  refine ⟨hsettled, fun hstop => ?_⟩
  have hserving : t.serving = .returned := ht.serving_eq.trans (if_pos hstop)
  obtain ⟨hkeys, -⟩ := h.dropped_perm hserving
  rw [ht.relay_eq] at hkeys
  refine ⟨hkeys, ?_⟩
  have hnodup : ((State.start config identity).run inputs).accepted.Nodup := by
    rw [hsettled.accepted_eq]
    exact List.nodup_range'
  rw [List.perm_ext_iff_of_nodup hsettled.dropped_nodup hnodup]
  intro key
  refine ⟨fun hk => hsettled.dropped_subset hk, fun hk => ?_⟩
  by_contra hnot
  have hm := (hsettled.member_iff key).2 ⟨hk, hnot⟩
  rw [← KeyTable.mem_keys_iff, hkeys] at hm
  cases hm

def someone : Identity :=
  ⟨List.replicate 16 1, rfl⟩

/-- An eviction that is not empty. -/
def frame : RawFrame :=
  ⟨⟨someone, .evict, 1, true⟩, Header.bytes someone .evict 1 ++ [9]⟩

/-- A connection comes and is served. -/
def arrival (address : String) : List Tasks.Step :=
  .accept address :: List.replicate 3 .serve

/-- The second of two evictions is reported first, one of the peers leaves, and the relay stops
before either has been passed on. -/
def overtaking : List Tasks.Step :=
  arrival "first" ++ arrival "second" ++ [.read 1 frame, .read 2 frame, .proceed 1, .proceed 2] ++
    List.replicate 2 (.proceed 2) ++
    [.ask, .failWriting 2 ⟨.other, "reset"⟩, .settle 2, .request] ++
    List.replicate 2 (.proceed 1) ++ .leave :: List.replicate 8 .serve

theorem books_run_overtaking :
    (((Tasks.start .standard someone).run overtaking).serving = .returned ∧
      ((Tasks.start .standard someone).run overtaking).relay.received = [2, 1] ∧
      ((Tasks.start .standard someone).run overtaking).relay.dropped = [1]) ∧
    ((Tasks.start .standard someone).run overtaking).relay.peers.keys = [] ∧
      (((Tasks.start .standard someone).run overtaking).relay.dropped ++
        (((Tasks.start .standard someone).run overtaking).ledger
          (((Tasks.start .standard someone).startedOver overtaking).countP fun e => e.2.isEviction)
          ((Tasks.start .standard someone).missedOver overtaking).length).leaving).Perm
        ((Tasks.start .standard someone).run overtaking).relay.accepted := by
  have hreturned : ((Tasks.start .standard someone).run overtaking).serving = .returned := by
    decide +kernel
  refine ⟨⟨hreturned, by decide +kernel, by decide +kernel⟩, ?_⟩
  exact ((books_run .standard someone).1 overtaking).2.2.1 hreturned

/-- The writer of the second peer fails.  When the peer is out of the table, its reader starts on an
eviction, which is passed on; the relay stops, and then the peer is reported as dropped. -/
def crossing : List Tasks.Step :=
  arrival "first" ++ arrival "second" ++ [.failWriting 2 ⟨.other, "reset"⟩, .settle 2] ++
    .read 2 frame :: List.replicate 7 (.proceed 2) ++ [.ask, .request, .leave] ++
    List.replicate 8 .serve ++ List.replicate 3 (.settle 2)

/-- It is not so that a connection has been told to stop whenever its peer has left the table, that
all peers have been dropped when the relay returns, and that in the end as many evictions have been
counted for the peers as have been passed on. -/
theorem not_forall_balanced :
    (¬ ∀ (steps : List Tasks.Step) (key : Nat) (c : Connection),
      ((Tasks.start .standard someone).run steps).relay.connections.get? key = some c →
        (c.cancelled = true ↔
          ((Tasks.start .standard someone).run steps).relay.peers.contains key = false ∨
            ((Tasks.start .standard someone).run steps).asked = true)) ∧
    (¬ ∀ steps : List Tasks.Step,
      ((Tasks.start .standard someone).run steps).serving = .returned →
        ((Tasks.start .standard someone).run steps).relay.dropped.Perm
          ((Tasks.start .standard someone).run steps).relay.accepted) ∧
    ¬ ∀ steps : List Tasks.Step, ((Tasks.start .standard someone).run steps).isQuiet = true →
      ((Tasks.start .standard someone).run steps).relay.broadcasts =
        ((Tasks.start .standard someone).run steps).relay.evictions := by
  refine ⟨fun h => ?_, fun h => ?_, fun h => ?_⟩
  · -- Just after the peer has been taken out of the table.
    have hc : ((((Tasks.start .standard someone).run (crossing.take 10)).relay.connections.get?
        2).map Connection.cancelled) = some false := by
      decide +kernel
    obtain ⟨c, hc, hgoing⟩ := Option.map_eq_some_iff.1 hc
    rw [(h (crossing.take 10) 2 c hc).2 (.inl (by decide +kernel))] at hgoing
    cases hgoing
  · -- The relay has returned, and the peer has not been reported as dropped.
    have hlength := (h (crossing.take 29) (by decide +kernel)).length_eq
    revert hlength
    decide +kernel
  · have heq := h crossing (by decide +kernel)
    revert heq
    decide +kernel

end EvictionBus.Relay
