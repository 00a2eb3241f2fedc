import Mathlib.Algebra.GroupWithZero.Nat
import EvictionBus.Proofs.Relay.Tasks

/-!
# The books of a relay

A relay counts in three places: the keys that it gives out, the numbers of the evictions that it
passes on, and for each peer the evictions that have come from it.  The counters are changed one
after another, and peers come and go in between.  `Books` says how the counters, the table of peers
and the journal agree at any time; the ledger lists what tasks have begun and not brought to an end.
Each operation of the relay keeps the books.
-/

namespace EvictionBus.Relay

/-! ## What the journal says -/

namespace Event

def acceptedKey? : Event → Option Nat
  | .accepted key .. => some key
  | _ => none

def droppedKey? : Event → Option Nat
  | .disconnected key .. => some key
  | _ => none

def receivedNumber? : Event → Option Nat
  | .received sequence .. => some sequence
  | _ => none

def sentNumber? : Event → Option Nat
  | .sending sequence .. => some sequence
  | _ => none

/-- The number of evictions from a peer that is dropped. -/
def closingCount : Event → Nat
  | .disconnected _ _ evictions .. => evictions
  | _ => 0

theorem closingCount_of_not_dropped {e : Event} (h : e.droppedKey? = none) :
    e.closingCount = 0 := by
  cases e with
  | disconnected => cases h
  | _ => rfl

end Event

/-! ## What tasks have begun -/

/-- A peer that has left the table and has not been reported as dropped. -/
structure Leaver where
  key : Nat
  evictions : Nat
  /-- Its tasks have been told to stop. -/
  told : Bool

/-- What one task has begun. -/
structure OpenItem where
  /-- The evictions that have been counted and have no number. -/
  counted : Nat := 0
  /-- The numbers that have not been reported as received. -/
  unreported : List Nat := []
  /-- The numbers that have not been reported as passed on. -/
  unsent : List Nat := []
  leavers : List Leaver := []

/-- What has been begun in a relay.  Readers have started on `taken` evictions, and of these
`missed` came from peers that were not in the table any more. -/
structure Ledger where
  taken : Nat
  missed : Nat
  /-- A call is under way, or done, that tells all tasks to stop. -/
  asked : Bool
  /-- The peers in the table that have not been reported as accepted. -/
  arriving : List Nat
  /-- The keys of those that are not in the table yet. -/
  keyed : List Nat
  items : List OpenItem

namespace Ledger

variable (l : Ledger)

def counted : Nat :=
  (l.items.map OpenItem.counted).sum

def unreported : List Nat :=
  l.items.flatMap OpenItem.unreported

def unsent : List Nat :=
  l.items.flatMap OpenItem.unsent

def leavers : List Leaver :=
  l.items.flatMap OpenItem.leavers

/-- The keys of the peers that are leaving. -/
def leaving : List Nat :=
  l.leavers.map Leaver.key

/-- The keys of those whose tasks have been told to stop. -/
def told : List Nat :=
  (l.leavers.filter Leaver.told).map Leaver.key

/-- The evictions counted for the peers that are leaving. -/
def leaverEvictions : Nat :=
  (l.leavers.map Leaver.evictions).sum

end Ledger

namespace State

variable {s t : State} {l : Ledger} {o o' : OpenItem} {os : List OpenItem} {key : Nat}

/-- The keys of the peers accepted so far, in order. -/
def accepted (s : State) : List Nat :=
  s.journal.filterMap Event.acceptedKey?

/-- The keys of the peers dropped so far. -/
def dropped (s : State) : List Nat :=
  s.journal.filterMap Event.droppedKey?

/-- The numbers of the evictions that have been reported as received. -/
def received (s : State) : List Nat :=
  s.journal.filterMap Event.receivedNumber?

/-- The numbers of the evictions that have been reported as passed on. -/
def sent (s : State) : List Nat :=
  s.journal.filterMap Event.sentNumber?

/-- The evictions counted for the peers in the table and for those that have been dropped. -/
def evictions (s : State) : Nat :=
  (s.peers.values.map Peer.evictions).sum + (s.journal.map Event.closingCount).sum

/-- The counters, the table of peers, the journal and what connections have been told agree, but for
what has been begun. -/
structure Books (s : State) (l : Ledger) : Prop where
  accepted_eq : s.accepted ++ l.arriving ++ l.keyed = List.range' 1 s.lastKey
  member_iff : ∀ key, s.peers.contains key = true ↔
    key ∈ s.accepted ++ l.arriving ∧ key ∉ s.dropped ++ l.leaving
  dropped_nodup : (s.dropped ++ l.leaving).Nodup
  dropped_subset : s.dropped ++ l.leaving ⊆ s.accepted ++ l.arriving
  connected_iff : ∀ key, s.connections.contains key = true ↔ key ∈ s.accepted ++ l.arriving
  asked_of_stopping : s.stopping = true → l.asked = true
  cancelled_of_told : ∀ {key c}, s.connections.get? key = some c →
    s.stopping = true ∨ key ∈ s.dropped ++ l.told → c.cancelled = true
  told_of_cancelled : ∀ {key c}, s.connections.get? key = some c → c.cancelled = true →
    l.asked = true ∨ key ∈ s.dropped ++ l.told
  received_perm : (s.received ++ l.unreported).Perm (List.range' 1 s.broadcasts)
  sent_perm : (s.sent ++ l.unsent).Perm (List.range' 1 s.broadcasts)
  taken_eq : s.broadcasts + l.counted = l.taken
  evictions_eq : s.evictions + l.leaverEvictions + l.missed = l.taken

theorem books_start (config : Config) (identity : Identity) :
    (start config identity).Books ⟨0, 0, false, [], [], []⟩ where
  accepted_eq := rfl
  member_iff key := by
    constructor
    · intro h
      cases h
    · rintro ⟨h, -⟩
      cases h
  dropped_nodup := List.nodup_nil
  dropped_subset := List.nil_subset _
  connected_iff key := by
    constructor
    · intro h
      cases h
    · intro h
      cases h
  asked_of_stopping h := by cases h
  cancelled_of_told h := by cases h
  told_of_cancelled h := by cases h
  received_perm := List.Perm.nil
  sent_perm := List.Perm.nil
  taken_eq := rfl
  evictions_eq := rfl

namespace Books

/-! ## Items -/

/-- In which order the items are listed does not matter. -/
theorem perm (h : s.Books l) (hp : l.items.Perm os) : s.Books { l with items := os } := by
  have hleavers : l.leavers.Perm ({ l with items := os } : Ledger).leavers := hp.flatMap_right _
  have hleaving := hleavers.map Leaver.key
  have htold := (hleavers.filter Leaver.told).map Leaver.key
  have hdropped := hleaving.append_left s.dropped
  constructor
  case accepted_eq => exact h.accepted_eq
  case member_iff =>
    intro key
    rw [h.member_iff key]
    exact and_congr_right' (not_congr hdropped.mem_iff)
  case dropped_nodup => exact hdropped.nodup_iff.1 h.dropped_nodup
  case dropped_subset => exact fun key hkey => h.dropped_subset (hdropped.mem_iff.2 hkey)
  case connected_iff => exact h.connected_iff
  case asked_of_stopping => exact h.asked_of_stopping
  case cancelled_of_told =>
    intro key c hc hor
    exact h.cancelled_of_told hc (hor.imp_right (htold.append_left s.dropped).mem_iff.2)
  case told_of_cancelled =>
    intro key c hc hcancelled
    exact (h.told_of_cancelled hc hcancelled).imp_right (htold.append_left s.dropped).mem_iff.1
  case received_perm =>
    exact ((hp.symm.flatMap_right OpenItem.unreported).append_left _).trans h.received_perm
  case sent_perm => exact ((hp.symm.flatMap_right OpenItem.unsent).append_left _).trans h.sent_perm
  case taken_eq =>
    rw [← h.taken_eq]
    exact congrArg (s.broadcasts + ·) (hp.map OpenItem.counted).sum_nat.symm
  case evictions_eq =>
    rw [← h.evictions_eq]
    exact congrArg (s.evictions + · + l.missed) (hleavers.map Leaver.evictions).sum_nat.symm

theorem counted_cons_none (l : Ledger) (os : List OpenItem) :
    ({ l with items := {} :: os } : Ledger).counted = ({ l with items := os } : Ledger).counted :=
  Nat.zero_add _

/-- A task that has begun nothing need not be listed. -/
theorem cons_none (h : s.Books { l with items := os }) : s.Books { l with items := {} :: os } :=
  { h with taken_eq := by rw [counted_cons_none]; exact h.taken_eq }

theorem of_cons_none (h : s.Books { l with items := {} :: os }) : s.Books { l with items := os } :=
  { h with taken_eq := by rw [← counted_cons_none]; exact h.taken_eq }

/-! ## Keys -/

/-- A key that has been given out and is not in the table yet is nowhere else. -/
theorem not_arrived (h : s.Books l) (hkeyed : l.keyed = [key]) :
    key ∉ s.accepted ++ l.arriving := by
  have hnodup : (s.accepted ++ l.arriving ++ l.keyed).Nodup := by
    rw [h.accepted_eq]
    exact List.nodup_range'
  intro hkey
  rw [hkeyed] at hnodup
  exact (List.nodup_append.1 hnodup).2.2 key hkey key List.mem_cons_self rfl

/-- A peer of which the connection has not been told to stop is in the table or on its way out. -/
theorem leaver_of_reading? (h : s.Books l) (hr : (s.reading? key).isSome = true)
    (hm : s.peers.contains key = false) : ∃ x ∈ l.leavers, x.key = key ∧ x.told = false := by
  obtain ⟨c, hr⟩ := Option.isSome_iff_exists.1 hr
  obtain ⟨hc, hgoing⟩ := Option.filter_eq_some_iff.1 hr
  have hnot : ¬ (s.stopping = true ∨ key ∈ s.dropped ++ l.told) := fun hor => by
    rw [h.cancelled_of_told hc hor] at hgoing
    cases hgoing
  have hcontains : s.connections.contains key = true := by
    rw [KeyTable.contains, hc]
    rfl
  have hknown := (h.connected_iff key).1 hcontains
  have hgone : key ∈ s.dropped ++ l.leaving := by
    by_contra hstays
    rw [(h.member_iff key).2 ⟨hknown, hstays⟩] at hm
    cases hm
  rw [List.mem_append, or_iff_right fun hk => hnot (.inr (List.mem_append_left _ hk))] at hgone
  obtain ⟨x, hx, hkey⟩ := List.mem_map.1 hgone
  refine ⟨x, hx, hkey, ?_⟩
  by_contra htold
  rw [Bool.not_eq_false] at htold
  refine hnot (.inr (List.mem_append_right _ ?_))
  exact List.mem_map.2 ⟨x, List.mem_filter.2 ⟨hx, htold⟩, hkey⟩

/-! ## What does not count -/

/-- Only the table of peers, the counters, the journal and what connections have been told count. -/
theorem of_same (h : s.Books l) (hkey : t.lastKey = s.lastKey)
    (hb : t.broadcasts = s.broadcasts) (hstop : t.stopping = s.stopping)
    (hjournal : t.journal = s.journal)
    (hpeers : ∀ key, t.peers.contains key = s.peers.contains key)
    (hcount : t.peers.values.map Peer.evictions = s.peers.values.map Peer.evictions)
    (hconn : ∀ key, (t.connections.get? key).map Connection.cancelled =
      (s.connections.get? key).map Connection.cancelled) :
    t.Books l := by
  have hfrom : ∀ {key d}, t.connections.get? key = some d →
      ∃ c, s.connections.get? key = some c ∧ c.cancelled = d.cancelled := by
    intro key d hd
    have hc := hconn key
    rw [hd] at hc
    exact Option.map_eq_some_iff.1 hc.symm
  constructor
  case accepted_eq => rw [accepted, hjournal, hkey]; exact h.accepted_eq
  case member_iff => intro key; rw [hpeers, accepted, dropped, hjournal]; exact h.member_iff key
  case dropped_nodup => rw [dropped, hjournal]; exact h.dropped_nodup
  case dropped_subset => rw [dropped, accepted, hjournal]; exact h.dropped_subset
  case connected_iff =>
    intro key
    have hc := congrArg Option.isSome (hconn key)
    rw [Option.isSome_map, Option.isSome_map] at hc
    rw [KeyTable.contains, hc, accepted, hjournal]
    exact h.connected_iff key
  case asked_of_stopping => rw [hstop]; exact h.asked_of_stopping
  case cancelled_of_told =>
    intro key d hd hor
    obtain ⟨c, hc, heq⟩ := hfrom hd
    rw [hstop, dropped, hjournal] at hor
    rw [← heq]
    exact h.cancelled_of_told hc hor
  case told_of_cancelled =>
    intro key d hd hcancelled
    obtain ⟨c, hc, heq⟩ := hfrom hd
    rw [dropped, hjournal]
    exact h.told_of_cancelled hc (heq.trans hcancelled)
  case received_perm => rw [received, hjournal, hb]; exact h.received_perm
  case sent_perm => rw [sent, hjournal, hb]; exact h.sent_perm
  case taken_eq => rw [hb]; exact h.taken_eq
  case evictions_eq => rw [evictions, hjournal, hcount]; exact h.evictions_eq

theorem setNickname (h : s.Books l) (key : Nat) (name : String) :
    State.Books { s with peers := s.peers.setNickname key name } l := by
  have hcount : (s.peers.setNickname key name).values.map Peer.evictions =
      s.peers.values.map Peer.evictions := by
    unfold PeerTable.setNickname KeyTable.modify
    rw [KeyTable.values_mapValues, KeyTable.values, List.map_map, List.map_map]
    apply List.map_congr_left
    intro e _
    show Peer.evictions (if e.1 = key then _ else _) = _
    split <;> rfl
  exact h.of_same rfl rfl rfl rfl (fun j => KeyTable.contains_modify ..) hcount
    fun _ => rfl

/-- What belongs to a connection alone counts nowhere. -/
theorem modify (h : s.Books l) (key : Nat) {f : Connection → Connection}
    (hf : ∀ c, (f c).cancelled = c.cancelled) :
    State.Books { s with connections := s.connections.modify key f } l := by
  refine h.of_same rfl rfl rfl rfl (fun _ => rfl) rfl fun j => ?_
  rw [KeyTable.get?_modify]
  split
  · rw [Option.map_map, show Connection.cancelled ∘ f = Connection.cancelled from funext hf]
  · rfl

theorem insert (h : s.Books l) {c : Connection} (hc : s.connections.get? key = some c)
    (outbound : Queue) :
    State.Books { s with connections := s.connections.insert key { c with outbound := outbound } }
      l := by
  have hmodify : s.connections.modify key (fun c => { c with outbound := outbound }) =
      s.connections.insert key { c with outbound := outbound } := KeyTable.modify_eq_insert _ hc
  rw [← hmodify]
  exact h.modify key fun _ => rfl

theorem enqueue (h : s.Books l) {bytes : Bytes} (ht : s.enqueue key bytes = .ok t) :
    t.Books l := by
  unfold State.enqueue at ht
  split at ht
  · cases ht
  next c hc =>
    split at ht
    · cases ht
      exact h.insert hc _
    · cases ht
    · cases ht

theorem requeued (h : s.Books l) (ht : s.Requeued key t) : t.Books l := by
  cases ht with
  | same => exact h
  | queue hc outbound => exact h.insert hc outbound

end Books

/-! ## Entries of the journal -/

section Entries

variable (s : State) (e : Event)

theorem accepted_note : (s.note e).accepted = s.accepted ++ e.acceptedKey?.toList :=
  filterMap_note s e _

theorem dropped_note : (s.note e).dropped = s.dropped ++ e.droppedKey?.toList :=
  filterMap_note s e _

theorem received_note : (s.note e).received = s.received ++ e.receivedNumber?.toList :=
  filterMap_note s e _

theorem sent_note : (s.note e).sent = s.sent ++ e.sentNumber?.toList :=
  filterMap_note s e _

theorem evictions_note : (s.note e).evictions = s.evictions + e.closingCount := by
  show _ + ((s.journal ++ [e]).map _).sum = _
  rw [List.map_append, List.sum_append_nat, ← Nat.add_assoc]
  rfl

end Entries

namespace Books

/-- An entry about an eviction settles the number that it names, and other entries change nothing,
as long as no peer comes or goes. -/
theorem note (h : s.Books { l with items := o :: os }) {e : Event}
    (haccepted : e.acceptedKey? = none)
    (hdropped : e.droppedKey? = none)
    (hreceived : o.unreported = e.receivedNumber?.toList ++ o'.unreported)
    (hsent : o.unsent = e.sentNumber?.toList ++ o'.unsent)
    (hcounted : o'.counted = o.counted) (hleavers : o'.leavers = o.leavers) :
    (s.note e).Books { l with items := o' :: os } := by
  have ha : (s.note e).accepted = s.accepted := filterMap_note_of_none s haccepted
  have hd : (s.note e).dropped = s.dropped := filterMap_note_of_none s hdropped
  have hall : ({ l with items := o' :: os } : Ledger).leavers =
      ({ l with items := o :: os } : Ledger).leavers := congrArg (· ++ _) hleavers
  constructor
  case accepted_eq => rw [ha]; exact h.accepted_eq
  case member_iff => rw [ha, hd, Ledger.leaving, hall]; exact h.member_iff
  case dropped_nodup => rw [hd, Ledger.leaving, hall]; exact h.dropped_nodup
  case dropped_subset => rw [ha, hd, Ledger.leaving, hall]; exact h.dropped_subset
  case connected_iff => rw [ha]; exact h.connected_iff
  case asked_of_stopping => exact h.asked_of_stopping
  case cancelled_of_told => rw [hd, Ledger.told, hall]; exact h.cancelled_of_told
  case told_of_cancelled => rw [hd, Ledger.told, hall]; exact h.told_of_cancelled
  case received_perm =>
    have hperm := h.received_perm
    change (s.received ++ (o.unreported ++ _)).Perm _ at hperm
    rw [received_note, List.append_assoc]
    rwa [hreceived, List.append_assoc] at hperm
  case sent_perm =>
    have hperm := h.sent_perm
    change (s.sent ++ (o.unsent ++ _)).Perm _ at hperm
    rw [sent_note, List.append_assoc]
    rwa [hsent, List.append_assoc] at hperm
  case taken_eq =>
    have heq := h.taken_eq
    change s.broadcasts + (o.counted + _) = _ at heq
    show s.broadcasts + (o'.counted + _) = _
    rw [hcounted]
    exact heq
  case evictions_eq =>
    rw [evictions_note, Event.closingCount_of_not_dropped hdropped, Ledger.leaverEvictions, hall]
    exact h.evictions_eq

/-! ## Evictions -/

theorem sum_evictions {t : PeerTable} {p : Peer} (hp : t.get? key = some p) :
    (t.values.map Peer.evictions).sum =
      p.evictions + ((t.erase key).values.map Peer.evictions).sum := by
  rw [((KeyTable.perm_values_erase hp).map Peer.evictions).sum_nat, List.map_cons, List.sum_cons]

theorem sum_evictions_insert (t : PeerTable) (key : Nat) (p : Peer) :
    ((t.insert key p).values.map Peer.evictions).sum =
      p.evictions + ((t.erase key).values.map Peer.evictions).sum := by
  rw [((KeyTable.perm_values_insert t key p).map Peer.evictions).sum_nat, List.map_cons,
    List.sum_cons]

/-- An eviction is counted for the peer that it comes from; it is missed if the peer has left. -/
theorem recordEviction (h : s.Books { l with items := {} :: os }) (key : Nat) :
    State.Books { s with peers := s.peers.recordEviction key }
      { l with
        taken := l.taken + 1
        missed := l.missed + if s.peers.contains key then 0 else 1
        items := { counted := 1 } :: os } := by
  have hcontains : ∀ j, (s.peers.recordEviction key).contains j = s.peers.contains j :=
    fun j => KeyTable.contains_modify ..
  have htaken := h.taken_eq
  have hevictions := h.evictions_eq
  change s.broadcasts + (0 + (os.map OpenItem.counted).sum) = l.taken at htaken
  refine { h with member_iff := fun j => ?_, taken_eq := ?_, evictions_eq := ?_ }
  · rw [hcontains]
    exact h.member_iff j
  · show s.broadcasts + (1 + (os.map OpenItem.counted).sum) = l.taken + 1
    omega
  · have hsum : ((s.peers.recordEviction key).values.map Peer.evictions).sum =
        (s.peers.values.map Peer.evictions).sum + if s.peers.contains key then 1 else 0 := by
      cases hp : s.peers.get? key with
      | none =>
        have hsame : s.peers.recordEviction key = s.peers := by
          apply KeyTable.ext_get?
          intro j
          unfold PeerTable.recordEviction
          rw [KeyTable.get?_modify]
          split
          next hj => rw [hj, hp]; rfl
          next => rfl
        rw [hsame, KeyTable.contains, hp]
        rfl
      | some p =>
        have hinsert : s.peers.recordEviction key =
            s.peers.insert key { p with evictions := p.evictions + 1 } :=
          KeyTable.modify_eq_insert _ hp
        rw [hinsert, sum_evictions_insert, sum_evictions hp, KeyTable.contains, hp]
        show p.evictions + 1 + _ = p.evictions + _ + 1
        omega
    change (s.peers.values.map Peer.evictions).sum + (s.journal.map Event.closingCount).sum +
      ({ l with items := {} :: os } : Ledger).leaverEvictions + l.missed = l.taken at hevictions
    show ((s.peers.recordEviction key).values.map Peer.evictions).sum +
      (s.journal.map Event.closingCount).sum +
      ({ l with items := {} :: os } : Ledger).leaverEvictions +
        (l.missed + if s.peers.contains key then 0 else 1) = l.taken + 1
    rw [hsum]
    split <;> omega

/-- The eviction gets the next number, which is to be reported. -/
theorem nextSequence (h : s.Books { l with items := { counted := 1 } :: os }) :
    s.nextSequence.2.Books
      { l with items :=
          { unreported := [s.nextSequence.1], unsent := [s.nextSequence.1] } :: os } := by
  have hrange : List.range' 1 (s.broadcasts + 1) =
      List.range' 1 s.broadcasts ++ [s.broadcasts + 1] := by
    rw [List.range'_1_concat, Nat.add_comm 1]
  have hlast : ∀ xs ys : List Nat, (xs ++ ys).Perm (List.range' 1 s.broadcasts) →
      (xs ++ ([s.broadcasts + 1] ++ ys)).Perm (List.range' 1 (s.broadcasts + 1)) := by
    intro xs ys hperm
    have hswap : ([s.broadcasts + 1] ++ ys).Perm (ys ++ [s.broadcasts + 1]) :=
      List.perm_append_comm
    rw [hrange]
    refine (hswap.append_left xs).trans ?_
    rw [← List.append_assoc]
    exact hperm.append_right _
  refine { h with
    received_perm := hlast _ _ h.received_perm
    sent_perm := hlast _ _ h.sent_perm
    taken_eq := ?_ }
  have heq := h.taken_eq
  change s.broadcasts + (1 + (os.map OpenItem.counted).sum) = l.taken at heq
  show s.broadcasts + 1 + (0 + (os.map OpenItem.counted).sum) = l.taken
  omega

/-! ## Coming -/

theorem nextKey (h : s.Books l) (hkeyed : l.keyed = []) :
    s.nextKey.2.Books { l with keyed := [s.nextKey.1] } := by
  refine { h with accepted_eq := ?_ }
  have heq := h.accepted_eq
  rw [hkeyed, List.append_nil] at heq
  show s.accepted ++ l.arriving ++ [s.lastKey + 1] = List.range' 1 (s.lastKey + 1)
  rw [heq, List.range'_1_concat, Nat.add_comm 1]

/-- A new peer comes without evictions. -/
theorem evictions_insertPeer (hnone : s.peers.get? key = none) (address : String) :
    (s.insertPeer key address).evictions = s.evictions := by
  have hsum := sum_evictions_insert s.peers key (.ofAddress address)
  rw [KeyTable.erase_of_get?_eq_none hnone] at hsum
  refine congrArg (· + (s.journal.map Event.closingCount).sum) (hsum.trans ?_)
  exact Nat.zero_add _

theorem insertPeer (h : s.Books l) (hkeyed : l.keyed = [key]) (harriving : l.arriving = [])
    (address : String) :
    (s.insertPeer key address).Books { l with keyed := [], arriving := [key] } := by
  have hnew := h.not_arrived hkeyed
  have hfresh : key ∉ s.dropped ++ l.leaving := fun hk => hnew (h.dropped_subset hk)
  have hnone : s.peers.get? key = none := by
    rw [← Option.not_isSome_iff_eq_none]
    exact fun hm => hnew ((h.member_iff key).1 hm).1
  -- Without anybody on the way, only those that have been reported are known.
  have hknown : s.accepted ++ l.arriving = s.accepted := by
    rw [harriving]
    exact List.append_nil _
  have hget : ∀ j, (s.insertPeer key address).connections.get? j =
      if j = key then some ⟨.ofDepth s.config.queueDepth, .start, s.stopping⟩
      else s.connections.get? j := fun j => KeyTable.get?_insert ..
  constructor
  case accepted_eq =>
    have heq := h.accepted_eq
    rw [hknown, hkeyed] at heq
    exact (List.append_nil _).trans heq
  case member_iff =>
    intro j
    show ((s.peers.insert key _).get? j).isSome = true ↔ j ∈ s.accepted ++ [key] ∧ _
    rw [KeyTable.get?_insert, List.mem_append, List.mem_singleton]
    split
    next hj =>
      subst hj
      exact iff_of_true rfl ⟨.inr rfl, hfresh⟩
    next hj =>
      rw [or_iff_left hj, ← hknown]
      exact h.member_iff j
  case dropped_nodup => exact h.dropped_nodup
  case dropped_subset =>
    have hsubset := h.dropped_subset
    rw [hknown] at hsubset
    exact List.subset_append_of_subset_left _ hsubset
  case connected_iff =>
    intro j
    show _ ↔ j ∈ s.accepted ++ [key]
    rw [KeyTable.contains, hget, List.mem_append, List.mem_singleton]
    split
    next hj => exact iff_of_true rfl (.inr hj)
    next hj =>
      rw [or_iff_left hj, ← hknown]
      exact h.connected_iff j
  case asked_of_stopping => exact h.asked_of_stopping
  case cancelled_of_told =>
    intro j c hc hor
    rw [hget] at hc
    split at hc
    next hj =>
      -- A new peer is told to stop at once if all have been told.
      cases hc
      refine hor.resolve_right fun hk => hfresh ?_
      subst hj
      refine List.append_subset.2 ⟨List.subset_append_left _ _, ?_⟩ hk
      exact fun i hi => List.mem_append_right _ ((List.filter_sublist.map _).subset hi)
    next hj => exact h.cancelled_of_told hc hor
  case told_of_cancelled =>
    intro j c hc hcancelled
    rw [hget] at hc
    split at hc
    next hj =>
      cases hc
      exact .inl (h.asked_of_stopping hcancelled)
    next hj => exact h.told_of_cancelled hc hcancelled
  case received_perm => exact h.received_perm
  case sent_perm => exact h.sent_perm
  case taken_eq => exact h.taken_eq
  case evictions_eq =>
    rw [evictions_insertPeer hnone]
    exact h.evictions_eq

theorem noteAccepted (h : s.Books l) (harriving : l.arriving = [key]) (address : String)
    (peers : Nat) : (s.note (.accepted key address peers)).Books { l with arriving := [] } := by
  have hsame :
      (s.note (.accepted key address peers)).accepted ++ [] = s.accepted ++ l.arriving := by
    rw [accepted_note, harriving, List.append_nil]
    rfl
  have hd : (s.note (.accepted key address peers)).dropped = s.dropped :=
    filterMap_note_of_none s rfl
  constructor
  case accepted_eq =>
    show (s.note (.accepted key address peers)).accepted ++ [] ++ l.keyed = _
    rw [hsame]
    exact h.accepted_eq
  case member_iff => rw [hsame, hd]; exact h.member_iff
  case dropped_nodup => rw [hd]; exact h.dropped_nodup
  case dropped_subset => rw [hsame, hd]; exact h.dropped_subset
  case connected_iff => rw [hsame]; exact h.connected_iff
  case asked_of_stopping => exact h.asked_of_stopping
  case cancelled_of_told => rw [hd]; exact h.cancelled_of_told
  case told_of_cancelled => rw [hd]; exact h.told_of_cancelled
  case received_perm => rw [received, filterMap_note_of_none s rfl]; exact h.received_perm
  case sent_perm => rw [sent, filterMap_note_of_none s rfl]; exact h.sent_perm
  case taken_eq => exact h.taken_eq
  case evictions_eq => rw [evictions_note]; exact h.evictions_eq

/-! ## Going -/

/-- A peer leaves the table with what has been counted for it. -/
theorem remove (h : s.Books { l with items := {} :: os }) {p : Peer}
    (hp : s.peers.get? key = some p) :
    State.Books { s with peers := s.peers.erase key }
      { l with items := { leavers := [⟨key, p.evictions, false⟩] } :: os } := by
  have hm : s.peers.contains key = true := by
    unfold KeyTable.contains
    rw [hp]
    rfl
  obtain ⟨hknown, hstays⟩ := (h.member_iff key).1 hm
  have hperm : (s.dropped ++ key :: ({ l with items := {} :: os } : Ledger).leaving).Perm
      (key :: (s.dropped ++ ({ l with items := {} :: os } : Ledger).leaving)) :=
    List.perm_middle
  constructor
  case accepted_eq => exact h.accepted_eq
  case member_iff =>
    intro j
    refine Iff.trans ?_ (and_congr_right' (not_congr hperm.mem_iff.symm))
    rw [KeyTable.contains, KeyTable.get?_erase, List.mem_cons, not_or]
    split
    next hj => exact iff_of_false Bool.false_ne_true fun hnot => hnot.2.1 hj
    next hj =>
      rw [and_iff_right hj]
      exact h.member_iff j
  case dropped_nodup => exact hperm.nodup_iff.2 (List.nodup_cons.2 ⟨hstays, h.dropped_nodup⟩)
  case dropped_subset =>
    intro j hj
    rcases List.mem_cons.1 (hperm.mem_iff.1 hj) with rfl | hj
    · exact hknown
    · exact h.dropped_subset hj
  case connected_iff => exact h.connected_iff
  case asked_of_stopping => exact h.asked_of_stopping
  case cancelled_of_told => exact h.cancelled_of_told
  case told_of_cancelled => exact h.told_of_cancelled
  case received_perm => exact h.received_perm
  case sent_perm => exact h.sent_perm
  case taken_eq => exact h.taken_eq
  case evictions_eq =>
    have hsum := sum_evictions hp
    have heq := h.evictions_eq
    show ((s.peers.erase key).values.map Peer.evictions).sum +
      (s.journal.map Event.closingCount).sum +
        (p.evictions + ({ l with items := {} :: os } : Ledger).leaverEvictions) + l.missed = l.taken
    unfold evictions at heq
    change _ = l.taken at heq
    change _ + _ + l.missed = l.taken at heq
    omega

/-- The tasks of a peer that has left are told to stop. -/
theorem cancel {evictions : Nat}
    (h : s.Books { l with items := { leavers := [⟨key, evictions, false⟩] } :: os }) :
    (s.cancel key).Books { l with items := { leavers := [⟨key, evictions, true⟩] } :: os } := by
  have hget : ∀ j, (s.cancel key).connections.get? j =
      if j = key then (s.connections.get? j).map fun c => { c with cancelled := true }
      else s.connections.get? j := fun j => KeyTable.get?_modify ..
  have hperm : (s.dropped ++ key :: ({ l with items := {} :: os } : Ledger).told).Perm
      (key :: (s.dropped ++ ({ l with items := {} :: os } : Ledger).told)) := List.perm_middle
  refine { h with connected_iff := fun j => ?_, cancelled_of_told := ?_, told_of_cancelled := ?_ }
  · exact (Eq.congr_left (KeyTable.contains_modify ..)).trans (h.connected_iff j)
  · intro j c hc hor
    rw [hget] at hc
    split at hc
    next hj =>
      obtain ⟨d, -, rfl⟩ := Option.map_eq_some_iff.1 hc
      rfl
    next hj =>
      refine h.cancelled_of_told hc (hor.imp_right fun hk => ?_)
      exact (List.mem_cons.1 (hperm.mem_iff.1 hk)).resolve_left hj
  · intro j c hc hcancelled
    rw [hget] at hc
    refine or_iff_not_imp_left.2 fun hasked => hperm.mem_iff.2 ?_
    split at hc
    next hj => exact hj ▸ List.mem_cons_self
    next hj =>
      exact List.mem_cons_of_mem _ ((h.told_of_cancelled hc hcancelled).resolve_left hasked)

/-- It is reported as dropped. -/
theorem noteDropped {evictions : Nat}
    (h : s.Books { l with items := { leavers := [⟨key, evictions, true⟩] } :: os })
    (nickname : String) (reason : Disconnect) (left : Nat) :
    (s.note (.disconnected key nickname evictions reason left)).Books
      { l with items := {} :: os } := by
  let e : Event := .disconnected key nickname evictions reason left
  have ha : (s.note e).accepted = s.accepted := filterMap_note_of_none s rfl
  -- The key goes from the ledger to the journal.
  have hd : ∀ keys, (s.note e).dropped ++ keys = s.dropped ++ key :: keys := by
    intro keys
    rw [dropped_note, List.append_assoc]
    rfl
  constructor
  case accepted_eq => rw [ha]; exact h.accepted_eq
  case member_iff => rw [ha, hd]; exact h.member_iff
  case dropped_nodup => rw [hd]; exact h.dropped_nodup
  case dropped_subset => rw [ha, hd]; exact h.dropped_subset
  case connected_iff => rw [ha]; exact h.connected_iff
  case asked_of_stopping => exact h.asked_of_stopping
  case cancelled_of_told => rw [hd]; exact h.cancelled_of_told
  case told_of_cancelled => rw [hd]; exact h.told_of_cancelled
  case received_perm => rw [received, filterMap_note_of_none s rfl]; exact h.received_perm
  case sent_perm => rw [sent, filterMap_note_of_none s rfl]; exact h.sent_perm
  case taken_eq => exact h.taken_eq
  case evictions_eq =>
    have heq := h.evictions_eq
    change s.evictions + (evictions + ({ l with items := {} :: os } : Ledger).leaverEvictions) +
      l.missed = l.taken at heq
    rw [evictions_note]
    show s.evictions + evictions + ({ l with items := {} :: os } : Ledger).leaverEvictions +
      l.missed = l.taken
    omega

/-! ## Stopping -/

theorem ask (h : s.Books l) : s.Books { l with asked := true } :=
  { h with
    asked_of_stopping := fun _ => rfl
    told_of_cancelled := fun _ _ => .inl rfl }

/-- A connection is told to stop because all are to be told. -/
theorem tell (h : s.Books l) (hasked : l.asked = true) (key : Nat) : (s.cancel key).Books l := by
  refine { h with
    connected_iff := fun j => ?_
    cancelled_of_told := fun {j c} hc hor => ?_
    told_of_cancelled := fun _ _ => .inl hasked }
  · exact (Eq.congr_left (KeyTable.contains_modify ..)).trans (h.connected_iff j)
  · change (s.connections.modify key _).get? j = some c at hc
    rw [KeyTable.get?_modify] at hc
    split at hc
    next hj =>
      obtain ⟨d, -, rfl⟩ := Option.map_eq_some_iff.1 hc
      rfl
    next hj => exact h.cancelled_of_told hc hor

theorem cancelAll (h : s.Books l) (hasked : l.asked = true) : s.cancelAll.Books l := by
  refine { h with
    connected_iff := fun key => ?_
    asked_of_stopping := fun _ => hasked
    cancelled_of_told := fun {key d} hd _ => ?_
    told_of_cancelled := fun _ _ => .inl hasked }
  · refine Iff.trans ?_ (h.connected_iff key)
    show ((s.connections.mapValues _).get? key).isSome = true ↔ _
    rw [KeyTable.get?_mapValues, Option.isSome_map, KeyTable.contains]
  · change (s.connections.mapValues _).get? key = some d at hd
    rw [KeyTable.get?_mapValues] at hd
    obtain ⟨c, -, rfl⟩ := Option.map_eq_some_iff.1 hd
    rfl

end Books

end State

end EvictionBus.Relay
