import EvictionBus.Proofs.Relay.Books

/-!
# The tasks keep the books

What a task has begun is an open item of the ledger.  A step of a task changes its own item and the
books with it, and leaves the items of the others alone, so that the books are right after any steps
in any order.
-/

namespace EvictionBus.Relay

/-! ## Open items -/

/-- What has been begun to drop a peer. -/
def Dropping.item (key : Nat) : Dropping → OpenItem
  | .remove _ => {}
  | .cancel p _ => { leavers := [⟨key, p.evictions, false⟩] }
  | .count p _ | .report p _ _ => { leavers := [⟨key, p.evictions, true⟩] }

/-- What the reader of a connection has begun. -/
def Work.item (key : Nat) : Work → OpenItem
  | .counted .. => { counted := 1 }
  | .numbered _ _ sequence | .identified _ _ sequence _ =>
    { unreported := [sequence], unsent := [sequence] }
  | .reported _ sequence | .addressed _ sequence _ => { unsent := [sequence] }
  | .dropping j d _ _ => d.item j
  | .ending d => d.item key
  | _ => {}

namespace Serving

/-- The peer that is in the table and has not been reported as accepted. -/
def arrivals : Serving → List Nat
  | .inserted key _ | .counted key _ _ => [key]
  | _ => []

/-- The key of a connection that is not in the table yet. -/
def newKeys : Serving → List Nat
  | .keyed key _ => [key]
  | _ => []

def item : Serving → OpenItem
  | .dropping key d _ => d.item key
  | _ => {}

/-- The peers that are still to be dropped, when no more are accepted. -/
def left? : Serving → Option (List Nat)
  | .leaving keys => some keys
  | .dropping key (.remove _) keys => some (key :: keys)
  | .dropping _ _ keys => some keys
  | .totalled _ | .returned => some []
  | _ => none

end Serving

/-- What the tasks of many connections have begun. -/
def tableItems {α : Type} (item : Nat → α → OpenItem) (table : KeyTable α) : List OpenItem :=
  table.entries.map fun e => item e.1 e.2

section Items

variable {α : Type} (item : Nat → α → OpenItem) {table : KeyTable α} {key : Nat} {a : α}

theorem perm_items_erase (h : table.get? key = some a) :
    (tableItems item table).Perm (item key a :: tableItems item (table.erase key)) :=
  (KeyTable.perm_entries_erase h).map _

theorem perm_items_insert :
    (tableItems item (table.insert key a)).Perm
      (item key a :: tableItems item (table.erase key)) :=
  (KeyTable.perm_entries_insert table key a).map _

end Items

namespace Tasks

variable (t : Tasks)

/-- What a writer that has failed has begun. -/
def failureItem (key : Nat) (d : Option Dropping) : OpenItem :=
  d.elim {} (Dropping.item key)

/-- The ledger after `taken` evictions, of which `missed` have not been counted for a peer. -/
def ledger (taken missed : Nat) : Ledger where
  taken := taken
  missed := missed
  asked := t.asked
  arriving := t.serving.arrivals
  keyed := t.serving.newKeys
  items := t.serving.item :: (tableItems Work.item t.works ++ tableItems failureItem t.failures)

/-- The evictions that a reader starts on at a step when its peer has left the table. -/
def missedAt (x : Step) : List (Nat × RawFrame) :=
  (t.startedAt x).filter fun e => e.2.isEviction && !t.relay.peers.contains e.1

/-- The evictions of a run that no peer is given the credit for. -/
def missedOver (t : Tasks) (steps : List Step) : List (Nat × RawFrame) :=
  t.along missedAt steps

end Tasks

/-! ## Dropping a peer -/

namespace Dropping

variable {s : State} {l : Ledger} {os : List OpenItem} {key : Nat}

theorem books_proceed {d : Dropping} (h : s.Books { l with items := d.item key :: os }) :
    (d.proceed s key).1.Books
      { l with items := (d.proceed s key).2.elim {} (item key) :: os } := by
  cases d with
  | remove reason =>
    cases hp : s.peers.get? key with
    | none => rw [proceed_of_get?_eq_none hp]; exact h
    | some p => rw [proceed_of_get? hp]; exact h.remove hp
  | cancel p reason => exact h.cancel
  | count p reason => exact h
  | report p reason left => exact h.noteDropped ..

/-- Peers only leave the table. -/
theorem member_proceed {s : State} {key j : Nat} {d : Dropping}
    (hm : (d.proceed s key).1.peers.contains j = true) : s.peers.contains j = true := by
  cases d with
  | remove reason =>
    cases hp : s.peers.get? key with
    | none => rwa [proceed_of_get?_eq_none hp] at hm
    | some p =>
      rw [proceed_of_get? hp] at hm
      exact (KeyTable.contains_erase.1 hm).2
  | _ => exact hm

end Dropping

/-! ## Work -/

namespace Work

variable {s : State} {l : Ledger} {os : List OpenItem} {key : Nat}

theorem books_take (h : s.Books { l with items := {} :: os }) (key : Nat) (f : RawFrame) :
    (take s key f).1.Books { l with
      taken := l.taken + if f.isEviction then 1 else 0
      missed := l.missed + if f.isEviction && !s.peers.contains key then 1 else 0
      items := (take s key f).2.item key :: os } := by
  cases hop : f.header.op with
  | evict =>
    by_cases hpos : 0 < f.header.length
    · have heviction : f.isEviction = true := by simp [RawFrame.isEviction, hop, hpos]
      have hcounted := h.recordEviction key
      simp only [take, hop, if_pos hpos, heviction]
      cases hm : s.peers.contains key <;> rw [hm] at hcounted <;> exact hcounted
    · have heviction : f.isEviction = false := by simp [RawFrame.isEviction, hop, hpos]
      simp only [take, hop, if_neg hpos, heviction]
      exact h
  | hello =>
    have heviction : f.isEviction = false := by simp [RawFrame.isEviction, hop]
    simp only [take, hop, heviction]
    exact h.setNickname key _
  | welcome =>
    have heviction : f.isEviction = false := by simp [RawFrame.isEviction, hop]
    simp only [take, hop, heviction]
    exact h
  | other code =>
    have heviction : f.isEviction = false := by simp [RawFrame.isEviction, hop]
    simp only [take, hop, heviction]
    exact h

theorem books_offer (h : s.Books { l with items := {} :: os }) (bytes : Bytes) (j : Nat)
    (keys : List Nat) :
    (offer s bytes j keys).1.Books { l with items := (offer s bytes j keys).2.item key :: os } := by
  unfold offer
  split
  next t ht => exact h.enqueue ht
  next => exact h

theorem item_whileDropping (key j : Nat) (bytes : Bytes) (keys : List Nat)
    (left : Option Dropping) :
    (whileDropping j bytes keys left).item key = left.elim {} (Dropping.item j) := by
  cases left <;> rfl

theorem item_whileEnding (key : Nat) (left : Option Dropping) :
    (whileEnding left).item key = left.elim {} (Dropping.item key) := by
  cases left <;> rfl

theorem books_answer (h : s.Books { l with items := {} :: os }) (key : Nat) :
    (answer s key).1.Books
      { l with items := (answer s key).2.elim {} (item key) :: os } := by
  unfold answer
  split
  next t ht => exact h.enqueue ht
  next => exact h

theorem books_proceed {w : Work} (h : s.Books { l with items := w.item key :: os }) :
    (w.proceed s key).1.Books
      { l with items := (w.proceed s key).2.elim {} (item key) :: os } := by
  cases w with
  | counted f evictions => exact h.nextSequence
  | numbered f evictions sequence => exact h
  | identified f evictions sequence nickname => exact h.note rfl rfl rfl rfl rfl rfl
  | reported f sequence => exact h
  | addressed f sequence keys => exact h.note rfl rfl rfl rfl rfl rfl
  | offering bytes keys =>
    cases keys with
    | nil => exact h
    | cons j keys => exact books_offer h bytes j keys
  | dropping j d bytes keys =>
    have hnext := Dropping.books_proceed h
    rw [← item_whileDropping key j bytes keys] at hnext
    exact hnext
  | ignored op length nickname => exact h.note rfl rfl rfl rfl rfl rfl
  | named nickname => exact h.note rfl rfl rfl rfl rfl rfl
  | greeted => cases hm : s.peers.contains key <;> simp only [proceed, hm] <;> exact h
  | answering => exact books_answer h key
  | ending d =>
    have hnext := Dropping.books_proceed h
    rw [← item_whileEnding key] at hnext
    exact hnext
  | returned => exact h

theorem peers_enqueue {t : State} {bytes : Bytes} (ht : s.enqueue key bytes = .ok t) :
    t.peers = s.peers := by
  unfold State.enqueue at ht
  split at ht
  · cases ht
  · split at ht <;> cases ht
    rfl

theorem peers_offer (s : State) (bytes : Bytes) (key : Nat) (keys : List Nat) :
    (offer s bytes key keys).1.peers = s.peers := by
  unfold offer
  split
  next t ht => exact peers_enqueue ht
  next => rfl

theorem peers_answer (s : State) (key : Nat) : (answer s key).1.peers = s.peers := by
  unfold answer
  split
  next t ht => exact peers_enqueue ht
  next => rfl

theorem member_take {f : RawFrame} {j : Nat}
    (hm : (take s key f).1.peers.contains j = true) : s.peers.contains j = true := by
  unfold take at hm
  split at hm
  · split at hm
    · exact (KeyTable.contains_modify ..).symm.trans hm
    · exact hm
  · exact (KeyTable.contains_modify ..).symm.trans hm
  · exact hm

theorem member_proceed {w : Work} {j : Nat}
    (hm : (w.proceed s key).1.peers.contains j = true) : s.peers.contains j = true := by
  cases w with
  | offering bytes keys =>
    cases keys with
    | nil => exact hm
    | cons i keys =>
      change (offer s bytes i keys).1.peers.contains j = true at hm
      rwa [peers_offer] at hm
  | dropping i d bytes keys => exact Dropping.member_proceed hm
  | answering =>
    change (answer s key).1.peers.contains j = true at hm
    rwa [peers_answer] at hm
  | ending d => exact Dropping.member_proceed hm
  | _ => exact hm

end Work

/-! ## The task that accepts connections -/

namespace Serving

variable {s : State} {l : Ledger} {os : List OpenItem}

theorem books_proceed {serving : Serving} (h : s.Books { l with
    arriving := serving.arrivals, keyed := serving.newKeys, items := serving.item :: os }) :
    (serving.proceed s).1.Books { l with
      arriving := (serving.proceed s).2.arrivals
      keyed := (serving.proceed s).2.newKeys
      items := (serving.proceed s).2.item :: os } := by
  cases serving with
  | keyed key address => exact h.insertPeer rfl rfl address
  | inserted key address => exact h
  | counted key address peers => exact h.noteAccepted rfl address _
  | leaving keys => cases keys <;> exact h
  | dropping key d keys =>
    have hnext := Dropping.books_proceed (l := { l with arriving := [], keyed := [] }) h
    simp only [proceed]
    generalize d.proceed s key = outcome at hnext
    obtain ⟨s', _ | left⟩ := outcome
    · exact hnext
    · exact hnext
  | totalled broadcasts =>
    exact State.Books.note (l := { l with arriving := [], keyed := [] }) h rfl rfl rfl rfl rfl rfl
  | _ => exact h

/-- Peers that are still to be dropped stay so until they have left the table. -/
theorem left_proceed {serving : Serving}
    (h : ∀ {keys}, serving.left? = some keys → ∀ {j}, s.peers.contains j = true → j ∈ keys)
    {keys : List Nat} (hleft : (serving.proceed s).2.left? = some keys) {j : Nat}
    (hm : (serving.proceed s).1.peers.contains j = true) : j ∈ keys := by
  cases serving with
  | notified =>
    cases hleft
    exact (KeyTable.mem_keys_iff _ j).2 hm
  | leaving left =>
    cases left with
    | nil =>
      cases hleft
      exact h rfl hm
    | cons key left =>
      cases hleft
      exact h rfl hm
  | dropping key d left =>
    cases d with
    | remove reason =>
      change (whileDropping key left ((Dropping.remove reason).proceed s key).2).left? =
        some keys at hleft
      change ((Dropping.remove reason).proceed s key).1.peers.contains j = true at hm
      cases hp : s.peers.get? key with
      | none =>
        rw [Dropping.proceed_of_get?_eq_none hp] at hm hleft
        cases hleft
        refine (List.mem_cons.1 (h rfl hm)).resolve_left fun hj => ?_
        rw [hj, KeyTable.contains, hp] at hm
        cases hm
      | some p =>
        rw [Dropping.proceed_of_get? hp] at hm hleft
        cases hleft
        obtain ⟨hj, hm⟩ := KeyTable.contains_erase.1 hm
        exact (List.mem_cons.1 (h rfl hm)).resolve_left hj
    | _ =>
      cases hleft
      exact h rfl hm
  | totalled broadcasts =>
    cases hleft
    exact h rfl hm
  | returned =>
    cases hleft
    exact h rfl hm
  | _ => cases hleft

end Serving

/-! ## Steps -/

namespace Tasks

variable {t : Tasks} {taken missed key : Nat}

/-- The books are right at any time.  Once no more peers are accepted, those in the table are still
to be dropped. -/
structure Sound (t : Tasks) (taken missed : Nat) : Prop where
  booked : t.relay.Books (t.ledger taken missed)
  left : ∀ {keys}, t.serving.left? = some keys →
    ∀ {j}, t.relay.peers.contains j = true → j ∈ keys

theorem sound_start (config : Config) (identity : Identity) :
    (start config identity).Sound 0 0 :=
  ⟨State.Books.cons_none (l := ⟨0, 0, false, [], [], []⟩) (State.books_start config identity),
    fun h => by cases h⟩

/-! ### Readers -/

/-- The items of all tasks but the reader of one connection. -/
def besidesReader (t : Tasks) (key : Nat) : List OpenItem :=
  t.serving.item ::
    (tableItems Work.item (t.works.erase key) ++ tableItems failureItem t.failures)

theorem Sound.of_working (h : t.Sound taken missed) {w : Work} (hw : t.works.get? key = some w) :
    t.relay.Books
      { t.ledger taken missed with items := w.item key :: t.besidesReader key } := by
  refine h.booked.perm ?_
  exact ((perm_items_erase Work.item hw).append_right _).cons _ |>.trans (.swap ..)

theorem Sound.of_waiting (h : t.Sound taken missed) (hw : t.works.get? key = none) :
    t.relay.Books { t.ledger taken missed with items := {} :: t.besidesReader key } := by
  refine State.Books.cons_none ?_
  unfold besidesReader
  rw [KeyTable.erase_of_get?_eq_none hw]
  exact h.booked

theorem sound_put (h : t.Sound taken missed) {more less : Nat} {outcome : State × Option Work}
    (hm : ∀ {j}, outcome.1.peers.contains j = true → t.relay.peers.contains j = true)
    (hb : outcome.1.Books { t.ledger more less with
      items := outcome.2.elim {} (Work.item key) :: t.besidesReader key }) :
    (t.put key outcome).Sound more less := by
  obtain ⟨s, w⟩ := outcome
  cases w with
  | none => exact ⟨hb.of_cons_none, fun hkeys _ hj => h.left hkeys (hm hj)⟩
  | some w =>
    refine ⟨hb.perm ?_, fun hkeys _ hj => h.left hkeys (hm hj)⟩
    exact (List.Perm.swap ..).trans
      (((perm_items_insert Work.item).symm.append_right _).cons t.serving.item)

theorem sound_read (h : t.Sound taken missed) (key : Nat) (frame : RawFrame) :
    (t.read key frame).Sound
      (taken + (t.startedAt (.read key frame)).countP fun e => e.2.isEviction)
      (missed + (t.missedAt (.read key frame)).length) := by
  unfold missedAt
  show (if t.canRead key then _ else t).Sound
    (taken + (if t.canRead key then [(key, frame)] else []).countP _)
    (missed + ((if t.canRead key then [(key, frame)] else []).filter _).length)
  by_cases hcan : t.canRead key = true
  · have hwaits := hcan
    rw [canRead, waits, Bool.and_eq_true, Bool.and_eq_true] at hwaits
    rw [if_pos hcan, if_pos hcan, ← List.countP_eq_length_filter, List.countP_singleton,
      List.countP_singleton]
    refine sound_put h Work.member_take ?_
    exact Work.books_take (h.of_waiting (Option.isNone_iff_eq_none.1 hwaits.1.2)) key frame
  · rw [if_neg hcan, if_neg hcan]
    exact h

theorem sound_giveUp (h : t.Sound taken missed) (key : Nat) (reason : Disconnect) :
    (t.giveUp key reason).Sound taken missed := by
  unfold giveUp
  split
  next hwaits =>
    rw [waits, Bool.and_eq_true] at hwaits
    exact sound_put h id (h.of_waiting (Option.isNone_iff_eq_none.1 hwaits.2))
  next => exact h

theorem sound_proceed (h : t.Sound taken missed) (key : Nat) :
    (t.proceed key).Sound taken missed := by
  cases hw : t.works.get? key with
  | none =>
    unfold proceed
    rw [hw]
    exact h
  | some w =>
    rw [proceed_of_get? hw]
    exact sound_put h Work.member_proceed (Work.books_proceed (h.of_working hw))

/-! ### Writers -/

/-- The items of all tasks but the writer of one connection. -/
def besidesWriter (t : Tasks) (key : Nat) : List OpenItem :=
  t.serving.item ::
    (tableItems Work.item t.works ++ tableItems failureItem (t.failures.erase key))

/-- A writer that has failed has come to a point in what it does. -/
theorem sound_insert (h : t.Sound taken missed) {s : State} {d : Option Dropping}
    (hm : ∀ {j}, s.peers.contains j = true → t.relay.peers.contains j = true)
    (hb : s.Books { t.ledger taken missed with
      items := failureItem key d :: t.besidesWriter key }) :
    Sound { t with relay := s, failures := t.failures.insert key d } taken missed := by
  refine ⟨hb.perm ?_, fun hkeys _ hj => h.left hkeys (hm hj)⟩
  refine (List.Perm.swap ..).trans (List.Perm.cons _ ?_)
  exact List.perm_middle.symm.trans ((perm_items_insert failureItem).symm.append_left _)

theorem sound_failWriting (h : t.Sound taken missed) (key : Nat) (e : IoError) :
    (t.failWriting key e).Sound taken missed := by
  unfold failWriting
  split
  next hfails =>
    rw [Bool.and_eq_true] at hfails
    refine sound_insert h id (State.Books.cons_none ?_)
    unfold besidesWriter
    rw [KeyTable.erase_of_get?_eq_none (Option.isNone_iff_eq_none.1 hfails.2)]
    exact h.booked
  next => exact h

theorem sound_settle (h : t.Sound taken missed) (key : Nat) :
    (t.settle key).Sound taken missed := by
  unfold settle
  split
  next d hd =>
    refine sound_insert h Dropping.member_proceed (Dropping.books_proceed (h.booked.perm ?_))
    refine (List.Perm.cons _ ?_).trans (List.Perm.swap ..)
    exact ((perm_items_erase failureItem hd).append_left _).trans List.perm_middle
  next => exact h

/-! ### The task that accepts connections, and the others -/

theorem sound_accept (h : t.Sound taken missed) (address : String) :
    (t.accept address).Sound taken missed := by
  unfold accept
  split
  next hserving =>
    have hb := h.booked
    unfold ledger at hb
    rw [hserving] at hb
    exact ⟨hb.nextKey rfl, fun hkeys => by cases hkeys⟩
  next => exact h

theorem sound_leave (h : t.Sound taken missed) : t.leave.Sound taken missed := by
  unfold leave
  split
  next hserving =>
    split
    · have hb := h.booked
      unfold ledger at hb
      rw [hserving] at hb
      have hnoted := State.Books.note
        (l := { t.ledger taken missed with arriving := [], keyed := [] }) hb
        (e := .shutdownRequested) rfl rfl rfl rfl rfl rfl
      exact ⟨hnoted, fun hkeys => by cases hkeys⟩
    · exact h
  next => exact h

theorem sound_serve (h : t.Sound taken missed) : t.serve.Sound taken missed :=
  ⟨Serving.books_proceed (l := t.ledger taken missed) h.booked,
    fun hkeys _ hm => Serving.left_proceed h.left hkeys hm⟩

theorem sound_relay (h : t.Sound taken missed) {s : State} (hb : s.Books (t.ledger taken missed))
    (hpeers : s.peers = t.relay.peers) : Sound { t with relay := s } taken missed :=
  ⟨hb, fun hkeys _ hm => h.left hkeys (by rwa [← hpeers])⟩

theorem sound_step (h : t.Sound taken missed) (x : Step) :
    (t.step x).Sound (taken + (t.startedAt x).countP fun e => e.2.isEviction)
      (missed + (t.missedAt x).length) := by
  cases x with
  | accept address => exact sound_accept h address
  | leave => exact sound_leave h
  | serve => exact sound_serve h
  | read key frame => exact sound_read h key frame
  | giveUp key reason => exact sound_giveUp h key reason
  | proceed key => exact sound_proceed h key
  | keep key input => exact sound_relay h (h.booked.modify key fun _ => rfl) rfl
  | take key =>
    have hqueue := State.requeued_takeOutbound t.relay key
    exact sound_relay h (h.booked.requeued hqueue) hqueue.tables_eq.1
  | failWriting key e => exact sound_failWriting h key e
  | settle key => exact sound_settle h key
  | stopWriting key =>
    have hqueue := State.requeued_dropQueue t.relay key
    exact sound_relay h (h.booked.requeued hqueue) hqueue.tables_eq.1
  | ask => exact ⟨h.booked.ask, h.left⟩
  | tell key =>
    show (t.tell key).Sound taken missed
    unfold tell
    split
    next hasked => exact sound_relay h (h.booked.tell hasked key) rfl
    next => exact h
  | request =>
    show t.request.Sound taken missed
    unfold request
    split
    next hasked => exact sound_relay h (h.booked.cancelAll hasked) rfl
    next => exact h

/-- Whatever the order of the steps, the books are kept. -/
theorem sound_run (h : t.Sound taken missed) (steps : List Step) :
    (t.run steps).Sound (taken + (t.startedOver steps).countP fun e => e.2.isEviction)
      (missed + (t.missedOver steps).length) := by
  induction steps generalizing t taken missed with
  | nil => exact h
  | cons x steps ih =>
    have hrest := ih (sound_step h x)
    rw [Nat.add_assoc, Nat.add_assoc, ← List.countP_append, ← List.length_append] at hrest
    exact hrest

end Tasks

end EvictionBus.Relay
