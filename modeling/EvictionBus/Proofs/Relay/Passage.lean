import EvictionBus.Proofs.Relay.Lookups
import EvictionBus.Proofs.Relay.Routing

/-!
# What passes through a relay

The tasks of a relay take their steps in any order.  A reader that has taken an eviction looks up
the peers that it is for and offers it to one after the other, while peers come and go and other
readers do the same.  Still every peer is given, of each of the others, the evictions for which it
has been looked up, in order and without a gap, and an answer to each of its own greetings.  At most
one of them is missing: the one that is under way, or that the peer has been dropped for.
-/

namespace EvictionBus.Relay

/-! ## Histories -/

/-- The evictions of one peer among frames. -/
def evictionsFrom (sender : Nat) (es : List (Nat × RawFrame)) : List RawFrame :=
  (es.filter fun e => e.1 = sender ∧ e.2.isEviction).map Prod.snd

/-- Its greetings. -/
def greetingsFrom (sender : Nat) (es : List (Nat × RawFrame)) : Nat :=
  es.countP fun e => e.1 = sender ∧ e.2.header.op = .hello

/-- The evictions of one peer that others have been looked up for. -/
def lookedUp (sender : Nat) (ls : List Lookup) : List RawFrame :=
  (ls.filter (·.sender = sender)).map Lookup.frame

/-- The evictions of one peer that another one is among those to get. -/
def addressedTo (sender key : Nat) (ls : List Lookup) : List Bytes :=
  (ls.filter fun l => l.sender = sender ∧ key ∈ l.keys).map (·.frame.bytes)

/-- What has been taken from one peer. -/
def takenFrom (sender : Nat) (os : List Offer) : List Bytes :=
  (os.filter (·.source = sender)).map Offer.item

section Histories

variable {sender key : Nat}

theorem evictionsFrom_append (es ds : List (Nat × RawFrame)) :
    evictionsFrom sender (es ++ ds) = evictionsFrom sender es ++ evictionsFrom sender ds := by
  rw [evictionsFrom, List.filter_append, List.map_append]
  rfl

theorem lookedUp_append (ls ms : List Lookup) :
    lookedUp sender (ls ++ ms) = lookedUp sender ls ++ lookedUp sender ms := by
  rw [lookedUp, List.filter_append, List.map_append]
  rfl

theorem addressedTo_append (ls ms : List Lookup) :
    addressedTo sender key (ls ++ ms) = addressedTo sender key ls ++ addressedTo sender key ms := by
  rw [addressedTo, List.filter_append, List.map_append]
  rfl

theorem takenFrom_append (os ps : List Offer) :
    takenFrom sender (os ++ ps) = takenFrom sender os ++ takenFrom sender ps := by
  rw [takenFrom, List.filter_append, List.map_append]
  rfl

theorem map_filter_eq_nil {α β : Type} {p : α → Bool} {f : α → β} {xs : List α}
    (h : ∀ x ∈ xs, p x = false) : (xs.filter p).map f = [] := by
  rw [List.filter_eq_nil_iff.2 fun x hx => by rw [h x hx]; exact Bool.false_ne_true]
  rfl

end Histories

/-! ## Looking up peers -/

theorem Work.lookedUp_proceed (s : State) (sender : Nat) (w : Work) :
    unaddressed (some w) =
      lookedUp sender (w.lookups s sender) ++ unaddressed (w.proceed s sender).2 := by
  cases w with
  | reported f sequence => simp [unaddressed, lookups, lookedUp, proceed]
  | offering bytes keys =>
    cases keys with
    | nil => rfl
    | cons j keys =>
      show [] = [] ++ unaddressed (some (offer s bytes j keys).2)
      unfold offer
      split <;> rfl
  | dropping j d bytes keys =>
    show [] = [] ++ unaddressed (some (whileDropping j bytes keys (d.proceed s j).2))
    cases (d.proceed s j).2 <;> rfl
  | greeted =>
    show [] = [] ++ unaddressed (some (if s.peers.contains sender then _ else _))
    split <;> rfl
  | answering =>
    show [] = [] ++ unaddressed (answer s sender).2
    unfold answer
    split <;> rfl
  | ending d =>
    show [] = [] ++ unaddressed (some (whileEnding (d.proceed s sender).2))
    cases (d.proceed s sender).2 <;> rfl
  | _ => rfl

theorem Work.unaddressed_take (s : State) (sender : Nat) (f : RawFrame) :
    unaddressed (some (take s sender f).2) = if f.isEviction then [f] else [] := by
  cases hop : f.header.op with
  | evict =>
    by_cases hpos : 0 < f.header.length <;> simp [take, RawFrame.isEviction, hop, hpos, unaddressed]
  | _ => simp [take, RawFrame.isEviction, hop, unaddressed]

namespace Tasks

variable {t : Tasks} {taken missed sender key : Nat} {x : Step} {w : Option Work}

theorem Turn.lookedUp_eq (h : t.Turn sender x w) :
    Work.unaddressed (t.works.get? sender) ++ evictionsFrom sender (t.startedAt x) =
      lookedUp sender (t.lookupsAt x) ++ Work.unaddressed w := by
  cases h with
  | other started looked accepted =>
    have hstarted : evictionsFrom sender (t.startedAt x) = [] :=
      map_filter_eq_nil fun e he => by simp [started e he]
    have hlooked : lookedUp sender (t.lookupsAt x) = [] :=
      map_filter_eq_nil fun l hl => by simp [looked l hl]
    rw [hstarted, hlooked, List.append_nil]
    rfl
  | read frame can =>
    have hstarted : t.startedAt (.read sender frame) = [(sender, frame)] := if_pos can
    unfold canRead at can
    rw [get?_of_waits (Bool.and_eq_true_iff.1 can).1, hstarted, Work.unaddressed_take]
    cases he : frame.isEviction <;> simp [evictionsFrom, he, Work.unaddressed, lookedUp, lookupsAt]
  | giveUp reason waits =>
    rw [get?_of_waits waits]
    rfl
  | @proceed v working =>
    rw [working, lookupsAt_proceed working]
    exact (List.append_nil _).trans (Work.lookedUp_proceed t.relay sender v)

/-- The evictions that a reader starts on are those that it looks up the peers for, in order, and at
most one for which it has still to do so. -/
theorem lookedUp_run (t : Tasks) (sender : Nat) (steps : List Step) :
    Work.unaddressed (t.works.get? sender) ++ evictionsFrom sender (t.startedOver steps) =
      lookedUp sender (t.along lookupsAt steps) ++
        Work.unaddressed ((t.run steps).works.get? sender) := by
  induction steps generalizing t with
  | nil => exact List.append_nil _
  | cons x steps ih =>
    show _ ++ evictionsFrom sender (t.startedAt x ++ (t.step x).startedOver steps) =
      lookedUp sender (t.lookupsAt x ++ (t.step x).along lookupsAt steps) ++ _
    rw [evictionsFrom_append, lookedUp_append, ← List.append_assoc,
      (turn_step t sender x).lookedUp_eq, List.append_assoc, ih, List.append_assoc]
    rfl

end Tasks

/-! ## Offering evictions -/

namespace State.Moves

variable {s s' : State} {key : Nat} {put out : List Bytes}

/-- A connection stays. -/
theorem connected (h : s.Moves key put out s') (hc : (s.outbound? key).isSome = true) :
    (s'.outbound? key).isSome = true := by
  have hqueue := h.queue
  generalize s.outbound? key = before at hc hqueue
  generalize s'.outbound? key = after at hqueue ⊢
  cases hqueue with
  | same => exact hc
  | _ => rfl

/-- A peer that has left the table does not come back. -/
theorem gone (h : s.Moves key put out s') (hc : (s.outbound? key).isSome = true)
    (hgone : s.peers.contains key = false) : s'.peers.contains key = false := by
  by_contra hm
  rcases h.member ((Bool.not_eq_false _).mp hm) with hm | hnone
  · rw [hgone] at hm
    cases hm
  · rw [hnone] at hc
    cases hc

end State.Moves

namespace Work

variable {s s' : State} {sender key : Nat} {put out rest : List Bytes} {w w' : Option Work}

/-- `rest` are the evictions addressed to a peer that it has not taken.  There is one at most: it is
still to be offered, or it has been refused and the peer is dropped for it or gone. -/
structure Passing (s : State) (key : Nat) (w : Option Work) (rest : List Bytes) : Prop where
  nodup : (outstanding w).2.Nodup
  length_le : rest.length ≤ 1
  connected : rest ≠ [] → (s.outbound? key).isSome = true
  rest_eq : rest = pending key w ∨
    pending key w = [] ∧ (refusedBy? w = some key ∨ s.peers.contains key = false)

theorem Passing.next (h : Passing s key w rest) (hmoves : s.Moves key put out s')
    (hnodup : (outstanding w').2.Nodup) (hpending : pending key w' = pending key w)
    (hrefused : refusedBy? w = some key →
      refusedBy? w' = some key ∨ s'.peers.contains key = false) :
    Passing s' key w' rest := by
  refine ⟨hnodup, h.length_le, fun hne => hmoves.connected (h.connected hne), ?_⟩
  rw [hpending]
  rcases h.rest_eq with heq | ⟨hnone, hor⟩
  · exact .inl heq
  · by_cases hrest : rest = []
    · exact .inl (hrest.trans hnone.symm)
    · refine .inr ⟨hnone, hor.elim hrefused fun hgone => .inr ?_⟩
      exact hmoves.gone (h.connected hrest) hgone

/-- A reader that has nothing to offer goes on with something that is not for others yet. -/
theorem Passing.idle (h : Passing s key w rest) (hmoves : s.Moves key put out s')
    (hbefore : (outstanding w).2 = []) (hnone : refusedBy? w = none)
    (hafter : (outstanding w').2 = []) : Passing s' key w' rest := by
  refine h.next hmoves ?_ ?_ fun hrefused => ?_
  · rw [hafter]
    exact List.nodup_nil
  · unfold pending
    rw [hbefore, hafter]
    rfl
  · rw [hnone] at hrefused
    cases hrefused

theorem outstanding_whileDropping (j : Nat) (bytes : Bytes) (keys : List Nat)
    (left : Option Dropping) :
    outstanding (some (whileDropping j bytes keys left)) = (bytes, keys) := by
  cases left <;> rfl

theorem pending_whileDropping (j : Nat) (d : Dropping) (bytes : Bytes) (keys : List Nat)
    (left : Option Dropping) :
    pending key (some (whileDropping j bytes keys left)) =
      pending key (some (.dropping j d bytes keys)) := by
  cases left <;> rfl

/-- The peer that has refused an eviction leaves the table next, if nobody has been faster. -/
theorem gone_of_refusedBy {j : Nat} {d : Dropping} {bytes : Bytes} {keys : List Nat}
    (h : refusedBy? (some (.dropping j d bytes keys)) = some key) :
    (d.proceed s j).1.peers.contains key = false := by
  cases d with
  | remove reason =>
    cases h
    cases hp : s.peers.get? key with
    | none =>
      rw [Dropping.proceed_of_get?_eq_none hp, KeyTable.contains, hp]
      rfl
    | some p =>
      rw [Dropping.proceed_of_get? hp, KeyTable.contains, KeyTable.get?_erase, if_pos rfl]
      rfl
  | _ => cases h

/-- Looking up the peers: the eviction is to be offered to everybody in the table but its sender. -/
theorem Passing.lookUp {f : RawFrame} {sequence : Nat}
    (h : Passing s key (some (.reported f sequence)) rest) (hne : sender ≠ key)
    (hconn : s.peers.contains key = true → (s.outbound? key).isSome = true) :
    ∃ rest', Passing s key (some (.addressed f sequence (s.peers.recipients sender))) rest' ∧
      rest ++ addressedTo sender key ((Work.reported f sequence).lookups s sender) = rest' := by
  have hnodup := s.peers.nodup_recipients sender
  cases hm : s.peers.contains key with
  | true =>
    have hkey : key ∈ s.peers.recipients sender :=
      (PeerTable.mem_recipients_iff ..).2 ⟨hm, Ne.symm hne⟩
    have hrest : rest = [] := by
      rcases h.rest_eq with heq | ⟨-, hor⟩
      · exact heq
      · rw [hm] at hor
        cases hor <;> contradiction
    refine ⟨[f.bytes], ⟨hnodup, Nat.le_refl 1, fun _ => hconn hm, .inl ?_⟩, ?_⟩
    · exact (if_pos hkey).symm
    · simp [hrest, addressedTo, lookups, hkey]
  | false =>
    have hkey : key ∉ s.peers.recipients sender := fun hkey => by
      rw [((PeerTable.mem_recipients_iff ..).1 hkey).1] at hm
      cases hm
    have hpending : pending key (some (.addressed f sequence (s.peers.recipients sender))) = [] :=
      if_neg hkey
    refine ⟨rest, ⟨hnodup, h.length_le, h.connected, .inr ⟨hpending, .inr hm⟩⟩, ?_⟩
    simp [addressedTo, lookups, hkey]

/-- Offering the eviction to the next peer. -/
theorem Passing.offer {bytes : Bytes} {j : Nat} {keys : List Nat}
    (h : Passing s key (some (.offering bytes (j :: keys))) rest) :
    ∃ rest', Passing (offer s bytes j keys).1 key (some (offer s bytes j keys).2) rest' ∧
      rest = ((Work.offering bytes (j :: keys)).puts s sender key).map Offer.item ++ rest' := by
  have hmoves := moves_offer s sender key bytes j keys
  obtain ⟨hnot, hnodup⟩ := List.nodup_cons.1 h.nodup
  by_cases hj : j = key
  · subst hj
    have hpending : pending j (some (.offering bytes (j :: keys))) = [bytes] :=
      if_pos List.mem_cons_self
    have hrest : rest = [bytes] := by
      rcases h.rest_eq with heq | ⟨hnone, -⟩
      · exact heq.trans hpending
      · rw [hpending] at hnone
        cases hnone
    have hconn := h.connected (by rw [hrest]; exact List.cons_ne_nil _ _)
    have hnone : ∀ w, outstanding (some w) = (bytes, keys) → pending j (some w) = [] := by
      intro w hw
      unfold pending
      rw [hw, if_neg hnot]
    -- It is taken, or the peer is to be dropped.
    unfold Work.offer at hmoves ⊢
    cases htakes : s.takes j with
    | true =>
      obtain ⟨s', hs', -⟩ := State.enqueue_of_takes bytes htakes
      rw [hs'] at hmoves ⊢
      refine ⟨[], ⟨hnodup, Nat.zero_le 1, fun hne => absurd rfl hne, ?_⟩, ?_⟩
      · exact .inl (hnone _ rfl).symm
      · rw [hrest, puts, if_pos ⟨rfl, htakes⟩]
        rfl
    | false =>
      obtain ⟨reason, hreason⟩ := State.enqueue_of_not_takes bytes htakes
      rw [hreason] at hmoves ⊢
      refine ⟨rest, ⟨hnodup, h.length_le, fun _ => hconn, ?_⟩, ?_⟩
      · exact .inr ⟨hnone _ rfl, .inl rfl⟩
      · rw [puts, if_neg fun hor => by rw [hor.2] at htakes; cases htakes]
        rfl
  · have hsame : ∀ w, outstanding (some w) = (bytes, keys) →
        pending key (some w) = pending key (some (.offering bytes (j :: keys))) := by
      intro w hw
      unfold pending
      rw [hw]
      simp [outstanding, Ne.symm hj]
    have hwork : outstanding (some (Work.offer s bytes j keys).2) = (bytes, keys) := by
      unfold Work.offer
      split <;> rfl
    refine ⟨rest, h.next hmoves ?_ (hsame _ hwork) nofun, ?_⟩
    · rw [hwork]
      exact hnodup
    · rw [puts, if_neg fun hor => hj hor.1]
      rfl

/-- Between a step and the next what a peer has not taken changes by what is addressed to it and by
what it takes. -/
theorem Passing.proceed {w : Work} (h : Passing s key (some w) rest) (hne : sender ≠ key)
    (hconn : s.peers.contains key = true → (s.outbound? key).isSome = true) :
    ∃ rest', Passing (w.proceed s sender).1 key (w.proceed s sender).2 rest' ∧
      rest ++ addressedTo sender key (w.lookups s sender) =
        (w.puts s sender key).map Offer.item ++ rest' := by
  have hmoves := w.moves_proceed s sender key
  have hquiet : w.lookups s sender = [] →
      rest ++ addressedTo sender key (w.lookups s sender) = rest := by
    intro hnone
    rw [hnone]
    exact List.append_nil _
  cases w with
  | reported f sequence => exact h.lookUp hne hconn
  | offering bytes keys =>
    cases keys with
    | nil => exact ⟨rest, h.idle hmoves rfl rfl rfl, hquiet rfl⟩
    | cons j keys =>
      obtain ⟨rest', hnext, heq⟩ := h.offer
      exact ⟨rest', hnext, (hquiet rfl).trans heq⟩
  | addressed f sequence keys => exact ⟨rest, h.next hmoves h.nodup rfl nofun, hquiet rfl⟩
  | dropping j d bytes keys =>
    refine ⟨rest, h.next hmoves ?_ (pending_whileDropping ..) fun hrefused => .inr ?_, hquiet rfl⟩
    · show (outstanding (some (whileDropping ..))).2.Nodup
      rw [outstanding_whileDropping]
      exact h.nodup
    · exact gone_of_refusedBy hrefused
  | greeted =>
    refine ⟨rest, h.idle hmoves rfl rfl ?_, hquiet rfl⟩
    show (outstanding (some (if s.peers.contains sender then _ else _))).2 = []
    split <;> rfl
  | answering =>
    have hputs : puts s sender key .answering = [] := if_neg fun hor => hne hor.1
    rw [hputs] at hmoves ⊢
    refine ⟨rest, h.idle hmoves rfl rfl ?_, hquiet rfl⟩
    show (outstanding (answer s sender).2).2 = []
    unfold answer
    split <;> rfl
  | ending d =>
    refine ⟨rest, h.idle hmoves rfl rfl ?_, hquiet rfl⟩
    show (outstanding (some (whileEnding (d.proceed s sender).2))).2 = []
    cases (d.proceed s sender).2 <;> rfl
  | _ => exact ⟨rest, h.idle hmoves rfl rfl rfl, hquiet rfl⟩

/-! ## Answering greetings -/

/-- `n` greetings of a peer are without an answer, and its reader offers nothing to the peer itself.
-/
structure Greeted (key n : Nat) (w : Option Work) : Prop where
  owes : Owes n w
  apart : key ∉ (outstanding w).2

/-- The welcome goes into the queue of the peer, or the peer is dropped for its greeting. -/
theorem greeted_answer (s : State) (key : Nat) :
    ∃ k n, Greeted key n (answer s key).2 ∧ 1 = k + n ∧
      takenFrom key (puts s key key .answering) = List.replicate k s.welcome := by
  cases htakes : s.takes key with
  | true =>
    obtain ⟨s', hs', -⟩ := State.enqueue_of_takes s.welcome htakes
    refine ⟨1, 0, ?_, rfl, ?_⟩
    · unfold answer
      rw [hs']
      exact ⟨rfl, List.not_mem_nil⟩
    · rw [puts, if_pos ⟨rfl, htakes⟩]
      simp [takenFrom]
  | false =>
    obtain ⟨reason, hreason⟩ := State.enqueue_of_not_takes s.welcome htakes
    refine ⟨0, 1, ?_, rfl, ?_⟩
    · unfold answer
      rw [hreason]
      exact ⟨Nat.le_refl 1, List.not_mem_nil⟩
    · rw [puts, if_neg fun hor => by rw [hor.2] at htakes; cases htakes]
      rfl

/-- A greeting is answered by its welcome, or the peer is dropped for it. -/
theorem Greeted.proceed {n : Nat} {w : Work} (h : Greeted key n (some w)) (s : State) :
    ∃ k n', Greeted key n' (w.proceed s key).2 ∧ n = k + n' ∧
      takenFrom key (w.puts s key key) = List.replicate k s.welcome := by
  -- In all cases but one nothing is answered.
  have hsame : Owes n (w.proceed s key).2 → key ∉ (outstanding (w.proceed s key).2).2 →
      w.puts s key key = [] → ∃ k n', Greeted key n' (w.proceed s key).2 ∧ n = k + n' ∧
        takenFrom key (w.puts s key key) = List.replicate k s.welcome := by
    intro howes hapart hputs
    rw [hputs]
    exact ⟨0, n, ⟨howes, hapart⟩, (Nat.zero_add n).symm, rfl⟩
  have hnobody : key ∉ ([] : List Nat) := List.not_mem_nil
  cases w with
  | reported f sequence =>
    refine hsame h.owes ?_ rfl
    exact fun hkey => ((PeerTable.mem_recipients_iff ..).1 hkey).2 rfl
  | addressed f sequence keys => exact hsame h.owes h.apart rfl
  | offering bytes keys =>
    cases keys with
    | nil => exact hsame h.owes hnobody rfl
    | cons j keys =>
      obtain ⟨hj, hkeys⟩ := List.ne_and_not_mem_of_not_mem_cons h.apart
      have hnext : Owes n (some (offer s bytes j keys).2) ∧
          (outstanding (some (offer s bytes j keys).2)).2 = keys := by
        unfold offer
        split <;> exact ⟨h.owes, rfl⟩
      refine hsame hnext.1 ?_ (if_neg fun hor => hj hor.1.symm)
      exact fun hkey => hkeys (hnext.2 ▸ hkey)
  | dropping j d bytes keys =>
    refine hsame ?_ ?_ rfl
    · show Owes n (some (whileDropping j bytes keys (d.proceed s j).2))
      cases (d.proceed s j).2 <;> exact h.owes
    · show key ∉ (outstanding (some (whileDropping j bytes keys (d.proceed s j).2))).2
      rw [outstanding_whileDropping]
      exact h.apart
  | greeted =>
    have hone : n = 1 := h.owes
    refine hsame ?_ ?_ rfl
    · show Owes n (some (if s.peers.contains key then _ else _))
      split
      · exact hone
      · exact Nat.le_of_eq hone
    · show key ∉ (outstanding (some (if s.peers.contains key then _ else _))).2
      split <;> exact hnobody
  | answering =>
    have hone : n = 1 := h.owes
    rw [hone]
    exact greeted_answer s key
  | ending d =>
    refine hsame ?_ ?_ rfl
    · show Owes n (some (whileEnding (d.proceed s key).2))
      cases (d.proceed s key).2 <;> exact h.owes
    · show key ∉ (outstanding (some (whileEnding (d.proceed s key).2))).2
      cases (d.proceed s key).2 <;> exact hnobody
  | _ => exact hsame h.owes hnobody rfl

theorem greeted_take (s : State) (key : Nat) (f : RawFrame) :
    Greeted key (greetingsFrom key [(key, f)]) (some (take s key f).2) := by
  cases hop : f.header.op with
  | evict =>
    have hnone : greetingsFrom key [(key, f)] = 0 := by simp [greetingsFrom, hop]
    rw [hnone]
    unfold take
    rw [hop]
    simp only
    split
    · exact ⟨rfl, List.not_mem_nil⟩
    · exact ⟨rfl, List.not_mem_nil⟩
  | hello =>
    have hone : greetingsFrom key [(key, f)] = 1 := by simp [greetingsFrom, hop]
    rw [hone]
    unfold take
    rw [hop]
    exact ⟨rfl, List.not_mem_nil⟩
  | _ =>
    have hnone : greetingsFrom key [(key, f)] = 0 := by simp [greetingsFrom, hop]
    rw [hnone]
    unfold take
    rw [hop]
    exact ⟨rfl, List.not_mem_nil⟩

end Work

/-! ## Steps and runs -/

namespace Tasks

variable {t : Tasks} {taken missed sender key n : Nat} {x : Step} {w : Option Work}
  {rest : List Bytes}

theorem step_proceed {v : Work} (h : t.works.get? sender = some v) :
    (t.step (.proceed sender)).relay = (v.proceed t.relay sender).1 := by
  show (t.proceed sender).relay = _
  rw [proceed_of_get? h, relay_put]

theorem Turn.passing (h : t.Turn sender x w) (hs : t.Sound taken missed) (hne : sender ≠ key)
    (hp : Work.Passing t.relay key (t.works.get? sender) rest) :
    ∃ rest', Work.Passing (t.step x).relay key w rest' ∧
      rest ++ addressedTo sender key (t.lookupsAt x) =
        takenFrom sender (t.acceptedAt key x) ++ rest' := by
  have hmoves := moves_step hs key x
  cases h with
  | other started looked accepted =>
    have haddressed : addressedTo sender key (t.lookupsAt x) = [] :=
      map_filter_eq_nil fun l hl => by simp [looked l hl]
    have htaken : takenFrom sender (t.acceptedAt key x) = [] :=
      map_filter_eq_nil fun o ho => by simp [accepted key o ho]
    refine ⟨rest, hp.next hmoves hp.nodup rfl .inl, ?_⟩
    rw [haddressed, htaken, List.append_nil]
    rfl
  | read frame can =>
    unfold canRead at can
    rw [get?_of_waits (Bool.and_eq_true_iff.1 can).1] at hp
    refine ⟨rest, hp.idle hmoves rfl rfl ?_, List.append_nil rest⟩
    unfold Work.take
    split
    · split <;> rfl
    · rfl
    · rfl
  | giveUp reason waits =>
    rw [get?_of_waits waits] at hp
    exact ⟨rest, hp.idle hmoves rfl rfl rfl, List.append_nil rest⟩
  | @proceed v working =>
    rw [working] at hp
    have htaken : takenFrom sender (v.puts t.relay sender key) =
        (v.puts t.relay sender key).map Offer.item := by
      rw [takenFrom, List.filter_eq_self.2 fun o ho => decide_eq_true (Work.source_puts ho)]
    rw [step_proceed working, lookupsAt_proceed working, acceptedAt_proceed working, htaken]
    exact hp.proceed hne hs.connected

/-- Of the evictions of a peer that are addressed to another one, this one takes all but one at
most, in order. -/
theorem passing_run (hs : t.Sound taken missed) (hne : sender ≠ key)
    (hp : Work.Passing t.relay key (t.works.get? sender) rest) (steps : List Step) :
    ∃ rest', Work.Passing (t.run steps).relay key ((t.run steps).works.get? sender) rest' ∧
      rest ++ addressedTo sender key (t.along lookupsAt steps) =
        takenFrom sender (t.along (acceptedAt key) steps) ++ rest' := by
  induction steps generalizing t taken missed rest with
  | nil => exact ⟨rest, hp, List.append_nil rest⟩
  | cons x steps ih =>
    obtain ⟨rest', hp', heq⟩ := (turn_step t sender x).passing hs hne hp
    obtain ⟨last, hlast, heq'⟩ := ih (sound_step hs x) hp'
    refine ⟨last, hlast, ?_⟩
    show rest ++ addressedTo sender key (t.lookupsAt x ++ (t.step x).along lookupsAt steps) =
      takenFrom sender (t.acceptedAt key x ++ (t.step x).along (acceptedAt key) steps) ++ last
    rw [addressedTo_append, takenFrom_append, ← List.append_assoc, heq, List.append_assoc, heq',
      List.append_assoc]

theorem Turn.greeted (h : t.Turn key x w) (hg : Work.Greeted key n (t.works.get? key)) :
    ∃ k n', Work.Greeted key n' w ∧ n + greetingsFrom key (t.startedAt x) = k + n' ∧
      takenFrom key (t.acceptedAt key x) = List.replicate k t.relay.welcome := by
  cases h with
  | other started looked accepted =>
    have hstarted : greetingsFrom key (t.startedAt x) = 0 :=
      List.countP_eq_zero.2 fun e he => by simp [started e he]
    have htaken : takenFrom key (t.acceptedAt key x) = [] :=
      map_filter_eq_nil fun o ho => by simp [accepted key o ho]
    rw [hstarted, htaken]
    exact ⟨0, n, hg, (Nat.zero_add n).symm, rfl⟩
  | read frame can =>
    have hstarted : t.startedAt (.read key frame) = [(key, frame)] := if_pos can
    unfold canRead at can
    rw [get?_of_waits (Bool.and_eq_true_iff.1 can).1] at hg
    have hn : n = 0 := hg.owes
    rw [hstarted, hn]
    exact ⟨0, _, Work.greeted_take t.relay key frame, rfl, rfl⟩
  | giveUp reason waits =>
    rw [get?_of_waits waits] at hg
    have hn : n = 0 := hg.owes
    rw [hn]
    exact ⟨0, 0, ⟨Nat.zero_le 1, List.not_mem_nil⟩, rfl, rfl⟩
  | @proceed v working =>
    rw [working] at hg
    rw [acceptedAt_proceed working]
    exact hg.proceed t.relay

theorem greeted_run (hs : t.Sound taken missed) (hg : Work.Greeted key n (t.works.get? key))
    (steps : List Step) :
    ∃ k n', Work.Greeted key n' ((t.run steps).works.get? key) ∧
      n + greetingsFrom key (t.startedOver steps) = k + n' ∧
      takenFrom key (t.along (acceptedAt key) steps) = List.replicate k t.relay.welcome := by
  induction steps generalizing t taken missed n with
  | nil => exact ⟨0, n, hg, (Nat.zero_add n).symm, rfl⟩
  | cons x steps ih =>
    obtain ⟨k, n', hg', hcount, htaken⟩ := (turn_step t key x).greeted hg
    obtain ⟨k', last, hlast, hcount', htaken'⟩ := ih (sound_step hs x) hg'
    have hwelcome : (t.step x).relay.welcome = t.relay.welcome := by
      unfold State.welcome
      rw [(moves_step hs key x).identity_eq]
    refine ⟨k + k', last, hlast, ?_, ?_⟩
    · have hsplit : greetingsFrom key (t.startedOver (x :: steps)) =
          greetingsFrom key (t.startedAt x) + greetingsFrom key ((t.step x).startedOver steps) :=
        List.countP_append
      omega
    · show takenFrom key (t.acceptedAt key x ++ (t.step x).along (acceptedAt key) steps) = _
      rw [takenFrom_append, htaken, htaken', hwelcome, List.replicate_append_replicate]

/-- A peer that is in the table at the end has been there since it has come. -/
theorem member_of_run (hs : t.Sound taken missed) (hc : (t.relay.outbound? key).isSome = true)
    {steps : List Step} (hm : (t.run steps).relay.peers.contains key = true) :
    t.relay.peers.contains key = true := by
  induction steps generalizing t taken missed with
  | nil => exact hm
  | cons x steps ih =>
    have hmoves := moves_step hs key x
    have hnext := ih (sound_step hs x) (hmoves.connected hc) hm
    by_contra hgone
    rw [hmoves.gone hc ((Bool.not_eq_true _).mp hgone)] at hnext
    cases hnext

theorem keys_of_mem_lookupsAt {l : Lookup} (hl : l ∈ t.lookupsAt x) :
    l.keys = t.relay.peers.recipients l.sender := by
  cases x with
  | proceed sender =>
    change l ∈ (t.works.get? sender).elim [] _ at hl
    cases hw : t.works.get? sender with
    | none =>
      rw [hw] at hl
      cases hl
    | some v =>
      rw [hw] at hl
      change l ∈ v.lookups t.relay sender at hl
      unfold Work.lookups at hl
      split at hl
      · rw [List.mem_singleton.1 hl]
      · cases hl
  | _ => cases hl

/-- As long as a peer stays, everybody else finds it. -/
theorem mem_of_lookup (hs : t.Sound taken missed) (hc : (t.relay.outbound? key).isSome = true)
    {steps : List Step} (hm : (t.run steps).relay.peers.contains key = true) {l : Lookup}
    (hl : l ∈ t.along lookupsAt steps) (hne : l.sender ≠ key) : key ∈ l.keys := by
  induction steps generalizing t taken missed with
  | nil => cases hl
  | cons x steps ih =>
    rcases List.mem_append.1 hl with hl | hl
    · rw [keys_of_mem_lookupsAt hl]
      exact (PeerTable.mem_recipients_iff ..).2 ⟨member_of_run hs hc hm, Ne.symm hne⟩
    · exact ih (sound_step hs x) ((moves_step hs key x).connected hc) hm hl

theorem mem_evictionsFrom {es : List (Nat × RawFrame)} {f : RawFrame}
    (hf : f ∈ evictionsFrom sender es) : (sender, f) ∈ es ∧ f.isEviction = true := by
  obtain ⟨e, he, rfl⟩ := List.mem_map.1 hf
  obtain ⟨hmem, hor⟩ := List.mem_filter.1 he
  obtain ⟨rfl, heviction⟩ := of_decide_eq_true hor
  exact ⟨hmem, heviction⟩

theorem mem_addressedTo {ls : List Lookup} {bytes : Bytes}
    (h : bytes ∈ addressedTo sender key ls) : ∃ f ∈ lookedUp sender ls, f.bytes = bytes := by
  obtain ⟨l, hl, rfl⟩ := List.mem_map.1 h
  obtain ⟨hl, hor⟩ := List.mem_filter.1 hl
  exact ⟨l.frame, List.mem_map.2 ⟨l, List.mem_filter.2 ⟨hl, decide_eq_true
    (of_decide_eq_true hor).1⟩, rfl⟩, rfl⟩

/-- How the queue of a peer comes about in a run of the tasks. -/
structure Passes (t : Tasks) (steps : List Step) (key : Nat) : Prop where
  /-- Its writer takes out what has gone in, in order.  What it has not taken waits, unless the
  writer has returned. -/
  queued : ∃ lost, (t.along (acceptedAt key) steps).map Offer.item =
      t.along (takenAt key) steps ++ (t.run steps).relay.waiting key ++ lost ∧
    (lost ≠ [] → ∃ q, (t.run steps).relay.outbound? key = some q ∧ q.reader = .gone)
  bounded : ((t.run steps).relay.waiting key).length ≤ max 1 t.relay.config.queueDepth
  /-- A reader looks up the peers for the evictions that it starts on, one after the other. -/
  looked : ∀ sender, evictionsFrom sender (t.startedOver steps) =
    lookedUp sender (t.along lookupsAt steps) ++
      Work.unaddressed ((t.run steps).works.get? sender)
  /-- A peer that has come and is still in the table has been found by all others since. -/
  found : ∀ before after, steps = before ++ after →
    ((t.run before).relay.outbound? key).isSome = true →
    (t.run steps).relay.peers.contains key = true →
    ∀ l ∈ (t.run before).along lookupsAt after, l.sender ≠ key → key ∈ l.keys
  /-- Of the evictions of another peer that it has been found for it has taken the first ones, each
  of them once.  At most one is missing: it is still to be offered, or it has been refused, and the
  peer is about to leave the table or has left it. -/
  evictions : ∀ sender, sender ≠ key → ∃ rest,
    addressedTo sender key (t.along lookupsAt steps) =
      takenFrom sender (t.along (acceptedAt key) steps) ++ rest ∧
    rest.length ≤ 1 ∧
    (rest = Work.pending key ((t.run steps).works.get? sender) ∨
      Work.refusedBy? ((t.run steps).works.get? sender) = some key ∨
      (t.run steps).relay.peers.contains key = false)
  /-- Of its own frames the greetings have one welcome each, but for the last one while it is under
  way or if the peer is dropped for it. -/
  welcomes : ∃ k n, takenFrom key (t.along (acceptedAt key) steps) =
      List.replicate k t.relay.welcome ∧
    greetingsFrom key (t.startedOver steps) = k + n ∧
    Work.Owes n ((t.run steps).works.get? key)
  /-- If the frames that readers start on are whole and within the limit, every frame in the queue
  is well-formed for every reader. -/
  wellFormed : (∀ e ∈ t.startedOver steps, e.2.Sound t.relay.readRules) →
    ∀ o ∈ t.along (acceptedAt key) steps, ∀ me, ∃ header,
      Header.decode me o.item = .ok header ∧ header.frameSize = o.item.length ∧
        (o.source = key ∧ header.op = .welcome ∧ header.length = 0 ∨
          o.source ≠ key ∧ header.op = .evict ∧ 0 < header.length ∧
            header.length ≤ t.relay.config.maxMessageSize)

/-- In whatever order the tasks of a relay take their steps, what goes into the queue of a peer are
the evictions of the others that it has been found for and the answers to its own greetings, each
once and in order, and that is what its writer takes out. -/
theorem passes_run (config : Config) (identity : Identity) (steps : List Step) (key : Nat) :
    (start config identity).Passes steps key := by
  have hs := sound_start config identity
  have hempty : Queue.Tells config.queueDepth ((start config identity).relay.outbound? key) [] [] :=
    ⟨nofun, [], rfl, fun h => absurd rfl h⟩
  have hqueue := queue_tells_run hs hempty steps
  have hnothing : Work.Passing (start config identity).relay key none [] :=
    ⟨List.nodup_nil, Nat.zero_le 1, fun h => absurd rfl h, .inl rfl⟩
  have hnobody : Work.Greeted key 0 ((start config identity).works.get? key) :=
    ⟨rfl, List.not_mem_nil⟩
  have hlooked := fun sender => lookedUp_run (start config identity) sender steps
  have hpassing : ∀ sender, sender ≠ key → ∃ rest,
      Work.Passing ((start config identity).run steps).relay key
        (((start config identity).run steps).works.get? sender) rest ∧
      addressedTo sender key ((start config identity).along lookupsAt steps) =
        takenFrom sender ((start config identity).along (acceptedAt key) steps) ++ rest :=
    fun sender hne => passing_run hs hne hnothing steps
  obtain ⟨k, n, howed, hcount, hwelcomes⟩ := greeted_run hs hnobody steps
  rw [Nat.zero_add] at hcount
  constructor
  case queued =>
    rw [State.waiting_eq]
    exact hqueue.frames_eq
  case bounded =>
    rw [State.waiting_eq]
    exact hqueue.length_waiting_le
  case looked => exact hlooked
  case found =>
    intro before after hsplit hc hm l hl hne
    subst hsplit
    rw [show (start config identity).run (before ++ after) =
      ((start config identity).run before).run after from List.foldl_append ..] at hm
    exact mem_of_lookup (sound_run hs before) hc hm hl hne
  case evictions =>
    intro sender hne
    obtain ⟨rest, hp, heq⟩ := hpassing sender hne
    exact ⟨rest, heq, hp.length_le, hp.rest_eq.imp_right And.right⟩
  case welcomes => exact ⟨k, n, hwelcomes, hcount, howed.owes⟩
  case wellFormed =>
    intro hframes o ho me
    have htaken : o.item ∈
        takenFrom o.source ((start config identity).along (acceptedAt key) steps) :=
      List.mem_map.2 ⟨o, List.mem_filter.2 ⟨ho, decide_eq_true rfl⟩, rfl⟩
    by_cases hown : o.source = key
    · rw [hown, hwelcomes] at htaken
      obtain ⟨header, hd, hsize, hwelcome⟩ := decode_welcome (start config identity).relay me
      rw [List.eq_of_mem_replicate htaken]
      exact ⟨header, hd, hsize, .inl ⟨hown, hwelcome⟩⟩
    · -- It has been found for the eviction, which a reader has started on.
      obtain ⟨rest, -, heq⟩ := hpassing o.source hown
      obtain ⟨f, hf, hbytes⟩ := mem_addressedTo
        (by rw [heq]; exact List.mem_append_left _ htaken)
      obtain ⟨hstarted, heviction⟩ := mem_evictionsFrom
        (by rw [show evictionsFrom o.source _ = _ from hlooked o.source]
            exact List.mem_append_left _ hf)
      obtain ⟨hop, hpos⟩ := of_decide_eq_true heviction
      obtain ⟨header, hd, hsize, hop', hlength, hle⟩ := (hframes _ hstarted).exists_decode me
      rw [← hbytes]
      exact ⟨header, hd, hsize, .inr ⟨hown, hop'.trans hop, hlength ▸ hpos, hle⟩⟩

end Tasks

end EvictionBus.Relay
