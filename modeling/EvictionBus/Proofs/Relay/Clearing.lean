import EvictionBus.Proofs.Relay.Agreement

/-!
# What a reader holds

The bytes of a frame that is not complete are with the reader of their connection and nowhere else.
So a relay whose reader holds nothing does the same as one whose reader holds a part of a frame, if
all bytes of the frame arrive at once when it is complete.
-/

namespace EvictionBus

namespace KeyTable

variable {α : Type}

theorem modify_comm {f g : α → α} {k j : Nat} (h : k = j → ∀ a, f (g a) = g (f a))
    (t : KeyTable α) : (t.modify j g).modify k f = (t.modify k f).modify j g := by
  apply ext_get?
  intro i
  rw [get?_modify, get?_modify, get?_modify, get?_modify]
  by_cases hk : i = k
  · by_cases hj : i = j
    · rw [if_pos hk, if_pos hj, if_pos hj, if_pos hk, Option.map_map, Option.map_map]
      exact congrArg (Option.map · _) (funext (h (hk.symm.trans hj)))
    · rw [if_pos hk, if_neg hj, if_neg hj, if_pos hk]
  · by_cases hj : i = j
    · rw [if_neg hk, if_pos hj, if_pos hj, if_neg hk]
    · rw [if_neg hk, if_neg hj, if_neg hj, if_neg hk]

theorem modify_modify (t : KeyTable α) (k : Nat) (f g : α → α) :
    (t.modify k g).modify k f = t.modify k (f ∘ g) := by
  apply ext_get?
  intro i
  rw [get?_modify, get?_modify, get?_modify]
  by_cases hi : i = k
  · rw [if_pos hi, if_pos hi, if_pos hi, Option.map_map]
  · rw [if_neg hi, if_neg hi, if_neg hi]

theorem modify_mapValues {f g : α → α} (h : ∀ a, f (g a) = g (f a)) (t : KeyTable α) (k : Nat) :
    (t.mapValues fun _ => g).modify k f = (t.modify k f).mapValues fun _ => g := by
  apply ext_get?
  intro i
  simp only [get?_modify, get?_mapValues]
  by_cases hi : i = k
  · rw [if_pos hi, if_pos hi]
    cases t.get? i with
    | none => rfl
    | some a => exact congrArg some (h a)
  · rw [if_neg hi, if_neg hi]

theorem modify_insert (t : KeyTable α) (k j : Nat) (a : α) (f : α → α) :
    (t.insert j a).modify k f = (t.modify k f).insert j (if j = k then f a else a) := by
  apply ext_get?
  intro i
  simp only [get?_modify, get?_insert]
  by_cases hj : i = j
  · subst hj
    by_cases hk : i = k
    · rw [if_pos hk, if_pos rfl, if_pos rfl, if_pos hk]
      rfl
    · rw [if_neg hk, if_pos rfl, if_pos rfl, if_neg hk]
  · rw [if_neg hj, if_neg hj]

end KeyTable

namespace Relay

/-! ## Readers -/

namespace Reader

variable {rules : ReadRules} {r : Reader}

theorem eq_start (h : r.Sound rules) (hheld : r.held = []) : r = start := by
  cases r with
  | inHeader read missing =>
    obtain ⟨-, hlen⟩ := h
    have hread : read = [] := List.reverse_eq_nil_iff.1 hheld
    rw [hread, List.length_nil, Nat.zero_add] at hlen
    rw [hread, hlen]
    rfl
  | inPayload header read missing deadline =>
    obtain ⟨-, -, -, hd⟩ := h
    have hread : read.reverse = [] := hheld
    obtain ⟨hle, -⟩ := Header.length_of_decode hd
    rw [hread] at hle
    exact absurd hle (by decide)

/-- The bytes of a frame say which frame it is. -/
theorem frames_eq {fs gs : List RawFrame} (hf : ∀ f ∈ fs, f.Sound rules)
    (hg : ∀ g ∈ gs, g.Sound rules) (h : fs.map RawFrame.bytes = gs.map RawFrame.bytes) :
    fs = gs := by
  induction fs generalizing gs with
  | nil => exact (List.map_eq_nil_iff.1 h.symm).symm
  | cons f fs ih =>
    cases gs with
    | nil => cases h
    | cons g gs =>
      obtain ⟨hbytes, hrest⟩ := List.cons.inj h
      have hfg : f = g := by
        have hdf := (hf f List.mem_cons_self).decoded
        have hdg := (hg g List.mem_cons_self).decoded
        obtain ⟨header, bytes⟩ := f
        obtain ⟨header', bytes'⟩ := g
        cases hbytes
        rw [hdf] at hdg
        cases hdg
        rfl
      rw [hfg, ih (fun x hx => hf x (List.mem_cons_of_mem _ hx))
        (fun x hx => hg x (List.mem_cons_of_mem _ hx)) hrest]

/-- What a reader yields is decided by what it holds and what arrives. -/
theorem feed_frames (now : Nat) {bs : Bytes} (h : r.Sound rules) {fs : List RawFrame}
    (hfs : ∀ f ∈ fs, f.Sound rules) {rest : Bytes} (hrest : Unfinished rules.limit rest)
    (hsplit : r.held ++ bs = (fs.map RawFrame.bytes).flatten ++ rest) :
    (r.feed rules now bs).1 = fs ∧
      ((∃ next, (r.feed rules now bs).2 = .ok next ∧ next.Sound rules ∧ next.held = rest) ∨
        (r.feed rules now bs).2 = .error (.oversized (Header.declared rest) rules.limit) ∧
          headerSize ≤ rest.length ∧ rules.limit < Header.declared rest) := by
  obtain ⟨rest', hsplit', hframes, hend⟩ := feed_spec now bs h
  have hrest' : Unfinished rules.limit rest' := by
    rcases hend with ⟨next, -, hsound, rfl⟩ | ⟨-, -, hover⟩
    · exact hsound.unfinished
    · exact unfinished_of_oversized hover
  have hwhole : ∀ {gs : List RawFrame}, (∀ g ∈ gs, g.Sound rules) →
      ∀ raw ∈ gs.map RawFrame.bytes, WholeFrame rules.limit raw := by
    intro gs hgs raw hraw
    obtain ⟨g, hg, rfl⟩ := List.mem_map.1 hraw
    exact (hgs g hg).whole
  rw [hsplit'] at hsplit
  obtain ⟨hbytes, rfl⟩ := flatten_append_inj (hwhole hframes) (hwhole hfs) hrest' hrest hsplit
  exact ⟨frames_eq hframes hfs hbytes, hend⟩

/-- A reader that holds nothing yields the same frames for their bytes alone, and holds nothing
again. -/
theorem feed_start (now : Nat) (bs : Bytes) (h : r.Sound rules) :
    start.feed rules now ((r.feed rules now bs).1.map RawFrame.bytes).flatten =
      ((r.feed rules now bs).1, .ok start) := by
  obtain ⟨-, -, hframes, -⟩ := feed_spec now bs h
  obtain ⟨hfs, hend⟩ := feed_frames now sound_start hframes
    (unfinished_nil : Unfinished rules.limit []) (List.append_nil _).symm
  rcases hend with ⟨last, hlast, hsound, hheld⟩ | ⟨-, hlen, -⟩
  · rw [eq_start hsound hheld] at hlast
    exact Prod.ext hfs hlast
  · exact absurd hlen (by decide)

theorem feed_start_of_error {now : Nat} {bs : Bytes} (h : r.Sound rules) {reason : Disconnect}
    (herror : (r.feed rules now bs).2 = .error reason) :
    start.feed rules now (r.held ++ bs) = r.feed rules now bs := by
  obtain ⟨rest, hsplit, hframes, hend⟩ := feed_spec now bs h
  rcases hend with ⟨next, hok, -, -⟩ | ⟨hrefused, hlen, hover⟩
  · rw [hok] at herror
    cases herror
  obtain ⟨hfs, hend'⟩ := feed_frames now sound_start hframes
    (unfinished_of_oversized hover) hsplit
  rcases hend' with ⟨last, -, hsound, hheld⟩ | ⟨hrefused', -⟩
  · -- A header that declares too much is not held.
    have hle := hsound.declared_le (by rw [hheld]; exact hlen)
    rw [hheld] at hle
    omega
  · exact Prod.ext hfs (hrefused'.trans hrefused.symm)

end Reader

/-! ## Clearing a reader -/

def Connection.cleared (c : Connection) : Connection :=
  { c with input := .start }

namespace State

/-- The state of a relay whose reader of one connection holds nothing. -/
def cleared (s : State) (key : Nat) : State :=
  { s with connections := s.connections.modify key Connection.cleared }

variable {s t : State} {key : Nat}

theorem get?_cleared (s : State) (key j : Nat) :
    (s.cleared key).connections.get? j =
      (s.connections.get? j).map fun c => if j = key then c.cleared else c :=
  KeyTable.get?_mapValues ..

theorem cleared_eq_self (h : ∀ c, s.connections.get? key = some c → c.input = .start) :
    s.cleared key = s := by
  have hsame : s.connections.modify key Connection.cleared = s.connections := by
    apply KeyTable.ext_get?
    intro j
    rw [KeyTable.get?_modify]
    by_cases hj : j = key
    · subst hj
      rw [if_pos rfl]
      cases hc : s.connections.get? j with
      | none => rfl
      | some c =>
        show some { c with input := .start } = some c
        rw [← h c hc]
    · rw [if_neg hj]
  exact congrArg (fun connections => { s with connections := connections }) hsame

theorem reading?_cleared (s : State) (key j : Nat) :
    (s.cleared key).reading? j =
      (s.reading? j).map fun c => if j = key then c.cleared else c := by
  unfold reading?
  rw [get?_cleared]
  cases s.connections.get? j with
  | none => rfl
  | some c =>
    have hcancelled : (if j = key then c.cleared else c).cancelled = c.cancelled := by
      split <;> rfl
    simp only [Option.map_some, Option.filter_some, hcancelled]
    split <;> rfl

theorem disconnect_cleared (s : State) (key j : Nat) (reason : Disconnect) :
    (s.cleared key).disconnect j reason = (s.disconnect j reason).cleared key := by
  cases hp : s.peers.get? j with
  | none =>
    have hp' : (s.cleared key).peers.get? j = none := hp
    rw [disconnect_of_get?_eq_none hp, disconnect_of_get?_eq_none hp']
  | some p =>
    have hcomm := KeyTable.modify_comm (k := j) (j := key)
      (f := fun c => { c with cancelled := true }) (g := Connection.cleared) (fun _ _ => rfl)
      s.connections
    rw [disconnect_of_get? hp]
    refine (disconnect_of_get? (s := s.cleared key) hp reason).trans ?_
    exact congrArg (fun connections => State.note
      { s with peers := s.peers.erase j, connections := connections } _) hcomm

/-! ## Frames -/

/-- Putting a frame into a queue has nothing to do with readers. -/
theorem insert_cleared (s : State) (key j : Nat) (c : Connection) (q : Queue) :
    { s.cleared key with
      connections := (s.cleared key).connections.insert j
        { (if j = key then c.cleared else c : Connection) with outbound := q } } =
      State.cleared { s with connections := s.connections.insert j { c with outbound := q } }
        key := by
  have hinsert := KeyTable.modify_insert s.connections key j { c with outbound := q }
    Connection.cleared
  have hsame : (if j = key then Connection.cleared { c with outbound := q }
      else { c with outbound := q }) =
        { (if j = key then c.cleared else c : Connection) with outbound := q } := by
    split <;> rfl
  rw [hsame] at hinsert
  exact congrArg (fun connections => { s with connections := connections }) hinsert.symm

theorem enqueue_cleared (s : State) (key j : Nat) (bytes : Bytes) :
    (s.cleared key).enqueue j bytes = (s.enqueue j bytes).map (State.cleared · key) := by
  unfold enqueue
  rw [get?_cleared]
  cases s.connections.get? j with
  | none => rfl
  | some c =>
    have houtbound : (if j = key then c.cleared else c).outbound = c.outbound := by
      split <;> rfl
    simp only [Option.map_some, houtbound]
    split
    · exact congrArg Except.ok (insert_cleared s key j c _)
    · rfl
    · rfl

theorem offer_cleared (s : State) (key j : Nat) (bytes : Bytes) :
    offer bytes (s.cleared key) j = ((offer bytes s j).1.cleared key, (offer bytes s j).2) := by
  unfold offer
  rw [enqueue_cleared]
  cases s.enqueue j bytes with
  | ok t => rfl
  | error reason =>
    show ((s.cleared key).disconnect j reason, 0) = _
    rw [disconnect_cleared]

theorem offerAll_cleared (bytes : Bytes) (s : State) (key : Nat) (keys : List Nat) :
    offerAll bytes (s.cleared key) keys =
      ((offerAll bytes s keys).1.cleared key, (offerAll bytes s keys).2) := by
  induction keys generalizing s with
  | nil => rfl
  | cons j keys ih =>
    unfold offerAll
    simp only [offer_cleared, ih]

/-- An eviction has been counted, and is to be offered to the other peers. -/
def counted (s : State) (sender : Nat) (f : RawFrame) : State :=
  let s := { s with peers := s.peers.recordEviction sender, broadcasts := s.broadcasts + 1 }
  let evictions := (s.peers.evictions? sender).getD 0
  let s := s.note (.received s.broadcasts (s.peers.label sender) f.header.length evictions)
  s.note (.sending s.broadcasts f.bytes.length (s.peers.recipients sender).length)

theorem handleEviction_eq (s : State) (sender : Nat) (f : RawFrame) :
    s.handleEviction sender f = (offerAll f.bytes (s.counted sender f)
      ((s.counted sender f).peers.recipients sender)).1 := rfl

theorem handleEviction_cleared (s : State) (key sender : Nat) (f : RawFrame) :
    (s.cleared key).handleEviction sender f = (s.handleEviction sender f).cleared key := by
  rw [handleEviction_eq, handleEviction_eq]
  exact congrArg Prod.fst (offerAll_cleared f.bytes (s.counted sender f) key _)

theorem handle_cleared (s : State) (key sender : Nat) (f : RawFrame) :
    (s.cleared key).handle sender f =
      ((s.handle sender f).1.cleared key, (s.handle sender f).2) := by
  unfold handle
  split
  · split
    · exact congrArg (·, none) (handleEviction_cleared s key sender f)
    · rfl
  · rw [handleHello_eq, handleHello_eq]
    have hgreeted : (s.cleared key).greeted sender f = (s.greeted sender f).cleared key := rfl
    rw [hgreeted]
    unfold answerHello
    have hmember : ((s.greeted sender f).cleared key).peers = (s.greeted sender f).peers := rfl
    have hwelcome : ((s.greeted sender f).cleared key).welcome = (s.greeted sender f).welcome := rfl
    rw [hmember, hwelcome, enqueue_cleared]
    split
    · cases (s.greeted sender f).enqueue sender (s.greeted sender f).welcome <;> rfl
    · rfl
  · rfl

theorem handleAll_cleared (s : State) (key sender : Nat) (fs : List RawFrame) :
    (s.cleared key).handleAll sender fs =
      ((s.handleAll sender fs).1.cleared key, (s.handleAll sender fs).2) := by
  induction fs generalizing s with
  | nil => rfl
  | cons f fs ih =>
    have hf := handle_cleared s key sender f
    cases h : s.handle sender f with
    | mk t outcome =>
      rw [h] at hf
      cases outcome with
      | none =>
        rw [handleAll_cons_none fs h, handleAll_cons_none fs hf]
        exact ih t
      | some reason => rw [handleAll_cons_some fs h, handleAll_cons_some fs hf]

/-! ## Inputs -/

theorem receive_cleared (s : State) (now : Nat) {key sender : Nat} (bytes : Bytes)
    (h : sender ≠ key) :
    (s.cleared key).receive now sender bytes = (s.receive now sender bytes).cleared key := by
  have hreading := reading?_cleared s key sender
  cases hc : s.reading? sender with
  | none =>
    rw [hc] at hreading
    rw [receive_of_not_reading hc, receive_of_not_reading hreading]
  | some c =>
    rw [hc, Option.map_some, if_neg h] at hreading
    have hall := handleAll_cleared s key sender (c.input.feed s.readRules now bytes).1
    cases hh : s.handleAll sender (c.input.feed s.readRules now bytes).1 with
    | mk t outcome =>
      rw [hh] at hall
      cases outcome with
      | some reason =>
        rw [receive_of_unanswered hc hh, receive_of_unanswered hreading hall, disconnect_cleared]
      | none =>
        cases hrest : (c.input.feed s.readRules now bytes).2 with
        | error reason =>
          rw [receive_of_refused hc hh hrest, receive_of_refused hreading hall hrest,
            disconnect_cleared]
        | ok input =>
          rw [receive_of_read hc hh hrest, receive_of_read hreading hall hrest]
          have hcomm := KeyTable.modify_comm (k := sender) (j := key)
            (f := fun c => { c with input := input }) (g := Connection.cleared)
            (fun he => absurd he h) t.connections
          exact congrArg (fun connections => { t with connections := connections }) hcomm

/-- The bytes that arrive at once when more bytes of a peer arrive: those of the frames that are then
complete, or those up to a header that the relay refuses. -/
def completed (s : State) (now key : Nat) (bytes : Bytes) : Bytes :=
  match s.reading? key with
  | none => []
  | some c =>
    match (c.input.feed s.readRules now bytes).2 with
    | .ok _ => ((c.input.feed s.readRules now bytes).1.map RawFrame.bytes).flatten
    | .error _ => c.input.held ++ bytes

theorem completed_of_ok {c : Connection} {next : Reader} {now : Nat} {bytes : Bytes}
    (hc : s.reading? key = some c) (h : (c.input.feed s.readRules now bytes).2 = .ok next) :
    s.completed now key bytes =
      ((c.input.feed s.readRules now bytes).1.map RawFrame.bytes).flatten := by
  simp only [completed, hc, h]

theorem completed_of_error {c : Connection} {reason : Disconnect} {now : Nat} {bytes : Bytes}
    (hc : s.reading? key = some c)
    (h : (c.input.feed s.readRules now bytes).2 = .error reason) :
    s.completed now key bytes = c.input.held ++ bytes := by
  simp only [completed, hc, h]

/-- What the reader holds does not matter if the frames arrive at once when they are complete. -/
theorem receive_completed (hs : s.Sound) (now key : Nat) (bytes : Bytes) :
    (s.cleared key).receive now key (s.completed now key bytes) =
      (s.receive now key bytes).cleared key := by
  have hreading := reading?_cleared s key key
  cases hc : s.reading? key with
  | none =>
    rw [hc] at hreading
    rw [receive_of_not_reading hc, receive_of_not_reading hreading]
  | some c =>
    rw [hc, Option.map_some, if_pos rfl] at hreading
    have hsound := hs.reader_sound (hs.member_of_reading? hc).1
    have hall := handleAll_cleared s key key (c.input.feed s.readRules now bytes).1
    -- The same frames come out, and then the reader goes on or refuses a header as before.
    have hfeed : (c.cleared.input.feed s.readRules now (s.completed now key bytes)).1 =
        (c.input.feed s.readRules now bytes).1 := by
      cases h : (c.input.feed s.readRules now bytes).2 with
      | ok next =>
        have hstart := congrArg Prod.fst (Reader.feed_start now bytes hsound)
        rw [completed_of_ok hc h]
        exact hstart
      | error reason =>
        rw [completed_of_error hc h]
        exact congrArg Prod.fst (Reader.feed_start_of_error hsound h)
    rw [← hfeed] at hall
    cases hh : s.handleAll key (c.input.feed s.readRules now bytes).1 with
    | mk t outcome =>
      rw [hfeed, hh, ← hfeed] at hall
      cases outcome with
      | some reason =>
        rw [receive_of_unanswered hc hh, receive_of_unanswered hreading hall, disconnect_cleared]
      | none =>
        cases h : (c.input.feed s.readRules now bytes).2 with
        | ok next =>
          have hrest : (c.cleared.input.feed s.readRules now (s.completed now key bytes)).2 =
              .ok .start := by
            have hstart := Reader.feed_start now bytes hsound
            rw [completed_of_ok hc h]
            exact congrArg Prod.snd hstart
          rw [receive_of_read hc hh h, receive_of_read hreading hall hrest]
          have hsame := (KeyTable.modify_modify t.connections key
            (fun c => { c with input := .start }) Connection.cleared).trans
              (KeyTable.modify_modify t.connections key Connection.cleared
                fun c => { c with input := next }).symm
          exact congrArg (fun connections => { t with connections := connections }) hsame
        | error reason =>
          have hrest : (c.cleared.input.feed s.readRules now (s.completed now key bytes)).2 =
              .error reason := by
            rw [completed_of_error hc h, ← h]
            exact congrArg Prod.snd (Reader.feed_start_of_error hsound h)
          rw [receive_of_refused hc hh h, receive_of_refused hreading hall hrest,
            disconnect_cleared]

theorem changeQueue_cleared (s : State) (key j : Nat) (change : Queue → Queue) :
    ((s.cleared key).changeQueue j change).2 = (s.changeQueue j change).2.cleared key := by
  unfold changeQueue
  rw [get?_cleared]
  cases s.connections.get? j with
  | none => rfl
  | some c =>
    have houtbound : (if j = key then c.cleared else c).outbound = c.outbound := by
      split <;> rfl
    simp only [Option.map_some, houtbound]
    split
    · rfl
    · exact insert_cleared s key j c _

theorem takeOutbound_cleared (s : State) (key j : Nat) :
    ((s.cleared key).takeOutbound j).2 = (s.takeOutbound j).2.cleared key := by
  unfold takeOutbound
  rw [get?_cleared]
  cases s.connections.get? j with
  | none => rfl
  | some c =>
    have houtbound : (if j = key then c.cleared else c).outbound = c.outbound := by
      split <;> rfl
    simp only [Option.map_some, houtbound]
    split
    · rfl
    · exact insert_cleared s key j c _

theorem disconnectAll_cleared (s : State) (key : Nat) (keys : List Nat) :
    (s.cleared key).disconnectAll keys = (s.disconnectAll keys).cleared key := by
  induction keys generalizing s with
  | nil => rfl
  | cons j keys ih =>
    unfold disconnectAll
    rw [disconnect_cleared, ih]

/-- All connections have been told to stop. -/
def told (s : State) : State :=
  { s with
    stopping := true
    connections := s.connections.mapValues fun _ c => { c with cancelled := true } }

theorem told_cleared (s : State) (key : Nat) : (s.cleared key).told = s.told.cleared key := by
  have hcomm := KeyTable.modify_mapValues (f := Connection.cleared)
    (g := fun c => { c with cancelled := true }) (fun _ => rfl) s.connections key
  exact congrArg (fun connections => { s with stopping := true, connections := connections })
    hcomm.symm

def stopped (s : State) : State :=
  s.note (.stopped s.broadcasts)

theorem shutDown_of_going (h : s.stopping = false) :
    s.shutDown = ((s.told.note .shutdownRequested).disconnectAll s.peers.keys).stopped := by
  unfold shutDown
  rw [h, if_neg Bool.false_ne_true]
  rfl

theorem shutDown_cleared (s : State) (key : Nat) :
    (s.cleared key).shutDown = s.shutDown.cleared key := by
  cases hstop : s.stopping with
  | true =>
    have hstop' : (s.cleared key).stopping = true := hstop
    unfold shutDown
    rw [if_pos hstop, if_pos hstop']
  | false =>
    have hall := disconnectAll_cleared (s.told.note .shutdownRequested) key s.peers.keys
    rw [shutDown_of_going hstop, shutDown_of_going (s := s.cleared key) hstop, told_cleared]
    exact congrArg stopped hall

theorem accept_cleared (s : State) (key : Nat) (address : String) :
    ((s.cleared key).accept address).2 = (s.accept address).2.cleared key := by
  have hinsert := KeyTable.modify_insert s.connections key (s.lastKey + 1)
    ⟨.ofDepth s.config.queueDepth, .start, s.stopping⟩ Connection.cleared
  -- A new reader holds nothing.
  have hnew : (if s.lastKey + 1 = key then
      Connection.cleared ⟨.ofDepth s.config.queueDepth, .start, s.stopping⟩
      else ⟨.ofDepth s.config.queueDepth, .start, s.stopping⟩) =
        ⟨.ofDepth s.config.queueDepth, .start, s.stopping⟩ := by
    split <;> rfl
  rw [hnew] at hinsert
  exact congrArg (fun connections => { (s.accept address).2 with connections := connections })
    hinsert.symm

theorem inputFailed_cleared (s : State) (key j : Nat) (e : IoError) :
    (s.cleared key).inputFailed j e = (s.inputFailed j e).cleared key := by
  unfold inputFailed
  rw [reading?_cleared]
  cases s.reading? j with
  | none => rfl
  | some c => exact disconnect_cleared s key j _

theorem inputEnded_cleared (s : State) {key j : Nat} (h : j ≠ key) :
    (s.cleared key).inputEnded j = (s.inputEnded j).cleared key := by
  unfold inputEnded
  rw [reading?_cleared]
  cases s.reading? j with
  | none => rfl
  | some c =>
    rw [Option.map_some, if_neg h]
    exact disconnect_cleared s key j _

/-- A reader that holds nothing is never late. -/
theorem late?_cleared_self (s : State) (now key : Nat) : (s.cleared key).late? now key = none := by
  unfold late?
  rw [reading?_cleared]
  cases s.reading? key with
  | none => rfl
  | some c =>
    rw [Option.map_some, if_pos rfl]
    rfl

theorem late?_cleared (s : State) (now : Nat) {key j : Nat} (h : j ≠ key) :
    (s.cleared key).late? now j = s.late? now j := by
  unfold late?
  rw [reading?_cleared]
  cases s.reading? j with
  | none => rfl
  | some c =>
    rw [Option.map_some, if_neg h]
    rfl

/-- What happens to a relay, with the bytes of a peer regrouped. -/
def regroupedAt (s : State) (now key : Nat) : Input → Input
  | .arrived sender bytes =>
    .arrived sender (if sender = key then s.completed now key bytes else bytes)
  | input => input

theorem after_cleared (hs : s.Sound) (now : Nat) {key : Nat} {input : Input}
    (hended : input ≠ .ended key) (hlate : input = .timer key → s.late? now key = none) :
    (s.cleared key).after now (s.regroupedAt now key input) =
      (s.after now input).cleared key := by
  cases input with
  | connected address =>
    cases hstop : s.stopping with
    | true => exact (if_pos hstop).trans (congrArg (State.cleared · key) (if_pos hstop).symm)
    | false =>
      rw [after_connected hstop]
      exact (after_connected (s := s.cleared key) hstop now address).trans
        (accept_cleared s key address)
  | arrived sender bytes =>
    show (s.cleared key).receive now sender (if _ then _ else _) = _
    by_cases h : sender = key
    · subst h
      rw [if_pos rfl]
      exact receive_completed hs now sender bytes
    · rw [if_neg h]
      exact receive_cleared s now bytes h
  | ended sender => exact inputEnded_cleared s fun he => hended (by rw [he])
  | readFailed sender e => exact inputFailed_cleared s key sender e
  | timer sender =>
    show (s.cleared key).checkDeadline now sender = (s.checkDeadline now sender).cleared key
    by_cases h : sender = key
    · subst h
      rw [checkDeadline_of_none (hlate rfl), checkDeadline_of_none (late?_cleared_self s now sender)]
    · have hsame := late?_cleared s now h
      cases hreason : s.late? now sender with
      | none =>
        rw [hreason] at hsame
        rw [checkDeadline_of_none hreason, checkDeadline_of_none hsame]
      | some reason =>
        rw [hreason] at hsame
        rw [checkDeadline_of_late hreason, checkDeadline_of_late hsame, disconnect_cleared]
  | taken sender => exact takeOutbound_cleared s key sender
  | writeFailed sender e => exact disconnect_cleared s key sender _
  | writerStopped sender => exact changeQueue_cleared s key sender _
  | shutDown => exact shutDown_cleared s key

end State

end Relay

end EvictionBus
