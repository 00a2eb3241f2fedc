import EvictionBus.Proofs.Frame.Stream
import EvictionBus.Proofs.Relay.Cluster

/-!
# What holds of a client

A client's history agrees with its state, whatever it does: it has read a welcome and whole frames
behind it, and has handed out the evictions among them.  What it has written and read are parts of
what it has had to write and of what the relay has queued for it.
-/

namespace EvictionBus

/-! ## Traffic -/

/-- Whether a node hands out the payload of a frame: it is an eviction of another node. -/
def Frame.handed (f : Frame) : Bool :=
  !f.header.sentByMe && f.header.op = .evict

theorem Traffic.delivered_receive (t : Traffic) (f : Frame) :
    (t.receive f).delivered = t.delivered ++ ([f].filter Frame.handed).map Frame.payload := by
  unfold receive Frame.handed
  cases hme : f.header.sentByMe with
  | true => simp [echo, hme]
  | false =>
    cases hop : f.header.op <;> simp [deliver, hme, hop]

theorem Traffic.delivered_receiveItems (t : Traffic) (items : List FrameItem) :
    (t.receiveItems items).delivered = t.delivered ++
      ((items.filterMap Except.toOption).filter Frame.handed).map Frame.payload := by
  unfold receiveItems
  -- Item by item, from any traffic: an error changes no payload.
  induction items generalizing t with
  | nil => exact (List.append_nil _).symm
  | cons item items ih =>
    rw [List.foldl_cons, ih]
    cases item with
    | error e => rfl
    | ok f =>
      have hcons : (Except.ok f :: items : List FrameItem).filterMap Except.toOption =
          [f] ++ items.filterMap Except.toOption := rfl
      rw [hcons, List.filter_append, List.map_append, ← List.append_assoc,
        ← delivered_receive]

/-! ## Readers -/

/-- The rest of a stream of which all whole frames have been taken: no frame is complete in it, or
its header declares too much. -/
def Exhausted (limit : Nat) (rest : Bytes) : Prop :=
  Unfinished limit rest ∨ headerSize ≤ rest.length ∧ limit < Header.declared rest

theorem toOption_map_ok (fs : List Frame) :
    (fs.map (Except.ok : Frame → FrameItem)).filterMap Except.toOption = fs := by
  induction fs with
  | nil => rfl
  | cons f fs ih => exact congrArg (f :: ·) ih

/-- A chunk makes a reader yield the whole frames of what it holds, and it keeps the rest. -/
theorem FrameReader.feed_spec (c : Codec) (pending chunk : Bytes) :
    ∃ raws rest, pending ++ chunk = raws.flatten ++ rest ∧
      c.Reads raws (((reading pending).feed c chunk).2.filterMap Except.toOption) ∧
      Exhausted c.limit rest ∧
      (∀ p, ((reading pending).feed c chunk).1 = .reading p → p = rest ∧
        Unfinished c.limit rest) := by
  obtain ⟨raws, rest, heq, hreads, hend⟩ := c.drain_spec (pending ++ chunk)
  refine ⟨raws, rest, heq, ?_⟩
  rcases hd : c.drain (pending ++ chunk) with ⟨fs, outcome⟩
  rw [hd] at hreads hend
  -- The reader goes on with the rest, or stops at a header that declares too much.
  rcases hend with ⟨rfl, hu⟩ | ⟨hout, hlen, hover⟩
  · have hfeed : (reading pending).feed c chunk = (.reading rest, fs.map .ok) := by
      simp only [feed, hd]
    rw [hfeed, toOption_map_ok]
    refine ⟨hreads, .inl hu, fun p hp => ?_⟩
    cases hp
    exact ⟨rfl, hu⟩
  · obtain ⟨e, rfl⟩ : ∃ e, outcome = .error e := ⟨_, hout⟩
    have hfeed : (reading pending).feed c chunk = (.stopped, fs.map .ok ++ [.error e]) := by
      simp only [feed, hd]
    rw [hfeed, List.filterMap_append, toOption_map_ok]
    refine ⟨?_, .inr ⟨hlen, hover⟩, fun p hp => ?_⟩
    · have hnone : [(Except.error e : FrameItem)].filterMap Except.toOption = [] := rfl
      rw [hnone, List.append_nil]
      exact hreads
    · cases hp

theorem FrameReader.finish_spec {c : Codec} {pending : Bytes} (h : Unfinished c.limit pending) :
    ((reading pending).finish c).1 = .stopped ∧
      ((reading pending).finish c).2.filterMap Except.toOption = [] := by
  refine ⟨rfl, ?_⟩
  unfold finish
  simp only [Codec.drainFinal_of_unfinished h, List.map_nil, List.nil_append]
  cases (c.drainFinal pending).2 <;> rfl

namespace Relay

/-! ## Frames of a member -/

/-- A payload that a node can send is within its limit, and its frame is a header and the payload.
-/
theorem Member.encode_eviction {m : Member} {payload frame : Bytes}
    (h : m.codec.encode .evict payload = .ok frame) :
    payload.length ≤ m.codec.limit ∧ frame = m.evictionFrame payload := by
  unfold Codec.encode at h
  cases hc : m.codec.checkLength payload.length with
  | error e =>
    rw [hc] at h
    cases h
  | ok u =>
    rw [hc] at h
    obtain ⟨-, -, hframe⟩ := encodeFrame_eq_ok h
    exact ⟨Codec.checkLength_eq_ok_iff.1 hc, hframe⟩

theorem Member.whole_eviction (m : Member) {payload : Bytes}
    (h : payload.length ≤ m.codec.limit) : WholeFrame m.codec.limit (m.evictionFrame payload) :=
  wholeFrame_bytes m.identity .evict h (Nat.le_trans h m.codec.limit_le)

theorem Member.hello_eq_ok {m : Member} {frame : Bytes}
    (h : RelayClient.hello m.codec m.config.relayAlias = .ok frame) :
    ∃ name, name.length ≤ m.codec.limit ∧
      frame = Header.bytes m.identity .hello name.length ++ name := by
  unfold RelayClient.hello Codec.encode at h
  cases hc : m.codec.checkLength (Text.Utf8.encode m.config.relayAlias).length with
  | error e =>
    rw [hc] at h
    cases h
  | ok u =>
    rw [hc] at h
    cases hf : encodeFrame m.codec.identity .hello (Text.Utf8.encode m.config.relayAlias) with
    | error e =>
      change (encodeFrame m.codec.identity .hello _).mapError TransportError.ofFrame = _ at h
      rw [hf] at h
      cases h
    | ok bs =>
      change (encodeFrame m.codec.identity .hello _).mapError TransportError.ofFrame = _ at h
      rw [hf] at h
      cases h
      obtain ⟨-, -, hframe⟩ := encodeFrame_eq_ok hf
      exact ⟨_, Codec.checkLength_eq_ok_iff.1 hc, hframe⟩

namespace Client

/-- The frames that a node has begun to write: its greeting and an eviction for every payload. -/
def written (m : Member) (x : Client) : List Bytes :=
  match RelayClient.hello m.codec m.config.relayAlias with
  | .ok frame => frame :: x.sent.map m.evictionFrame
  | .error _ => []

/-- What holds of a client, whatever the relay does. -/
structure Sound (m : Member) (x : Client) : Prop where
  /-- What has been sent is within the limit. -/
  sent_le : ∀ payload ∈ x.sent, payload.length ≤ m.codec.limit
  /-- The payloads handed out are those of the evictions among the frames. -/
  delivered : x.life.traffic.delivered = (x.received.filter Frame.handed).map Frame.payload
  /-- Without a connection nothing has happened. -/
  unconnected : x.wire = none →
    x.heard = [] ∧ x.sent = [] ∧ x.greeting = none ∧ x.outcome ≠ some (.ok ())
  /-- While the node is being started it has read a part of a header. -/
  greeted : ∀ g, x.greeting = some g → x.heard = g ∧ g.length < headerSize ∧ x.outcome = none
  /-- A node that is being started, or has been, has a greeting to send. -/
  announced : x.greeting ≠ none ∨ x.outcome = some (.ok ()) →
    ∃ frame, RelayClient.hello m.codec m.config.relayAlias = .ok frame
  /-- A start that is not under way any more has ended somehow. -/
  connected : x.wire ≠ none → x.greeting = none → x.outcome ≠ none
  /-- A node whose start has ended is closed or has its link. -/
  ended : x.outcome ≠ none → x.life.closed = true ∨ x.life.link ≠ none
  /-- Before its start has succeeded a node neither sends nor receives. -/
  unstarted : x.outcome ≠ some (.ok ()) → x.received = [] ∧ x.life.link = none ∧ x.sent = []
  /-- Since its start has succeeded a node has read a welcome and whole frames. -/
  started : x.outcome = some (.ok ()) → ∃ head raws rest,
    x.heard = head ++ (raws.flatten ++ rest) ∧ head.length = headerSize ∧
      RelayClient.checkWelcome m.codec head = .ok () ∧ m.codec.Reads raws x.received ∧
      Exhausted m.codec.limit rest ∧ ∀ pending, x.life.link = some (.reading pending) →
        pending = rest ∧ Unfinished m.codec.limit rest

/-- What the relay records about its peers: the bytes read from a peer, the frames that have been
put into its queue, and those that wait there. -/
structure Records where
  read : Nat → Bytes
  queued : Nat → List Bytes
  waiting : Nat → List Bytes

/-- The bytes on a connection are those that one side has had to write and the other has not read
yet, unless some of them are lost at the end. -/
structure Linked (m : Member) (r : Records) (x : Client) (w : Wire) : Prop where
  up : ∃ lost, r.read w.key ++ (w.up ++ lost) = (x.written m).flatten ∧
    (w.upEnded = false → lost = w.unsent)
  down : ∃ lost, x.heard ++ (w.down ++ lost) = (r.queued w.key).flatten ∧
    (w.downEnded = false → lost = w.writing ++ (r.waiting w.key).flatten)

variable {m : Member} {r : Records} {x : Client}

theorem sound_fresh (m : Member) : fresh.Sound m := by
  constructor
  case unconnected =>
    intro _
    exact ⟨rfl, rfl, rfl, by simp [fresh]⟩
  all_goals simp [fresh, Lifecycle.fresh, Traffic.start]

theorem Sound.of_mayStart (h : x.Sound m) (hstart : x.life.mayStart = .ok ())
    (hgreeting : x.greeting = none) : x.wire = none ∧ x.outcome = none := by
  obtain ⟨hopen, hnone⟩ := Lifecycle.mayStart_eq_ok hstart
  -- A start that has ended would have left the node closed or with its link.
  have houtcome : x.outcome = none := by
    cases ho : x.outcome with
    | none => rfl
    | some o =>
      rcases h.ended (by rw [ho]; simp) with hc | hl
      · rw [hopen] at hc
        cases hc
      · exact absurd hnone hl
  refine ⟨?_, houtcome⟩
  cases hw : x.wire with
  | none => rfl
  | some w => exact absurd houtcome (h.connected (by rw [hw]; simp) hgreeting)

theorem sound_failStart (hreceived : x.received = []) (hlink : x.life.link = none)
    (hsent : x.sent = []) (hdelivered : x.life.traffic.delivered = [])
    (hheard : x.wire = none → x.heard = []) (e : TransportError) : (x.failStart e).Sound m := by
  constructor
  case sent_le =>
    intro p hp
    change p ∈ x.sent at hp
    rw [hsent] at hp
    cases hp
  case delivered =>
    change x.life.traffic.delivered = (x.received.filter Frame.handed).map Frame.payload
    rw [hdelivered, hreceived]
    rfl
  case unconnected =>
    intro hw
    have hw' : x.wire = none := Option.map_eq_none_iff.1 hw
    refine ⟨hheard hw', hsent, rfl, ?_⟩
    intro ho
    cases ho
  case greeted =>
    intro g hg
    cases hg
  case announced =>
    rintro (hg | ho)
    · exact absurd rfl hg
    · cases ho
  case connected =>
    intro _ _ ho
    cases ho
  -- A start that fails closes the node, so it has ended; nothing was sent or received before.
  case ended => exact fun _ => .inl rfl
  case unstarted => exact fun _ => ⟨hreceived, hlink, hsent⟩
  case started =>
    intro ho
    cases ho

theorem Sound.delivered_nil (h : x.Sound m) (hreceived : x.received = []) :
    x.life.traffic.delivered = [] := by
  rw [h.delivered, hreceived]
  rfl

theorem Sound.failStart (h : x.Sound m) (hnot : x.outcome ≠ some (.ok ()))
    (e : TransportError) : (x.failStart e).Sound m := by
  obtain ⟨hreceived, hlink, hsent⟩ := h.unstarted hnot
  exact sound_failStart hreceived hlink hsent (h.delivered_nil hreceived)
    (fun hw => (h.unconnected hw).1) e

/-! ## Bytes on the way -/

theorem written_congr {y : Client} (hsent : y.sent = x.sent) : y.written m = x.written m := by
  unfold written
  rw [hsent]

theorem Linked.congr {y : Client} {w : Wire} (h : Linked m r x w) (hheard : y.heard = x.heard)
    (hsent : y.sent = x.sent) : Linked m r y w := by
  constructor
  · rw [written_congr hsent]
    exact h.up
  · rw [hheard]
    exact h.down

theorem Linked.hangUp {w : Wire} (h : Linked m r x w) : Linked m r x w.hangUp := by
  obtain ⟨lost, hup, -⟩ := h.up
  obtain ⟨lost', hdown, -⟩ := h.down
  -- Both directions end here, and what the node has not read is lost to it.
  refine ⟨⟨lost, hup, ?_⟩, ⟨w.down ++ lost', hdown, ?_⟩⟩
  · intro he
    cases he
  · intro he
    cases he

theorem Linked.breakOff {w : Wire} (h : Linked m r x w) : Linked m r x w.breakOff := by
  obtain ⟨lost, hup, -⟩ := h.up
  refine ⟨⟨lost, hup, ?_⟩, h.down⟩
  intro he
  cases he

theorem Linked.reset {w : Wire} (h : Linked m r x w) : Linked m r x w.reset := by
  obtain ⟨lost, hup, -⟩ := h.up
  obtain ⟨lost', hdown, -⟩ := h.down
  refine ⟨⟨w.up ++ lost, hup, ?_⟩, ⟨w.down ++ lost', hdown, ?_⟩⟩
  · intro he
    cases he
  · intro he
    cases he

theorem Linked.write {w : Wire} (h : Linked m r x w) (n : Nat) : Linked m r x (w.write n) := by
  obtain ⟨lost, hup, hlost⟩ := h.up
  refine ⟨?_, h.down⟩
  cases he : w.upEnded with
  | true =>
    refine ⟨lost, ?_, ?_⟩
    · simp only [Wire.write, he, if_pos]
      exact hup
    · intro hf
      simp only [Wire.write] at hf
      rw [he] at hf
      cases hf
  | false =>
    refine ⟨w.unsent.drop n, ?_, fun _ => rfl⟩
    -- What goes onto the wire was the first part of what had not been written.
    rw [hlost he] at hup
    simp only [Wire.write, he]
    rw [if_neg Bool.false_ne_true, List.append_assoc, List.take_append_drop]
    exact hup

theorem Linked.forward {w : Wire} (h : Linked m r x w) (n : Nat) :
    Linked m r x (w.forward n) := by
  obtain ⟨lost, hdown, hlost⟩ := h.down
  refine ⟨h.up, ?_⟩
  cases he : w.downEnded with
  | true =>
    refine ⟨lost, ?_, ?_⟩
    · simp only [Wire.forward, he, if_pos]
      exact hdown
    · intro hf
      simp only [Wire.forward] at hf
      rw [he] at hf
      cases hf
  | false =>
    refine ⟨w.writing.drop n ++ (r.waiting w.key).flatten, ?_, fun _ => rfl⟩
    -- The relay's writer goes on with the frame that it has begun.
    rw [hlost he] at hdown
    simp only [Wire.forward, he]
    rw [if_neg Bool.false_ne_true, List.append_assoc, ← List.append_assoc (w.writing.take n),
      List.take_append_drop]
    exact hdown

theorem Linked.hear {w : Wire} (h : Linked m r x w) (n : Nat) (y : Client)
    (hheard : y.heard = x.heard ++ w.down.take n) (hsent : y.sent = x.sent) :
    Linked m r y { w with down := w.down.drop n } := by
  obtain ⟨lost, hdown, hlost⟩ := h.down
  constructor
  · rw [written_congr hsent]
    exact h.up
  · refine ⟨lost, ?_, hlost⟩
    rw [hheard, List.append_assoc, ← List.append_assoc (w.down.take n), List.take_append_drop]
    exact hdown

/-! ## What a client does -/

/-- A client keeps its connection, and what holds of it, when it goes from `x` to `y`. -/
structure Keeps (m : Member) (r : Records) (x y : Client) : Prop where
  sound : y.Sound m
  key : y.wire.map Wire.key = x.wire.map Wire.key
  linked : (∀ w, x.wire = some w → Linked m r x w) → ∀ w, y.wire = some w → Linked m r y w

theorem keeps_refl (h : x.Sound m) : Keeps m r x x :=
  ⟨h, rfl, fun hl => hl⟩

theorem Sound.setWire (h : x.Sound m) (hw : x.wire ≠ none) (w : Wire) :
    { x with wire := some w }.Sound m where
  sent_le := h.sent_le
  delivered := h.delivered
  unconnected hn := by cases hn
  greeted := h.greeted
  announced := h.announced
  connected _ := h.connected hw
  ended := h.ended
  unstarted := h.unstarted
  started := h.started

theorem keeps_modifyWire (h : x.Sound m) {f : Wire → Wire} (hkey : ∀ w, (f w).key = w.key)
    (hf : ∀ w, Linked m r x w → Linked m r x (f w)) : Keeps m r x (x.modifyWire f) where
  sound := by
    unfold modifyWire
    cases hw : x.wire with
    | none =>
      rw [Option.map_none, ← hw]
      exact h
    | some w => exact h.setWire (by rw [hw]; simp) (f w)
  key := by
    unfold modifyWire
    rw [Option.map_map]
    congr 1
    exact funext hkey
  linked hl w hw := by
    obtain ⟨w', hw', rfl⟩ := Option.map_eq_some_iff.1 hw
    exact (hf w' (hl w' hw')).congr rfl rfl

theorem keeps_hangUp (h : x.Sound m) : Keeps m r x (x.modifyWire .hangUp) :=
  keeps_modifyWire h (fun _ => rfl) fun _ hl => hl.hangUp

theorem keeps_failStart (h : x.Sound m) (hnot : x.outcome ≠ some (.ok ())) (e : TransportError) :
    Keeps m r x (x.failStart e) where
  sound := h.failStart hnot e
  key := (keeps_hangUp (r := r) h).key
  linked hl w hw := ((keeps_hangUp h).linked hl w hw).congr rfl rfl

theorem Keeps.trans {y z : Client} (h : Keeps m r x y) (h' : Keeps m r y z) : Keeps m r x z where
  sound := h'.sound
  key := h'.key.trans h.key
  linked hl := h'.linked (h.linked hl)

theorem keeps_giveUp (h : x.Sound m) (e : TransportError) : Keeps m r x (x.giveUp e) := by
  unfold giveUp
  cases hg : x.greeting with
  | none => exact keeps_refl h
  | some g =>
    have hnot : x.outcome ≠ some (.ok ()) := by
      rw [(h.greeted g hg).2.2]
      simp
    exact keeps_failStart h hnot e

theorem keeps_life (h : x.Sound m) {life : Lifecycle FrameReader}
    (hclosed : x.life.closed = true → life.closed = true) (hlink : life.link = x.life.link)
    (hdelivered : life.traffic.delivered = x.life.traffic.delivered) :
    Keeps m r x { x with life := life } where
  sound := by
    constructor
    case sent_le => exact h.sent_le
    case delivered => exact hdelivered.trans h.delivered
    case unconnected => exact h.unconnected
    case greeted => exact h.greeted
    case announced => exact h.announced
    case connected => exact h.connected
    case ended =>
      intro ho
      rcases h.ended ho with hc | hl
      · exact .inl (hclosed hc)
      · exact .inr (by rw [hlink]; exact hl)
    case unstarted =>
      intro ho
      obtain ⟨hreceived, hl, hsent⟩ := h.unstarted ho
      exact ⟨hreceived, hlink.trans hl, hsent⟩
    -- Only the link is read from here, and it has stayed the same.
    case started =>
      intro ho
      obtain ⟨head, raws, rest, hheard, hlen, hwelcome, hreads, hex, hpending⟩ := h.started ho
      refine ⟨head, raws, rest, hheard, hlen, hwelcome, hreads, hex, fun p hp => ?_⟩
      exact hpending p (by rw [← hlink]; exact hp)
  key := rfl
  linked hl w hw := (hl w hw).congr rfl rfl

theorem keeps_close (h : x.Sound m) : Keeps m r x { x with life := x.life.markClosed } :=
  keeps_life h (fun _ => rfl) rfl rfl

theorem keeps_writeFails (h : x.Sound m) : Keeps m r x x.writeFails := by
  unfold writeFails
  split
  next w hg hw =>
    split
    · exact keeps_refl h
    · have hbreak : Keeps m r x (x.modifyWire .breakOff) :=
        keeps_modifyWire h (fun _ => rfl) fun _ hl => hl.breakOff
      have heq : x.modifyWire .breakOff = { x with wire := some w.breakOff } := by
        unfold modifyWire
        rw [hw]
        rfl
      rw [heq] at hbreak
      exact hbreak.trans (keeps_life hbreak.sound (fun _ => rfl) rfl rfl)
  next => exact keeps_refl h

theorem keeps_write (h : x.Sound m) (n : Nat) : Keeps m r x (x.write n) := by
  unfold write
  cases hw : x.wire with
  | none => exact keeps_refl h
  | some w =>
    have hwrite : Keeps m r x (x.modifyWire (·.write n)) :=
      keeps_modifyWire h (fun _ => rfl) fun _ hl => hl.write n
    have heq : x.modifyWire (·.write n) = { x with wire := some (w.write n) } := by
      unfold modifyWire
      rw [hw]
      rfl
    rw [heq] at hwrite
    simp only
    split
    · exact hwrite.trans (keeps_life hwrite.sound (fun hc => hc) rfl rfl)
    · exact hwrite

theorem Sound.outcome_of_link (h : x.Sound m) (hl : x.life.link ≠ none) :
    x.outcome = some (.ok ()) := by
  by_cases ho : x.outcome = some (.ok ())
  · exact ho
  · exact absurd (h.unstarted ho).2.1 hl

theorem keeps_send (h : x.Sound m) (payload : Bytes) : Keeps m r x (x.send m payload) := by
  unfold send
  split
  next l frame w _ hactive hencode hw =>
    split
    next hunsent =>
      obtain ⟨hle, rfl⟩ := Member.encode_eviction hencode
      -- Only a node with a link sends, and its start has succeeded.
      have hlink : x.life.link ≠ none := by
        rw [Lifecycle.link_of_active hactive]
        simp
      have ho := h.outcome_of_link hlink
      refine ⟨?_, by rw [hw]; rfl, ?_⟩
      · constructor
        case sent_le =>
          intro p hp
          rcases List.mem_append.1 hp with hp | hp
          · exact h.sent_le p hp
          · rw [List.mem_singleton.1 hp]
            exact hle
        case delivered => exact h.delivered
        case unconnected =>
          intro hn
          cases hn
        case greeted => exact h.greeted
        case announced => exact h.announced
        case connected => exact fun _ hg => h.connected (by rw [hw]; simp) hg
        case ended => exact h.ended
        case unstarted => exact fun hn => absurd ho hn
        case started => exact h.started
      · intro hl w' hw'
        cases hw'
        obtain ⟨lost, hup, hlost⟩ := (hl w hw).up
        refine ⟨?_, (hl w hw).down⟩
        obtain ⟨hello, hhello⟩ := h.announced (.inr ho)
        -- The new frame goes behind those that have been written whole.
        refine ⟨lost ++ m.evictionFrame payload, ?_, fun he => ?_⟩
        · simp only [written, hhello] at hup ⊢
          rw [← List.append_assoc, ← List.append_assoc, List.append_assoc (r.read w.key), hup,
            List.map_append, ← List.cons_append, List.flatten_append]
          simp
        · rw [hlost he, hunsent]
          rfl
    next => exact keeps_refl h
  next => exact keeps_refl h

theorem judge_eq_none {c : Codec} {received : Bytes} :
    RelayClient.judge c received = none ↔ received.length < headerSize := by
  unfold RelayClient.judge
  split <;> simp_all

theorem judge_eq_some {c : Codec} {received : Bytes} {o : Except TransportError Unit}
    (h : RelayClient.judge c received = some o) :
    headerSize ≤ received.length ∧ RelayClient.checkWelcome c received = o := by
  unfold RelayClient.judge at h
  split at h
  · cases h
  · cases h
    exact ⟨by omega, rfl⟩

theorem checkWelcome_of_decode {c : Codec} {bs : Bytes} {header : Header}
    (h : Header.decode c.identity bs = .ok header) : RelayClient.checkWelcome c bs =
      if header.op = .welcome ∧ header.length = 0 then .ok ()
      else .error (.handshake
        s!"expected empty Welcome, got {header.op.text} with {header.length} bytes") := by
  unfold RelayClient.checkWelcome Codec.decodeHeader
  rw [h]
  rfl

theorem linked_hear {w : Wire} (n : Nat) {y : Client} (hw : x.wire = some w)
    (hheard : y.heard = (x.hear w n).heard) (hsent : y.sent = x.sent)
    (hl : ∀ w, x.wire = some w → Linked m r x w) :
    Linked m r y { w with down := w.down.drop n } :=
  (hl w hw).hear n y hheard hsent

theorem keeps_hear (h : x.Sound m) {received : Bytes} {w : Wire} (n : Nat)
    (hg : x.greeting = some received) (hw : x.wire = some w)
    (hlen : (received ++ w.down.take n).length < headerSize) :
    Keeps m r x { x.hear w n with greeting := some (received ++ w.down.take n) } where
  key := by
    rw [hw]
    rfl
  linked hl w' hw' := by
    cases hw'
    exact linked_hear n hw rfl rfl hl
  sound := by
    -- Still a part of a header: nothing is decided yet.
    obtain ⟨hheard, -, houtcome⟩ := h.greeted received hg
    constructor
    case sent_le => exact h.sent_le
    case delivered => exact h.delivered
    case unconnected =>
      intro hn
      cases hn
    case greeted =>
      intro g hg'
      cases hg'
      refine ⟨?_, hlen, houtcome⟩
      rw [← hheard]
      rfl
    case announced => exact fun _ => h.announced (.inl (by rw [hg]; simp))
    case connected =>
      intro _ hn
      cases hn
    case ended => exact h.ended
    case unstarted => exact h.unstarted
    case started =>
      intro ho
      change x.outcome = some (.ok ()) at ho
      rw [houtcome] at ho
      cases ho

theorem keeps_succeedStart (h : x.Sound m) {received : Bytes} {w : Wire} (n : Nat)
    (hg : x.greeting = some received) (hw : x.wire = some w)
    (hlen : (received ++ w.down.take n).length = headerSize)
    (hwelcome : RelayClient.checkWelcome m.codec (received ++ w.down.take n) = .ok ()) :
    Keeps m r x (x.hear w n).succeedStart where
  key := by
    rw [hw]
    rfl
  linked hl w' hw' := by
    cases hw'
    exact linked_hear n hw rfl rfl hl
  sound := by
    obtain ⟨hheard, -, houtcome⟩ := h.greeted received hg
    have hreceived : x.received = [] := (h.unstarted (by rw [houtcome]; simp)).1
    constructor
    case sent_le => exact h.sent_le
    case delivered => exact h.delivered
    case unconnected =>
      intro hn
      cases hn
    case greeted =>
      intro g hg'
      cases hg'
    case announced => exact fun _ => h.announced (.inl (by rw [hg]; simp))
    case connected =>
      intro _ _ hn
      cases hn
    case ended =>
      intro _
      refine .inr ?_
      intro hn
      cases hn
    case unstarted => exact fun hn => absurd rfl hn
    case started =>
      intro _
      -- The node has heard the header of the welcome and no frame behind it.
      refine ⟨received ++ w.down.take n, [], [], ?_, hlen, hwelcome, ?_, .inl unfinished_nil, ?_⟩
      · rw [← hheard]
        exact (List.append_nil _).symm
      · change m.codec.Reads [] x.received
        rw [hreceived]
        exact Codec.Reads.nil m.codec
      · intro p hp
        cases hp
        exact ⟨rfl, unfinished_nil⟩

theorem keeps_failStart_hear (h : x.Sound m) {received : Bytes} {w : Wire} (n : Nat)
    (hg : x.greeting = some received) (hw : x.wire = some w) (e : TransportError) :
    Keeps m r x ((x.hear w n).failStart e) where
  key := by
    rw [hw]
    rfl
  linked hl w' hw' := by
    cases hw'
    exact ((linked_hear n hw rfl rfl hl).hangUp.congr (x := x.hear w n) rfl rfl)
  sound := by
    obtain ⟨-, -, houtcome⟩ := h.greeted received hg
    obtain ⟨hreceived, hlink, hsent⟩ := h.unstarted (by rw [houtcome]; simp)
    refine sound_failStart (x := x.hear w n) hreceived hlink hsent (h.delivered_nil hreceived) ?_ e
    intro hn
    cases hn

/-- The relay's answer is read up to the end of its header, and then decides. -/
theorem keeps_answer (h : x.Sound m) (n : Nat) : Keeps m r x (x.answer m n) := by
  unfold answer
  split
  next received w hg hw =>
    split
    next =>
      simp only
      split
      next hj => exact keeps_hear h _ hg hw (judge_eq_none.1 hj)
      next hj =>
        obtain ⟨hge, hwelcome⟩ := judge_eq_some hj
        -- The header is read to its end and no further, which leaves the rest for the reader.
        have hle := List.length_take_le (min n (headerSize - received.length)) w.down
        have hlen := (h.greeted received hg).2.1
        refine keeps_succeedStart h _ hg hw ?_ hwelcome
        rw [List.length_append] at hge ⊢
        omega
      next e hj => exact keeps_failStart_hear h _ hg hw e
    next => exact keeps_refl h
  next => exact keeps_refl h

theorem keeps_release (h : x.Sound m) : Keeps m r x x.release := by
  unfold release
  split
  · exact keeps_refl h
  next hg =>
    split
    next hclosed =>
      have hup := keeps_hangUp (r := r) h
      refine ⟨?_, hup.key, fun hl w hw => (hup.linked hl w hw).congr rfl rfl⟩
      have hs := hup.sound
      constructor
      case sent_le => exact hs.sent_le
      case delivered => exact hs.delivered
      case unconnected => exact hs.unconnected
      case greeted => exact hs.greeted
      case announced => exact hs.announced
      case connected => exact hs.connected
      case ended => exact fun _ => .inl hclosed
      case unstarted => exact fun ho => ⟨(hs.unstarted ho).1, rfl, (hs.unstarted ho).2.2⟩
      -- What has been heard stays; a released node has no reader to agree with it.
      case started =>
        intro ho
        obtain ⟨head, raws, rest, hheard, hlen, hwelcome, hreads, hex, -⟩ := hs.started ho
        refine ⟨head, raws, rest, hheard, hlen, hwelcome, hreads, hex, fun p hp => ?_⟩
        cases hp
    · exact keeps_refl h

/-- What a reader yields is taken in, once what the node has heard agrees with it. -/
theorem Sound.takeIn (h : x.Sound m) {pending heard : Bytes} {y : Client}
    (hlink : x.life.link = some (.reading pending)) (hwire : y.wire ≠ none)
    (hy : y = { x with wire := y.wire, heard := x.heard ++ heard })
    {yielded : FrameReader × List FrameItem} {raws : List Bytes} {rest : Bytes}
    (heq : pending ++ heard = raws.flatten ++ rest)
    (hreads : m.codec.Reads raws (yielded.2.filterMap Except.toOption))
    (hex : Exhausted m.codec.limit rest)
    (hnext : ∀ p, yielded.1 = .reading p → p = rest ∧ Unfinished m.codec.limit rest) :
    (y.takeIn yielded).Sound m := by
  have ho := h.outcome_of_link (by rw [hlink]; simp)
  obtain ⟨head, raws', rest', hheard, hlen, hwelcome, hreads', -, hpending⟩ := h.started ho
  obtain ⟨rfl, -⟩ := hpending pending hlink
  have houtcome : y.outcome = some (.ok ()) := by
    rw [hy]
    exact ho
  have hreceived : y.received = x.received := by rw [hy]
  have hylink : y.life.link = some (.reading pending) := by
    rw [hy]
    exact hlink
  -- Whether the reader has stopped or not, the link is what it has become.
  have hlife : (y.takeIn yielded).life.link = some yielded.1 ∧
      (y.takeIn yielded).life.traffic = y.life.traffic.receiveItems yielded.2 := by
    unfold Client.takeIn
    simp only [Lifecycle.modifyLink, Lifecycle.modifyTraffic, hylink, Option.map_some]
    split <;> exact ⟨rfl, rfl⟩
  constructor
  case sent_le =>
    intro p hp
    change p ∈ y.sent at hp
    rw [hy] at hp
    exact h.sent_le p hp
  case delivered =>
    change _ = ((y.received ++ yielded.2.filterMap Except.toOption).filter Frame.handed).map
      Frame.payload
    rw [hlife.2, Traffic.delivered_receiveItems, List.filter_append, List.map_append,
      hreceived, ← h.delivered]
    congr 2
    rw [hy]
  case unconnected => exact fun hn => absurd hn hwire
  case greeted =>
    intro g hg
    change y.greeting = some g at hg
    rw [hy] at hg
    have := (h.greeted g hg).2.2
    rw [ho] at this
    cases this
  case announced => exact fun _ => h.announced (.inr ho)
  case connected =>
    intro _ _ hn
    change y.outcome = none at hn
    rw [houtcome] at hn
    cases hn
  case ended =>
    intro _
    refine .inr ?_
    rw [hlife.1]
    simp
  case unstarted => exact fun hn => absurd houtcome hn
  case started =>
    intro _
    refine ⟨head, raws' ++ raws, rest, ?_, hlen, hwelcome, ?_, hex, fun p hp => ?_⟩
    · change y.heard = _
      rw [hy]
      change x.heard ++ heard = _
      rw [hheard, List.flatten_append, List.append_assoc, List.append_assoc, heq,
        List.append_assoc]
    · change m.codec.Reads _ (y.received ++ _)
      rw [hreceived]
      exact hreads'.append hreads
    -- A reader that goes on keeps what no whole frame was taken from.
    · rw [hlife.1] at hp
      exact hnext p (Option.some.inj hp)

theorem keeps_read (h : x.Sound m) (n : Nat) : Keeps m r x (x.read m n) := by
  unfold read
  split
  next pending w hlink hw =>
    obtain ⟨raws, rest, heq, hreads, hex, hnext⟩ :=
      FrameReader.feed_spec m.codec pending (w.down.take n)
    refine ⟨?_, by rw [hw]; rfl, fun hl w' hw' => ?_⟩
    · exact h.takeIn (y := x.hear w n) hlink (by simp [hear]) rfl heq hreads hex hnext
    · cases hw'
      exact linked_hear n hw rfl rfl hl
  next => exact keeps_refl h

theorem keeps_takeIn_nothing (h : x.Sound m) {pending : Bytes}
    (hlink : x.life.link = some (.reading pending)) {yielded : FrameReader × List FrameItem}
    (hstop : yielded.1 = .stopped)
    (hnone : yielded.2.filterMap Except.toOption = []) : Keeps m r x (x.takeIn yielded) := by
  have ho := h.outcome_of_link (by rw [hlink]; simp)
  obtain ⟨head, raws, rest, -, -, -, -, hex, hpending⟩ := h.started ho
  obtain ⟨rfl, hu⟩ := hpending pending hlink
  have hwire : x.wire ≠ none := fun hn => (h.unconnected hn).2.2.2 ho
  -- It is a read of no bytes, after which the reader has stopped.
  have hsame : x = { x with wire := x.wire, heard := x.heard ++ [] } := by
    rw [List.append_nil]
  refine ⟨?_, rfl, fun hl w hw => (hl w hw).congr rfl rfl⟩
  have hcut : pending ++ [] = ([] : List Bytes).flatten ++ pending := List.append_nil _
  refine h.takeIn hlink hwire hsame hcut ?_ (.inl hu) ?_
  · rw [hnone]
    exact Codec.Reads.nil m.codec
  · intro p hp
    rw [hstop] at hp
    cases hp

theorem keeps_readEnds (h : x.Sound m) : Keeps m r x (x.readEnds m) := by
  unfold readEnds
  split
  next pending hlink =>
    have ho := h.outcome_of_link (by rw [hlink]; simp)
    obtain ⟨head, raws, rest, -, -, -, -, -, hpending⟩ := h.started ho
    obtain ⟨rfl, hu⟩ := hpending pending hlink
    obtain ⟨hstop, hnone⟩ := FrameReader.finish_spec hu
    exact keeps_takeIn_nothing h hlink hstop hnone
  next => exact keeps_refl h

theorem keeps_readFails (h : x.Sound m) (e : IoError) : Keeps m r x (x.readFails e) := by
  unfold readFails
  split
  next pending hlink => exact keeps_takeIn_nothing h hlink rfl rfl
  next => exact keeps_refl h

/-- Whatever a client does, it keeps what holds of it. -/
theorem keeps_act (h : x.Sound m) (action : Action) : Keeps m r x (x.act m action) := by
  cases action with
  | answer n => exact keeps_answer h n
  | giveUp e => exact keeps_giveUp h e
  | send payload => exact keeps_send h payload
  | write n => exact keeps_write h n
  | writeFails => exact keeps_writeFails h
  | read n => exact keeps_read h n
  | readEnds => exact keeps_readEnds h
  | readFails e => exact keeps_readFails h e
  | close => exact keeps_close h
  | release => exact keeps_release h
  | forward n => exact keeps_modifyWire h (fun _ => rfl) fun _ hl => hl.forward n
  | reset => exact keeps_modifyWire h (fun _ => rfl) fun _ hl => hl.reset

/-- A node that connects to a relay has its greeting to write, and nothing else has happened. -/
theorem sound_connect (h : x.Sound m) (hstart : x.life.mayStart = .ok ())
    (hg : x.greeting = none) {key : Nat} (hread : r.read key = []) (hqueued : r.queued key = [])
    (hwaiting : r.waiting key = []) :
    (x.connect m key).Sound m ∧ ∃ w, (x.connect m key).wire = some w ∧ w.key = key ∧
      Linked m r (x.connect m key) w := by
  obtain ⟨hwire, houtcome⟩ := h.of_mayStart hstart hg
  obtain ⟨hheard, hsent, -, -⟩ := h.unconnected hwire
  obtain ⟨hreceived, hlink, -⟩ := h.unstarted (by rw [houtcome]; simp)
  unfold connect
  -- Without a greeting to send the start fails at once, on a connection that carries nothing.
  cases hhello : RelayClient.hello m.codec m.config.relayAlias with
  | error e =>
    refine ⟨?_, _, rfl, rfl, ?_⟩
    · exact sound_failStart (x := { x with wire := some (.ofFrame key []) }) hreceived hlink hsent
        (h.delivered_nil hreceived) (fun hn => absurd hn (by simp)) e
    · refine ⟨⟨[], ?_, fun _ => rfl⟩, ⟨[], ?_, ?_⟩⟩
      · simp only [written, hhello]
        show r.read key ++ [] = []
        rw [hread]
        rfl
      · show x.heard ++ [] = (r.queued key).flatten
        rw [hheard, hqueued]
        rfl
      · intro he
        cases he
  | ok frame =>
    refine ⟨?_, _, rfl, rfl, ?_⟩
    · constructor
      case sent_le =>
        intro p hp
        change p ∈ x.sent at hp
        rw [hsent] at hp
        cases hp
      case delivered => exact h.delivered
      case unconnected =>
        intro hn
        cases hn
      case greeted =>
        intro g hg'
        cases hg'
        exact ⟨hheard, by decide, houtcome⟩
      case announced => exact fun _ => ⟨frame, hhello⟩
      case connected =>
        intro _ hn
        cases hn
      case ended => exact h.ended
      case unstarted => exact h.unstarted
      case started =>
        intro ho
        change x.outcome = some (.ok ()) at ho
        rw [houtcome] at ho
        cases ho
    · refine ⟨⟨frame, ?_, fun _ => rfl⟩, ⟨[], ?_, fun _ => ?_⟩⟩
      · have hw : written m { x with wire := some (.ofFrame key frame), greeting := some [] } =
            [frame] := by
          simp only [written, hhello, hsent, List.map_nil]
        rw [hw]
        show r.read key ++ frame = [frame].flatten
        rw [hread, List.flatten_singleton]
        rfl
      · show x.heard ++ [] = (r.queued key).flatten
        rw [hheard, hqueued]
        rfl
      · show [] = (r.waiting key).flatten
        rw [hwaiting]
        rfl

end Client

end Relay

end EvictionBus
