import EvictionBus.Proofs.Net.Listening
import EvictionBus.Proofs.Net.Settling

/-!
# Frames are dispatched

A transport hands on the payload of every eviction of others that it takes in, once and in the order
in which they come, and nothing else. As long as it is open it takes in everything that comes on the
streams it reads from and to the port of its group.
-/

namespace EvictionBus.Net.World

variable {w v : World} {hs : List Happening} {i number connection place : Nat} {side : Side}
  {n m : Node} {log : List Sound}

/-! ## What is left to be read -/

theorem pipe_setPipe (s : Stream) (p : Pipe) (side : Side) : (s.setPipe p side).pipe side = p := by
  cases side <;> rfl

theorem unread_read (w : World) (connection : Nat) (side : Side) (count : Nat) :
    ((w.read connection side count).2.incoming connection side).unread =
      (w.incoming connection side).unread.drop count := by
  unfold read modifyStream incoming
  dsimp only
  rw [KeyTable.get?_modify, if_pos rfl]
  cases w.streams.get? connection with
  | none => cases side <;> exact List.drop_nil.symm
  | some s => exact congrArg Pipe.unread (pipe_setPipe s _ side.other)

theorem unread_abandon (w : World) (connection : Nat) (side : Side) :
    ((w.abandon connection side).incoming connection side).unread = [] := by
  unfold abandon modifyStream incoming
  dsimp only
  rw [KeyTable.get?_modify, if_pos rfl]
  cases w.streams.get? connection with
  | none => cases side <;> rfl
  | some s => cases side <;> rfl

theorem unread_moveReader {c : Codec} {r reader : FrameReader} {items : List FrameItem}
    (h : w.moveReader c connection side r = some (v, reader, items)) :
    (v.incoming connection side).unread = [] := by
  unfold moveReader at h
  dsimp only at h
  split at h
  · cases h
  · split at h
    · cases h
      exact (w.unread_read connection side _).trans List.drop_length
    · next hnothing =>
      split at h
      · cases h
        exact Decidable.not_not.mp hnothing
      · cases h

/-- A link leaves nothing unread that has come. -/
theorem unread_moveInlet (h : w.moveInlet i n place = some v)
    (hplace : n.inlet? place = some (connection, side)) :
    (v.incoming connection side).unread = [] := by
  unfold Node.inlet? at hplace
  unfold moveInlet at h
  cases hlink : n.life.link with
  | none => simp [hlink] at h
  | some link =>
    rw [hlink] at hplace h
    cases link with
    | multicast group => cases h
    | broker link => cases hplace
    | mesh links inflows =>
      obtain ⟨f, hf, h⟩ := Option.bind_eq_some_iff.mp h
      dsimp only at hplace
      rw [hf, Option.bind_some] at hplace
      split at hplace
      · cases hplace
      · cases hplace
        unfold moveInflow at h
        obtain ⟨⟨u, reader, items⟩, hread, h⟩ := Option.bind_eq_some_iff.mp h
        have hread := unread_moveReader hread
        dsimp only at h
        split at h
        · cases h
          exact (u.takeItems i items).unread_abandon f.connection .acceptor
        · cases h
          exact hread
    | relay other reader =>
      dsimp only at hplace
      split at hplace
      · cases hplace
      · cases hplace
        unfold moveRelayLink at h
        obtain ⟨⟨u, later, items⟩, hread, h⟩ := Option.bind_eq_some_iff.mp h
        have hread := unread_moveReader hread
        dsimp only at h
        split at h
        · cases h
          exact hread
        · cases h
          exact hread

theorem unread_takeIn (hn : w.nodes[i]? = some n)
    (hplace : n.inlet? place = some (connection, side)) :
    ((w.after (.takeIn i place)).incoming connection side).unread = [] := by
  cases hv : w.moveInlet i n place with
  | none =>
    have hafter : w.after (.takeIn i place) = w := by simp [after, onNode, hn, hv]
    rw [hafter]
    exact unread_of_idle hv hplace
  | some v =>
    have hafter : w.after (.takeIn i place) = v := by simp [after, onNode, hn, hv]
    rw [hafter]
    exact unread_moveInlet hv hplace

/-- Where nothing moves, nothing that has come is left to be taken in. -/
theorem unread_of_rest (hrest : w.move = none) (hn : w.nodes[i]? = some n)
    (hplace : n.inlet? place = some (connection, side)) :
    (w.incoming connection side).unread = [] := by
  have hlink : w.moveLink i n = none := by
    unfold move at hrest
    simp only [Option.orElse_eq_orElse, Option.orElse_eq_or, Option.or_eq_none_iff] at hrest
    obtain ⟨-, -, -, hlinks, -⟩ := hrest
    exact List.findSome?_eq_none_iff.mp hlinks (n, i) (List.mem_zipIdx_iff_getElem?.mpr hn)
  refine unread_of_idle (i := i) (n := n) ?_ hplace
  unfold moveLink at hlink
  unfold moveInlet
  cases hl : n.life.link with
  | none => rfl
  | some link =>
    rw [hl] at hlink
    cases link with
    | multicast group => rfl
    | broker link => exact hlink
    | relay other reader => exact hlink
    | mesh links inflows =>
      dsimp only at hlink ⊢
      cases hf : inflows[place]? with
      | none => rfl
      | some f => exact List.findSome?_eq_none_iff.mp hlink f (List.mem_of_getElem? hf)

/-- A client that cannot greet its relay is closed. -/
theorem closed_of_startFailed {e : TransportError} (hn : w.nodes[i]? = some n)
    (hkind : n.config.kind = .relay) (hm : (w.startFailed i number e).nodes[i]? = some m) :
    m.life.closed = true := by
  rw [startFailed_eq hn, hkind, getElem?_finish_modifyLife hn] at hm
  cases hm
  rfl

/-- A greeting that goes on leaves what comes behind the header of a welcome to be read as
frames. -/
theorem unread_greeting {target : String} {deadline : Nat} {received : Bytes}
    (hn : w.nodes[i]? = some n) (hfits : n.Fits)
    (hcurrent : n.current = some (number, .greeting target connection received deadline))
    (hm : (w.after (.proceed i)).nodes[i]? = some m) (hopen : m.life.closed = false) :
    ((w.after (.proceed i)).incoming connection .dialer).unread =
        (w.incoming connection .dialer).unread.drop (headerSize - received.length) ∧
      (m.life.link = none ∨ m.life.link = some (.relay connection .start)) := by
  have hunlinked := hfits.unlinked _ _ hcurrent rfl
  have hkind : n.config.kind = .relay := (hfits.work _ _ hcurrent).1.symm
  have hread := w.unread_read connection .dialer (headerSize - received.length)
  have hstays : (w.read connection .dialer (headerSize - received.length)).2.nodes[i]? = some n :=
    hn
  have hmove : w.moveCall i n =
      w.moveGreeting i number n target connection received deadline := by
    unfold moveCall
    rw [hcurrent]
  cases hv : w.moveGreeting i number n target connection received deadline with
  | none =>
    have hafter : w.after (.proceed i) = w := by simp [after, onNode, hn, hmove, hv]
    rw [hafter] at hm ⊢
    rw [hn] at hm
    cases hm
    rw [unread_of_greeting_stuck hv, List.drop_nil]
    exact ⟨rfl, .inl hunlinked⟩
  | some v =>
    have hafter : w.after (.proceed i) = v := by simp [after, onNode, hn, hmove, hv]
    rw [hafter] at hm ⊢
    obtain ⟨-, -, rfl⟩ | ⟨-, rfl⟩ | ⟨u, e, -, hnodes, rfl⟩ := moveGreeting_cases hv
    · rw [getElem?_wait hstays] at hm
      cases hm
      exact ⟨hread, .inl hunlinked⟩
    · unfold startDone at hm
      rw [getElem?_finish_modifyLife hstays] at hm
      cases hm
      exact ⟨hread, .inr rfl⟩
    · rw [closed_of_startFailed (hnodes ▸ hn) hkind hm] at hopen
      cases hopen

/-- A member of a mesh reads from a connection that it accepts. -/
theorem inlet_of_dial {a : SocketAddress} (hn : w.nodes[i]? = some n)
    (ha : nodeAddress? n = some a) :
    ∃ m place, (w.after (.dial i)).nodes[i]? = some m ∧
      m.inlet? place = some (w.lastConnection + 1, .acceptor) := by
  have hmesh : ∃ links inflows, n.life.link = some (.mesh links inflows) := by
    unfold nodeAddress? at ha
    split at ha
    · next links inflows _ hlink _ => exact ⟨links, inflows, hlink⟩
    · cases ha
  obtain ⟨links, inflows, hlink⟩ := hmesh
  have hafter : (w.after (.dial i)).nodes[i]? = some (n.join [w.lastConnection + 1]) := by
    have hdial : w.after (.dial i) = w.newStream.2.accept w.newStream.1 (.node i) := by
      simp [after, onNode, hn, ha]
    rw [hdial]
    change (w.newStream.2.modifyNode i fun n => n.join [w.lastConnection + 1]).nodes[i]? = _
    rw [getElem?_modifyNode, if_pos rfl]
    change w.nodes[i]?.map _ = _
    rw [hn]
    rfl
  have hlistens :
      Listens (n.join [w.lastConnection + 1]).life (w.lastConnection + 1) .acceptor := by
    unfold Listens
    rw [Node.link_join, hlink]
    exact ⟨rfl, _, List.mem_append_right _ (List.mem_singleton_self _), rfl,
      by simp [FrameReader.start]⟩
  obtain ⟨place, hplace⟩ := Node.listens_iff.mp hlistens
  exact ⟨_, place, hafter, hplace⟩

/-! ## What a node does with what it hears -/

/-- What a node does with what it has heard, and what it hears next. The world is `w` when a node
has heard what is recorded. -/
structure Dispatches (log : List Sound) (w : World) (i : Nat) (n : Node) : Prop where
  /-- The payloads of the evictions of others are handed on in the order in which the frames have
  come, each once, and nothing else is. -/
  delivered : n.life.traffic.delivered =
    ((framesOf n.codec log).filter fun f =>
      f.header.op = .evict ∧ f.header.sender ≠ n.codec.identity).map Frame.payload
  received : n.life.traffic.received = n.life.traffic.delivered.length
  selfEchoes : n.life.traffic.selfEchoes =
    (framesOf n.codec log).countP fun f => f.header.sender = n.codec.identity
  /-- The frames of a stream are the whole frames at its front, whatever the chunks. There is none
  behind a header that declares too much. -/
  streams : ∀ connection, ∃ raws rest, streamOf connection log = raws.flatten ++ rest ∧
    n.codec.Reads raws (framesOn n.codec connection log) ∧ Exhausted n.codec.limit rest
  /-- The datagrams that are whole frames are frames, each once. -/
  datagrams : n.codec.Reads
    ((log.filterMap Sound.datagram?).filter fun bytes => WholeFrame n.codec.limit bytes)
    (framesCast n.codec log)
  /-- Any other datagram might as well not have come. -/
  skips : ∀ early bytes late, log = early ++ .datagram bytes :: late →
    ¬ WholeFrame n.codec.limit bytes → framesOf n.codec log = framesOf n.codec (early ++ late)
  /-- The stream of a client begins right behind a welcome, which is a header. -/
  welcomed : ∀ connection reader, n.life.link = some (.relay connection reader) →
    (answerOn connection log).length = headerSize ∧
      RelayClient.checkWelcome n.codec (answerOn connection log) = .ok ()
  /-- A greeting takes what is left of the header out of the stream, and nothing else. -/
  greets : ∀ number target connection received deadline,
    n.current = some (number, .greeting target connection received deadline) →
      received = answerOn connection log ∧
        w.heardBy i n (.proceed i) = [.welcome connection
          ((w.incoming connection .dialer).unread.take (headerSize - received.length))] ∧
          ∀ m, (w.after (.proceed i)).nodes[i]? = some m → m.life.closed = false →
            ((w.after (.proceed i)).incoming connection .dialer).unread =
                (w.incoming connection .dialer).unread.drop (headerSize - received.length) ∧
              (m.life.link = none ∨ m.life.link = some (.relay connection .start))
  /-- A link takes in everything that has come. -/
  takes : ∀ place connection side, n.inlet? place = some (connection, side) →
    w.heardBy i n (.takeIn i place) = [.chunk connection (w.incoming connection side).unread] ∧
      ((w.after (.takeIn i place)).incoming connection side).unread = []
  /-- Nothing that has come is left where nothing moves by itself. -/
  rests : w.move = none → ∀ place connection side, n.inlet? place = some (connection, side) →
    (w.incoming connection side).unread = []
  /-- A member of a group takes in every datagram to its port. -/
  hears : ∀ group, n.life.link = some (.multicast group) → n.life.closed = false →
    ∀ bytes, w.heardBy i n (.datagram ⟨group.port, bytes⟩) = [.datagram bytes]
  /-- A member of a mesh reads from every connection that it accepts, on which nothing has come
  yet. -/
  accepts : ∀ a, nodeAddress? n = some a → streamOf (w.lastConnection + 1) log = [] ∧
    ∃ m place, (w.after (.dial i)).nodes[i]? = some m ∧
      m.inlet? place = some (w.lastConnection + 1, .acceptor)
  /-- As long as it is open, it listens to its group and reads from every connection that it has
  read from, but for those that are given up. -/
  listens : ∀ h m, (w.after h).nodes[i]? = some m → m.life.closed = false →
    (∀ group, n.life.link = some (.multicast group) → m.life.link = some (.multicast group)) ∧
      ∀ place connection side, n.inlet? place = some (connection, side) →
        (∃ later, m.inlet? later = some (connection, side)) ∨ w.GivesUp i n log h connection

theorem Lived.dispatches (hl : Lived hs w) (hnumbers : (callNumbers hs).Nodup)
    (ht : w.Tuned i log) (hn : w.nodes[i]? = some n) (hkind : n.config.kind ≠ .broker) :
    Dispatches log w i n where
  delivered := by
    rw [((ht n hn).traffic hkind).delivered]
    refine congrArg _ (List.filter_congr fun f hf => ?_)
    rw [Frame.handed, sentByMe_of_mem hf]
    simp [Bool.and_comm]
  received := ((ht n hn).traffic hkind).received
  selfEchoes := by
    rw [((ht n hn).traffic hkind).selfEchoes]
    exact List.countP_congr fun f hf => by rw [sentByMe_of_mem hf]
  streams connection := framesOn_reads n.codec connection log
  datagrams := framesCast_reads n.codec log
  skips early bytes late hlog hmalformed := by
    rw [hlog]
    exact framesOf_skip hmalformed early late
  welcomed connection reader hlink := by
    obtain ⟨-, -, hlength, hjudge⟩ := (ht n hn).relay connection reader hlink
    unfold RelayClient.judge at hjudge
    rw [if_neg (by omega)] at hjudge
    exact ⟨hlength, Option.some.inj hjudge⟩
  greets number target connection received deadline hcurrent := by
    refine ⟨((ht n hn).greeting _ _ _ _ _ hcurrent).2.1, ?_, fun m hm hopen =>
      unread_greeting hn (hl.nodes i n hn).living.fits hcurrent hm hopen⟩
    simp [heardBy, answering, hcurrent, greeted]
  takes place connection side hplace := by
    refine ⟨?_, unread_takeIn hn hplace⟩
    unfold heardBy
    dsimp only
    rw [if_pos rfl, incomingAt_eq hplace]
  rests hrest place connection side hplace := unread_of_rest hrest hn hplace
  hears group hlink hopen bytes := by
    simp [heardBy, castBy, Node.overhears, Node.hearsPort, hlink, hopen]
  accepts a ha :=
    ⟨streamOf_of_within (ht n hn).within (Nat.lt_succ_self _), inlet_of_dial hn ha⟩
  listens h m hm hopen := by
    obtain ⟨x, hx, -, hattends⟩ := hl.tuned_after hnumbers ht h m hm
    rw [hn] at hx
    cases hx
    refine ⟨hattends.group hopen, fun place connection side hplace => ?_⟩
    exact (hattends.streams hopen connection side (Node.listens_iff.mpr ⟨place, hplace⟩)).imp_left
      Node.listens_iff.mp

/-- Unused nodes have heard nothing yet. -/
theorem Unused.tuned (hw : w.Unused) (i : Nat) : w.Tuned i [] := by
  intro n hn
  obtain ⟨hlife, hcurrent, -⟩ := hw.nodes n (List.mem_of_getElem? hn)
  exact .fresh hlife hcurrent

/-- Whatever happens to unused nodes, calls, failures, chunks and datagrams in any order: every node
but a client of a broker dispatches what it hears. -/
theorem dispatches_run (hw : w.Unused) (hnumbers : (callNumbers hs).Nodup) :
    ∀ i n, (w.run hs).nodes[i]? = some n → n.config.kind ≠ .broker →
      Dispatches (heard i w hs) (w.run hs) i n := by
  intro i n hn hkind
  have hl := hw.lived.run hs hnumbers
  have ht := hw.lived.tuned_run hs hnumbers (hw.tuned i)
  exact hl.dispatches hnumbers ht hn hkind

/-- The same after steps from outside, with everything that happens by itself after each of them. -/
theorem dispatches_steps (hw : w.Unused) (ss : List Net.Step) :
    ∃ hs, hs.filter Happening.isCall = callsOver 0 ss ∧
      ∀ i n, (w.steps 0 ss).nodes[i]? = some n → n.config.kind ≠ .broker →
        Dispatches (heard i w hs) (w.steps 0 ss) i n := by
  obtain ⟨hs, hrun, hcalls, hnumbers⟩ := w.exists_run_steps ss
  refine ⟨hs, hcalls, fun i n hn hkind => ?_⟩
  rw [hrun] at hn ⊢
  exact (hw.lived.run hs hnumbers).dispatches hnumbers
    (hw.lived.tuned_run hs hnumbers (hw.tuned i)) hn hkind

/-- A client of a relay and a member of a group. The relay is outside. -/
def pair : World :=
  .initial true
    [.ofConfig ((TransportConfig.ofKind .relay).withAddress "127.0.0.1:7000")
        ⟨List.replicate 16 11, rfl⟩,
      .ofConfig ((TransportConfig.ofKind .multicast).withAddress "239.1.2.3:4567")
        ⟨List.replicate 16 12, rfl⟩]
    none (some (.ofIpv4 .loopback 7000)) .remote

def evictionOf (sender : UInt8) (payload : Bytes) : Bytes :=
  Header.bytes ⟨List.replicate 16 sender, List.length_replicate⟩ .evict payload.length ++ payload

/-- The relay writes to its first client. -/
def hearing (bytes : Bytes) : Happening :=
  .elsewhere { pair with
    lastConnection := 1
    streams := KeyTable.empty.insert 1 ⟨.empty, { Pipe.empty with unread := bytes }⟩ }

/-- The relay writes its welcome, two frames and a part of a third one at once, and later the rest
of it and a frame that declares too much. Three datagrams come, of which one is no frame. -/
def conversation : List Happening :=
  [.call 0 0 .start, .call 1 1 .start,
    hearing (Header.bytes ⟨List.replicate 16 13, rfl⟩ .welcome 0 ++ evictionOf 12 [7] ++
      evictionOf 11 [8] ++ (evictionOf 14 [9]).take 3),
    .proceed 0, .takeIn 0 0, .datagram ⟨4567, evictionOf 11 [1]⟩, .datagram ⟨4567, [1, 2, 3]⟩,
    hearing ((evictionOf 14 [9]).drop 3 ++
      Header.bytes ⟨List.replicate 16 14, rfl⟩ .evict 0xffffff ++ evictionOf 14 [10]),
    .takeIn 0 0, .datagram ⟨4567, evictionOf 11 [2]⟩]

theorem dispatches_run_conversation :
    pair.Unused ∧ (callNumbers conversation).Nodup ∧
      ∃ n m, (pair.run conversation).nodes = [n, m] ∧
        n.config.kind = .relay ∧ n.life.traffic = ⟨0, 2, 1, [[7], [9]]⟩ ∧
        m.config.kind = .multicast ∧ m.life.traffic = ⟨0, 2, 0, [[1], [2]]⟩ ∧
        Dispatches (heard 0 pair conversation) (pair.run conversation) 0 n ∧
        Dispatches (heard 1 pair conversation) (pair.run conversation) 1 m := by
  have hunused : pair.Unused := ⟨by simp [pair, initial, Node.ofConfig], rfl⟩
  have hnumbers : (callNumbers conversation).Nodup := by decide
  have htraffic : (pair.run conversation).nodes.map (fun n => (n.config.kind, n.life.traffic)) =
      [(.relay, ⟨0, 2, 1, [[7], [9]]⟩), (.multicast, ⟨0, 2, 0, [[1], [2]]⟩)] := by
    decide +kernel
  obtain ⟨n, ns, hnodes, hn, hns⟩ := List.map_eq_cons_iff.mp htraffic
  obtain ⟨m, ms, rfl, hm, hms⟩ := List.map_eq_cons_iff.mp hns
  rw [List.map_eq_nil_iff.mp hms] at hnodes
  obtain ⟨hnkind, hntraffic⟩ := Prod.mk.inj hn
  obtain ⟨hmkind, hmtraffic⟩ := Prod.mk.inj hm
  refine ⟨hunused, hnumbers, n, m, hnodes, hnkind, hntraffic, hmkind, hmtraffic, ?_, ?_⟩
  · exact dispatches_run hunused hnumbers 0 n (by simp [hnodes]) (by simp [hnkind])
  · exact dispatches_run hunused hnumbers 1 m (by simp [hnodes]) (by simp [hmkind])

end EvictionBus.Net.World
