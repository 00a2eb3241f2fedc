import EvictionBus.Net.Background

/-!
# What the nodes see of each other

Whatever is written, dialled or let go of in a world reaches a node in two ways only: a member of a
mesh gets new streams, and the members of a group get datagrams. Everything else about a node stays,
and no call returns.
-/

namespace EvictionBus.Net

/-- A datagram for the members of groups on a port. -/
structure Datagram where
  port : Nat
  bytes : Bytes
  deriving DecidableEq, Repr

namespace Node

/-! ## New streams -/

/-- A member of a mesh reads new streams from their start. -/
def join (n : Node) (connections : List Nat) : Node :=
  { n with life := n.life.modifyLink fun l =>
      l.modifyInflows fun inflows => inflows ++ connections.map fun c => ⟨c, .start⟩ }

variable (n : Node) (connections : List Nat)

@[simp] theorem config_join : (n.join connections).config = n.config := rfl
@[simp] theorem codec_join : (n.join connections).codec = n.codec := rfl
@[simp] theorem current_join : (n.join connections).current = n.current := rfl
@[simp] theorem queue_join : (n.join connections).queue = n.queue := rfl
@[simp] theorem closed_join : (n.join connections).life.closed = n.life.closed := rfl
@[simp] theorem traffic_join : (n.join connections).life.traffic = n.life.traffic := rfl

theorem link_join : (n.join connections).life.link = n.life.link.map fun l =>
    l.modifyInflows fun inflows => inflows ++ connections.map fun c => ⟨c, .start⟩ := rfl

@[simp] theorem join_nil : n.join [] = n := by
  have hid : (fun l : Link => l.modifyInflows fun inflows =>
      inflows ++ ([] : List Nat).map fun c => ⟨c, .start⟩) = id := by
    funext l
    cases l <;> simp [Link.modifyInflows]
  unfold join Lifecycle.modifyLink
  rw [hid, Option.map_id_fun, id_eq]

theorem join_join (later : List Nat) :
    (n.join connections).join later = n.join (connections ++ later) := by
  unfold join Lifecycle.modifyLink
  simp only [Option.map_map, Function.comp_def]
  congr 2
  apply Option.map_congr
  intro l _
  cases l <;> simp [Link.modifyInflows]

/-! ## Datagrams -/

/-- Whether a datagram for a port is taken in. -/
def hearsPort (n : Node) (port : Nat) : Bool :=
  match n.life.link with
  | some (.multicast group) => group.port = port && !n.life.closed
  | _ => false

theorem takeDatagram_eq (port : Nat) (bytes : Bytes) :
    n.takeDatagram port bytes =
      if n.hearsPort port then
        { n with life := n.life.modifyTraffic fun t => Multicast.receive n.codec t bytes }
      else n := by
  cases hlink : n.life.link with
  | none => simp [takeDatagram, hearsPort, hlink]
  | some l => cases l <;> simp [takeDatagram, hearsPort, hlink]

def takeDatagrams (n : Node) (ds : List Datagram) : Node :=
  ds.foldl (fun n d => n.takeDatagram d.port d.bytes) n

variable (ds : List Datagram)

@[simp] theorem takeDatagrams_nil : n.takeDatagrams [] = n := rfl

theorem takeDatagrams_cons (d : Datagram) :
    n.takeDatagrams (d :: ds) = (n.takeDatagram d.port d.bytes).takeDatagrams ds := rfl

/-- Only the traffic of a node changes with datagrams. -/
theorem takeDatagram_traffic (port : Nat) (bytes : Bytes) :
    ∃ t : Traffic, t.sent = n.life.traffic.sent ∧
      n.takeDatagram port bytes = { n with life := { n.life with traffic := t } } := by
  rw [takeDatagram_eq]
  split
  · refine ⟨Multicast.receive n.codec n.life.traffic bytes, ?_, rfl⟩
    unfold Multicast.receive
    cases n.codec.decodeDatagram bytes with
    | error _ => rfl
    | ok f => exact n.life.traffic.sent_receive f
  · exact ⟨n.life.traffic, rfl, rfl⟩

theorem takeDatagrams_traffic : ∃ t : Traffic, t.sent = n.life.traffic.sent ∧
    n.takeDatagrams ds = { n with life := { n.life with traffic := t } } := by
  induction ds generalizing n with
  | nil => exact ⟨n.life.traffic, rfl, rfl⟩
  | cons d ds ih =>
    obtain ⟨t, ht, hn⟩ := n.takeDatagram_traffic d.port d.bytes
    obtain ⟨s, hs, hm⟩ := ih (n.takeDatagram d.port d.bytes)
    refine ⟨s, hs.trans ?_, ?_⟩
    · rw [hn, ← ht]
    · rw [takeDatagrams_cons, hm, hn]

@[simp] theorem config_takeDatagrams : (n.takeDatagrams ds).config = n.config := by
  obtain ⟨t, -, h⟩ := n.takeDatagrams_traffic ds
  rw [h]

@[simp] theorem codec_takeDatagrams : (n.takeDatagrams ds).codec = n.codec := by
  obtain ⟨t, -, h⟩ := n.takeDatagrams_traffic ds
  rw [h]

@[simp] theorem current_takeDatagrams : (n.takeDatagrams ds).current = n.current := by
  obtain ⟨t, -, h⟩ := n.takeDatagrams_traffic ds
  rw [h]

@[simp] theorem queue_takeDatagrams : (n.takeDatagrams ds).queue = n.queue := by
  obtain ⟨t, -, h⟩ := n.takeDatagrams_traffic ds
  rw [h]

@[simp] theorem closed_takeDatagrams : (n.takeDatagrams ds).life.closed = n.life.closed := by
  obtain ⟨t, -, h⟩ := n.takeDatagrams_traffic ds
  rw [h]

@[simp] theorem link_takeDatagrams : (n.takeDatagrams ds).life.link = n.life.link := by
  obtain ⟨t, -, h⟩ := n.takeDatagrams_traffic ds
  rw [h]

@[simp] theorem sent_takeDatagrams :
    (n.takeDatagrams ds).life.traffic.sent = n.life.traffic.sent := by
  obtain ⟨t, ht, h⟩ := n.takeDatagrams_traffic ds
  rw [h]
  exact ht

/-! ## Both -/

/-- A node after datagrams and new streams. -/
def reach (n : Node) (ds : List Datagram) (connections : List Nat) : Node :=
  (n.takeDatagrams ds).join connections

end Node

namespace World

/-- Connections that are new between two counts. -/
def Fresh (before after : Nat) (connections : List Nat) : Prop :=
  connections.Nodup ∧ ∀ c ∈ connections, before < c ∧ c ≤ after

theorem Fresh.nil (before after : Nat) : Fresh before after [] :=
  ⟨List.nodup_nil, fun _ hc => absurd hc List.not_mem_nil⟩

theorem Fresh.append {a b c : Nat} {early late : List Nat} (hab : a ≤ b) (hbc : b ≤ c)
    (hearly : Fresh a b early) (hlate : Fresh b c late) : Fresh a c (early ++ late) := by
  constructor
  · refine List.nodup_append.mpr ⟨hearly.1, hlate.1, ?_⟩
    intro x hx y hy
    have := (hearly.2 x hx).2
    have := (hlate.2 y hy).1
    omega
  · intro x hx
    rcases List.mem_append.mp hx with h | h
    · have := hearly.2 x h
      omega
    · have := hlate.2 x h
      omega

/-- From one world to the next no call returns, and the nodes get nothing but datagrams and new
streams. -/
structure Around (ds : List Datagram) (w v : World) : Prop where
  returned : v.returned = w.returned
  now : v.now = w.now
  lastConnection : w.lastConnection ≤ v.lastConnection
  nodes : ∀ j : Nat, ∃ connections, Fresh w.lastConnection v.lastConnection connections ∧
    v.nodes[j]? = (w.nodes[j]?).map fun n => n.reach ds connections

namespace Around

variable {ds : List Datagram} {w u v : World}

theorem of_nodes_eq (hnodes : v.nodes = w.nodes) (hreturned : v.returned = w.returned)
    (hnow : v.now = w.now) (hlast : w.lastConnection ≤ v.lastConnection) : Around [] w v where
  returned := hreturned
  now := hnow
  lastConnection := hlast
  nodes j := ⟨[], Fresh.nil _ _, by simp [hnodes, Node.reach]⟩

theorem refl (w : World) : Around [] w w :=
  of_nodes_eq rfl rfl rfl (Nat.le_refl _)

theorem trans (h : Around ds w u) (hnext : Around [] u v) : Around ds w v where
  returned := hnext.returned.trans h.returned
  now := hnext.now.trans h.now
  lastConnection := Nat.le_trans h.lastConnection hnext.lastConnection
  nodes j := by
    obtain ⟨early, hearly, hu⟩ := h.nodes j
    obtain ⟨late, hlate, hv⟩ := hnext.nodes j
    refine ⟨early ++ late, hearly.append h.lastConnection hnext.lastConnection hlate, ?_⟩
    rw [hv, hu, Option.map_map]
    apply Option.map_congr
    intro n _
    exact Node.join_join _ early late

theorem exists_node {i : Nat} {n : Node} (h : Around ds w v) (hn : w.nodes[i]? = some n) :
    ∃ connections, Fresh w.lastConnection v.lastConnection connections ∧
      v.nodes[i]? = some (n.reach ds connections) := by
  obtain ⟨connections, hfresh, hv⟩ := h.nodes i
  rw [hn] at hv
  exact ⟨connections, hfresh, hv⟩

end Around

variable (w : World)

/-! ## Streams -/

theorem around_modifyStream (connection : Nat) (f : Stream → Stream) :
    Around [] w (w.modifyStream connection f) :=
  .of_nodes_eq rfl rfl rfl (Nat.le_refl _)

theorem around_abandon (connection : Nat) (side : Side) : Around [] w (w.abandon connection side) :=
  w.around_modifyStream connection _

theorem around_read (connection : Nat) (side : Side) (n : Nat) :
    Around [] w (w.read connection side n).2 :=
  w.around_modifyStream connection _

variable {w}

/-- A write changes one pipe of one connection. -/
theorem exists_pipe_of_write {v : World} {connection : Nat} {side : Side} {bytes rest : Bytes}
    (h : w.write connection side bytes = .ok (rest, v)) :
    ∃ p, (((w.streams.get? connection).getD .empty).pipe side).write bytes = .ok (rest, p) ∧
      v = w.modifyStream connection fun s => s.setPipe p side := by
  unfold write at h
  dsimp only at h
  cases hp : (((w.streams.get? connection).getD .empty).pipe side).write bytes with
  | error e =>
    rw [hp] at h
    cases h
  | ok r =>
    rw [hp] at h
    cases h
    exact ⟨_, rfl, rfl⟩

theorem around_of_write {v : World} {connection : Nat} {side : Side} {bytes rest : Bytes}
    (h : w.write connection side bytes = .ok (rest, v)) : Around [] w v := by
  obtain ⟨p, -, rfl⟩ := exists_pipe_of_write h
  exact w.around_modifyStream connection _

/-- A side writes a first part of the bytes. -/
theorem exists_drop_of_write {v : World} {connection : Nat} {side : Side} {bytes rest : Bytes}
    (h : w.write connection side bytes = .ok (rest, v)) :
    (∃ k, rest = bytes.drop k) ∧ v.lastConnection = w.lastConnection := by
  obtain ⟨p, hp, rfl⟩ := exists_pipe_of_write h
  refine ⟨?_, rfl⟩
  unfold Pipe.write at hp
  split at hp
  · split at hp
    · cases hp
    · cases hp
      exact ⟨bytes.length, List.drop_length.symm⟩
  · cases hp
    exact ⟨_, rfl⟩

theorem around_foldl_abandon {α : Type} (side : Side) (connection : α → Nat) (xs : List α)
    (w : World) : Around [] w (xs.foldl (fun w x => w.abandon (connection x) side) w) := by
  induction xs generalizing w with
  | nil => exact .refl w
  | cons x xs ih => exact (w.around_abandon (connection x) side).trans (ih _)

theorem around_abandonUnless (w : World) (kept connections : List Nat) :
    Around [] w (w.abandonUnless kept connections) :=
  around_foldl_abandon .dialer id _ w

/-! ## Connections -/

theorem getElem?_modifyNode (w : World) (i : Nat) (f : Node → Node) (j : Nat) :
    (w.modifyNode i f).nodes[j]? = if i = j then (w.nodes[j]?).map f else w.nodes[j]? := by
  unfold modifyNode
  rw [List.getElem?_modify]
  split <;> simp

theorem getElem?_modifyLife {w : World} {i : Nat} {n : Node} (hn : w.nodes[i]? = some n)
    (f : Lifecycle Link → Lifecycle Link) :
    (w.modifyLife i f).nodes[i]? = some { n with life := f n.life } := by
  unfold modifyLife
  rw [getElem?_modifyNode, if_pos rfl, hn]
  rfl

theorem getElem?_finish {w : World} {i : Nat} {n : Node} (hn : w.nodes[i]? = some n) (call : Nat)
    (r : Except TransportError Unit) :
    (w.finish i call r).nodes[i]? = some { n with current := none } := by
  unfold finish
  dsimp only
  rw [getElem?_modifyNode, if_pos rfl, hn]
  rfl

theorem getElem?_wait {w : World} {i : Nat} {n : Node} (hn : w.nodes[i]? = some n) (call : Nat)
    (work : Work) :
    (w.wait i call work).nodes[i]? = some { n with current := some (call, work) } := by
  unfold wait
  rw [getElem?_modifyNode, if_pos rfl, hn]
  rfl

/-- A node at the end of a call. -/
theorem getElem?_finish_modifyLife {w : World} {i : Nat} {n : Node} (hn : w.nodes[i]? = some n)
    (f : Lifecycle Link → Lifecycle Link) (call : Nat) (r : Except TransportError Unit) :
    ((w.modifyLife i f).finish i call r).nodes[i]? =
      some { n with life := f n.life, current := none } :=
  getElem?_finish (getElem?_modifyLife hn f) call r

theorem lastConnection_accept (w : World) (connection : Nat) (listener : Listener) :
    (w.accept connection listener).lastConnection = w.lastConnection := by
  cases listener with
  | relay =>
    unfold accept
    cases w.relay <;> rfl
  | outside => rfl
  | node i => rfl

theorem around_accept (w : World) (listener : Listener) :
    Around [] w (w.newStream.2.accept w.newStream.1 listener) := by
  have hnew : Around [] w w.newStream.2 := .of_nodes_eq rfl rfl rfl (Nat.le_succ _)
  cases listener with
  | relay =>
    refine hnew.trans ?_
    unfold accept
    cases w.newStream.2.relay with
    | none => exact .refl _
    | some r => exact .of_nodes_eq rfl rfl rfl (Nat.le_refl _)
  | outside => exact hnew.trans (.of_nodes_eq rfl rfl rfl (Nat.le_refl _))
  | node i =>
    refine ⟨rfl, rfl, Nat.le_succ _, fun j => ?_⟩
    change ∃ connections, _ ∧
      (w.newStream.2.modifyNode i fun n => n.join [w.lastConnection + 1]).nodes[j]? = _
    rw [getElem?_modifyNode]
    by_cases hij : i = j
    · refine ⟨[w.lastConnection + 1], ⟨by simp, ?_⟩, by rw [if_pos hij]; rfl⟩
      intro c hc
      rw [List.mem_singleton.mp hc]
      exact ⟨Nat.lt_succ_self _, Nat.le_refl _⟩
    · refine ⟨[], Fresh.nil _ _, ?_⟩
      rw [if_neg hij]
      simp [Node.reach, newStream]

/-- A connection that is made is a new one, and somebody listens for it. -/
theorem exists_listener_of_connect {v : World} {target : String} {connection : Nat}
    (h : w.connect target = .ok (connection, v)) : ∃ a listener,
      w.listenerAt? a = some listener ∧ connection = w.newStream.1 ∧
        v = w.newStream.2.accept w.newStream.1 listener := by
  unfold connect at h
  cases ha : resolve target with
  | error e => simp [ha, Bind.bind, Except.bind] at h
  | ok a =>
    cases ho : dialObstacle? w.up a with
    | some e => simp [ha, ho, Bind.bind, Except.bind, throw, throwThe, MonadExceptOf.throw] at h
    | none =>
      cases hl : w.listenerAt? a with
      | none => simp [ha, ho, hl, Bind.bind, Except.bind, throw, throwThe, MonadExceptOf.throw] at h
      | some listener =>
        simp only [ha, ho, hl, Bind.bind, Except.bind, pure, Except.pure, Except.ok.injEq,
          Prod.mk.injEq] at h
        exact ⟨a, listener, hl, h.1.symm, h.2.symm⟩

theorem around_of_connect {v : World} {target : String} {connection : Nat}
    (h : w.connect target = .ok (connection, v)) :
    Around [] w v ∧ w.lastConnection < connection ∧ connection ≤ v.lastConnection := by
  obtain ⟨a, listener, -, rfl, rfl⟩ := exists_listener_of_connect h
  refine ⟨w.around_accept listener, Nat.lt_succ_self _, ?_⟩
  rw [lastConnection_accept]
  exact Nat.le_refl _

/-! ## Writing to the members of a mesh -/

theorem around_writePeer (w : World) (n : Node) (frame : Bytes) (connection : Nat) :
    Around [] w (w.writePeer n frame connection).1 := by
  unfold writePeer
  cases hw : w.write connection .dialer frame with
  | error e => exact w.around_abandon connection .dialer
  | ok r =>
    obtain ⟨rest, v⟩ := r
    cases rest with
    | nil => exact around_of_write hw
    | cons b rest => exact around_of_write hw

theorem around_linkPeer (w : World) (n : Node) (frame : Bytes) (target : String) :
    Around [] w (w.linkPeer n frame target).1 := by
  unfold linkPeer
  cases hc : w.connect target with
  | error e => exact .refl w
  | ok r =>
    obtain ⟨connection, u⟩ := r
    exact (around_of_connect hc).1.trans (u.around_writePeer n frame connection)

theorem around_startPeerWrite (w : World) (n : Node) (frame : Bytes) (target : String)
    (kept : Option Nat) : Around [] w (w.startPeerWrite n frame target kept).1 := by
  unfold startPeerWrite
  cases kept with
  | some connection => exact w.around_writePeer n frame connection
  | none =>
    dsimp only
    split
    · exact .refl w
    · exact w.around_linkPeer n frame target

theorem around_startPeerWrites (w : World) (n : Node) (frame : Bytes)
    (plan : List (String × Option Nat)) : Around [] w (w.startPeerWrites n frame plan).1 := by
  induction plan generalizing w with
  | nil => exact .refl w
  | cons entry plan ih =>
    obtain ⟨target, kept⟩ := entry
    exact (w.around_startPeerWrite n frame target kept).trans (ih _)

theorem around_stopPeerWrites (w : World) (writes : List (String × PeerWrite)) :
    Around [] w (w.stopPeerWrites writes).1 := by
  induction writes with
  | nil => exact .refl w
  | cons entry rest ih =>
    obtain ⟨target, write⟩ := entry
    cases write with
    | done outcome => exact ih
    | dialing _ _ => exact ih
    | writing connection _ _ => exact ih.trans (around_abandon _ connection .dialer)

/-- A dial that goes on is answered in time, or given up when its time is over. -/
theorem movePeerWrite_dialing {v : World} {n : Node} {target : String} {frame : Bytes}
    {deadline : Nat} {after : PeerWrite}
    (h : w.movePeerWrite n target (.dialing frame deadline) = some (v, after)) :
    (w.now ≤ deadline ∧ w.linkPeer n frame target = (v, after)) ∨
      (v = w ∧ after = .done (.broken (MeshLinks.connectTimedOut target))) := by
  unfold movePeerWrite at h
  dsimp only at h
  split at h
  · next hanswers => exact .inl ⟨hanswers.2, Option.some.inj h⟩
  · split at h
    · cases h
      exact .inr ⟨rfl, rfl⟩
    · cases h

/-- A write that goes on fails, comes to its end, gets some bytes further, or has stalled. -/
theorem movePeerWrite_writing {v : World} {n : Node} {target : String} {connection deadline : Nat}
    {rest : Bytes} {after : PeerWrite}
    (h : w.movePeerWrite n target (.writing connection rest deadline) = some (v, after)) :
    (∃ e, v = w.abandon connection .dialer ∧ after = .done (.broken (.writeFailed e))) ∨
    (w.write connection .dialer rest = .ok ([], v) ∧ after = .done (.written connection)) ∨
    (∃ left, w.write connection .dialer rest = .ok (left, v) ∧ left ≠ [] ∧
      left.length < rest.length ∧ after = .writing connection left deadline) ∨
    (v = w.abandon connection .dialer ∧
      after = .done (.broken (.writeStalled n.config.sendTimeout))) := by
  unfold movePeerWrite at h
  dsimp only at h
  cases hw : w.write connection .dialer rest with
  | error e =>
    rw [hw] at h
    cases h
    exact .inl ⟨e, rfl, rfl⟩
  | ok r =>
    obtain ⟨left, u⟩ := r
    rw [hw] at h
    cases left with
    | nil =>
      cases h
      exact .inr (.inl ⟨rfl, rfl⟩)
    | cons b left =>
      dsimp only at h
      split at h
      · next hless =>
        cases h
        exact .inr (.inr (.inl ⟨b :: left, rfl, List.cons_ne_nil _ _, hless, rfl⟩))
      · split at h
        · cases h
          exact .inr (.inr (.inr ⟨rfl, rfl⟩))
        · cases h

theorem around_of_movePeerWrite {v : World} {n : Node} {target : String} {write after : PeerWrite}
    (h : w.movePeerWrite n target write = some (v, after)) : Around [] w v := by
  cases write with
  | done outcome => cases h
  | dialing frame deadline =>
    obtain ⟨-, hlinked⟩ | ⟨rfl, -⟩ := movePeerWrite_dialing h
    · have haround := w.around_linkPeer n frame target
      rwa [hlinked] at haround
    · exact .refl v
  | writing connection rest deadline =>
    obtain ⟨e, rfl, -⟩ | ⟨hw, -⟩ | ⟨left, hw, -⟩ | ⟨rfl, -⟩ := movePeerWrite_writing h
    · exact w.around_abandon connection .dialer
    · exact around_of_write hw
    · exact around_of_write hw
    · exact w.around_abandon connection .dialer

/-- One write goes on, and the others stay as they are. -/
theorem exists_of_movePeerWrites {v : World} {n : Node} {writes after : List (String × PeerWrite)}
    (h : w.movePeerWrites n writes = some (v, after)) :
    ∃ early target write write' late, writes = early ++ (target, write) :: late ∧
      w.movePeerWrite n target write = some (v, write') ∧
      after = early ++ (target, write') :: late := by
  induction writes generalizing after with
  | nil => cases h
  | cons entry rest ih =>
    obtain ⟨target, write⟩ := entry
    unfold movePeerWrites at h
    cases hm : w.movePeerWrite n target write with
    | some r =>
      rw [hm] at h
      cases h
      exact ⟨[], target, write, r.2, rest, rfl, hm, rfl⟩
    | none =>
      rw [hm] at h
      obtain ⟨r, hr, heq⟩ := Option.map_eq_some_iff.mp h
      cases heq
      obtain ⟨early, target', write', after', late, hwrites, hmove, hafter⟩ := ih hr
      refine ⟨(target, write) :: early, target', write', after', late, ?_, hmove, ?_⟩
      · rw [hwrites]
        rfl
      · rw [hafter]
        rfl

theorem around_of_movePeerWrites {v : World} {n : Node} {writes after : List (String × PeerWrite)}
    (h : w.movePeerWrites n writes = some (v, after)) : Around [] w v := by
  obtain ⟨_, _, _, _, _, -, hmove, -⟩ := exists_of_movePeerWrites h
  exact around_of_movePeerWrite hmove

/-! ## Letting go of a link -/

theorem around_release (w : World) (link : Link) : Around [] w (w.release link) := by
  cases link with
  | multicast group => exact .refl w
  | mesh links inflows =>
    exact (w.around_abandonUnless [] _).trans
      (around_foldl_abandon .acceptor Inflow.connection inflows _)
  | relay connection reader => exact w.around_abandon connection .dialer
  | broker link => exact .of_nodes_eq rfl rfl rfl (Nat.le_refl _)

/-! ## Datagrams -/

theorem around_castDatagram (w : World) (d : Datagram) :
    Around [d] w (w.castDatagram d.port d.bytes) where
  returned := rfl
  now := rfl
  lastConnection := Nat.le_refl _
  nodes j := by
    refine ⟨[], Fresh.nil _ _, ?_⟩
    unfold castDatagram
    rw [List.getElem?_map]
    simp [Node.reach, Node.takeDatagrams]

end World

end EvictionBus.Net
