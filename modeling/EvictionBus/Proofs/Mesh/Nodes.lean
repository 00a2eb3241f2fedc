import EvictionBus.Proofs.Mesh.Linked
import EvictionBus.Proofs.Net.Turns

/-!
# Nodes as members of a mesh

A node of a world sends to a mesh as a member does. What the streams and the listeners of the
machine do about the write to a peer are events that can happen to it.
-/

namespace EvictionBus.Mesh

open Net

/-! ## Writes of a node -/

def Stage.ofWrite : PeerWrite → Stage
  | .done outcome => .done outcome
  | .dialing _ _ => .dialing
  | .writing connection rest _ => .writing connection rest

def stages (writes : List (String × PeerWrite)) : List (String × Stage) :=
  writes.map fun write => (write.1, .ofWrite write.2)

/-- A write that is still to get a connection has the whole frame to write. -/
def Carries (frame : Bytes) : PeerWrite → Prop
  | .dialing whole _ => whole = frame
  | _ => True

/-- The state in which the connections and the writes of its round have come further. -/
def State.further (s : State) (r : Round) (wires : KeyTable Wire)
    (writes : List (String × Stage)) : State :=
  { s with
    wires := wires
    round := some { r with writes := writes } }

/-- Events can take the round of a state to certain writes, and use no number of a connection that
is new in the world afterwards. -/
def Leads (m : Member) (s : State) (r : Round) (writes : List (String × Stage)) (v : World) :
    Prop :=
  ∃ es wires, s.run m es = some (s.further r wires writes) ∧
    ∀ c, v.lastConnection < c → wires.get? c = none

variable {m : Member} {s : State} {r : Round} {w v : World} {n : Node}
  {before after : List (String × Stage)} {target : String} {stage stage' : Stage}

theorem leads_refl (hround : s.round = some r)
    (hnew : ∀ c, v.lastConnection < c → s.wires.get? c = none) : Leads m s r r.writes v := by
  refine ⟨[], s.wires, ?_, hnew⟩
  rw [State.further, ← hround]
  rfl

theorem leads_of_next (hround : s.round = some r)
    (hwrites : r.writes = before ++ (target, stage) :: after) {e : PeerEvent}
    {wires : KeyTable Wire}
    (hnext : stage.next m s.closing target r.frame s.wires e = some (wires, stage'))
    (hnew : ∀ c, v.lastConnection < c → wires.get? c = none) :
    Leads m s r (before ++ (target, stage') :: after) v := by
  refine ⟨[.peer before.length e], wires, ?_, hnew⟩
  rw [State.run, State.step_peer hround hwrites hnext]
  rfl

theorem Leads.trans {u : World} {writes writes' : List (String × Stage)}
    (h : Leads m s r writes u)
    (hnext : ∀ wires, (∀ c, u.lastConnection < c → wires.get? c = none) →
      Leads m (s.further r wires writes) { r with writes := writes } writes' v) :
    Leads m s r writes' v := by
  obtain ⟨es, wires, hrun, hnew⟩ := h
  obtain ⟨es', wires', hrun', hnew'⟩ := hnext wires hnew
  refine ⟨es ++ es', wires', ?_, hnew'⟩
  rw [State.run_append, hrun]
  exact hrun'

/-! ## One write -/

/-- A stream takes a part of what is to be written. -/
theorem leads_of_write (hround : s.round = some r) {c : Nat} {rest left : Bytes}
    (hwrites : r.writes = before ++ (target, .writing c rest) :: after)
    (hnew : ∀ c, w.lastConnection < c → s.wires.get? c = none)
    (hwrite : w.write c .dialer rest = .ok (left, v)) :
    Leads m s r (before ++ (target, .onward c left) :: after) v := by
  obtain ⟨⟨k, rfl⟩, hlast⟩ := World.exists_drop_of_write hwrite
  apply leads_of_next (e := .took k) hround hwrites rfl
  intro d hd
  rw [hlast] at hd
  rw [KeyTable.get?_modify, hnew d hd]
  split <;> rfl

theorem leads_writePeer (hround : s.round = some r) (n : Node) {c : Nat}
    (hwrites : r.writes = before ++ (target, .writing c r.frame) :: after)
    (hnew : ∀ c, w.lastConnection < c → s.wires.get? c = none) :
    Leads m s r (before ++ (target, .ofWrite (w.writePeer n r.frame c).2) :: after)
      (w.writePeer n r.frame c).1 := by
  unfold World.writePeer
  cases hwrite : w.write c .dialer r.frame with
  | error e => exact leads_of_next (e := .failed e) hround hwrites rfl hnew
  | ok x =>
    obtain ⟨left, u⟩ := x
    have hleads := leads_of_write (m := m) hround hwrites hnew hwrite
    cases left with
    | nil => exact hleads
    | cons b left => exact hleads

/-- A dial is refused, or makes a connection that gets the frame. -/
theorem leads_linkPeer (hround : s.round = some r) (n : Node)
    (hwrites : r.writes = before ++ (target, .dialing) :: after)
    (hnew : ∀ c, w.lastConnection < c → s.wires.get? c = none) :
    Leads m s r (before ++ (target, .ofWrite (w.linkPeer n r.frame target).2) :: after)
      (w.linkPeer n r.frame target).1 := by
  unfold World.linkPeer
  cases hconnect : w.connect target with
  | error e => exact leads_of_next (e := .refused e) hround hwrites rfl hnew
  | ok x =>
    obtain ⟨c, u⟩ := x
    obtain ⟨-, hbefore, hupto⟩ := World.around_of_connect hconnect
    -- The connection is new, and the last one so far.
    have hconnected : Leads m s r (before ++ (target, .writing c r.frame) :: after) u := by
      have hfree : ¬ s.wires.contains c = true := by
        rw [KeyTable.contains, hnew c hbefore]
        exact Bool.false_ne_true
      have hnext : Stage.next m s.closing target r.frame s.wires .dialing (.connected c) =
          some (s.wires.insert c ⟨target, []⟩, .writing c r.frame) := by
        simp only [Stage.next, if_neg hfree]
      apply leads_of_next hround hwrites hnext
      intro d hd
      have hne : d ≠ c := by omega
      rw [KeyTable.get?_insert, if_neg hne]
      exact hnew d (by omega)
    apply hconnected.trans
    intro wires hnew'
    exact leads_writePeer rfl n rfl hnew'

theorem leads_startPeerWrite (hround : s.round = some r) (n : Node) (kept : Option Nat)
    (hwrites : r.writes = before ++ (target, .start r.frame kept) :: after)
    (hnew : ∀ c, w.lastConnection < c → s.wires.get? c = none) :
    Leads m s r (before ++ (target, .ofWrite (w.startPeerWrite n r.frame target kept).2) :: after)
      (w.startPeerWrite n r.frame target kept).1 := by
  unfold World.startPeerWrite
  cases kept with
  | some c => exact leads_writePeer hround n hwrites hnew
  | none =>
    dsimp only
    split
    · have h := leads_refl (m := m) hround hnew
      rw [hwrites] at h
      exact h
    · exact leads_linkPeer hround n hwrites hnew

/-! ## All writes of a round -/

theorem leads_startPeerWrites (n : Node) (plan : List (String × Option Nat))
    (hround : s.round = some r)
    (hwrites : r.writes = before ++ plan.map fun p => (p.1, Stage.start r.frame p.2))
    (hnew : ∀ c, w.lastConnection < c → s.wires.get? c = none) :
    Leads m s r (before ++ stages (w.startPeerWrites n r.frame plan).2)
      (w.startPeerWrites n r.frame plan).1 := by
  induction plan generalizing w s r before with
  | nil =>
    rw [List.map_nil, List.append_nil] at hwrites
    have h := leads_refl (m := m) hround hnew
    rw [hwrites] at h
    rw [show stages (w.startPeerWrites n r.frame []).2 = [] from rfl, List.append_nil]
    exact h
  | cons entry plan ih =>
    obtain ⟨target, kept⟩ := entry
    let u := w.startPeerWrite n r.frame target kept
    let started := before ++
      (target, .ofWrite u.2) :: plan.map fun p => (p.1, Stage.start r.frame p.2)
    have hfirst : Leads m s r started u.1 := leads_startPeerWrite hround n kept hwrites hnew
    apply hfirst.trans
    intro wires hnew'
    have hrest : Leads m (s.further r wires started) { r with writes := started }
        ((before ++ [(target, .ofWrite u.2)]) ++ stages (u.1.startPeerWrites n r.frame plan).2)
        (u.1.startPeerWrites n r.frame plan).1 :=
      ih rfl (by rw [List.append_assoc]; rfl) hnew'
    rw [List.append_assoc] at hrest
    exact hrest

theorem leads_movePeerWrite (hround : s.round = some r) {write write' : PeerWrite}
    (hwrites : r.writes = before ++ (target, .ofWrite write) :: after)
    (hcarries : Carries r.frame write)
    (hnew : ∀ c, w.lastConnection < c → s.wires.get? c = none)
    (hn : n.config.sendTimeout = m.sendTimeout)
    (hmove : w.movePeerWrite n target write = some (v, write')) :
    Leads m s r (before ++ (target, .ofWrite write') :: after) v := by
  cases write with
  | done outcome => cases hmove
  | dialing frame deadline =>
    obtain ⟨-, hlinked⟩ | ⟨rfl, rfl⟩ := World.movePeerWrite_dialing hmove
    · have hframe : frame = r.frame := hcarries
      subst hframe
      have h := leads_linkPeer (m := m) (w := w) hround n hwrites hnew
      rwa [hlinked] at h
    · exact leads_of_next (e := .dialTimedOut) hround hwrites rfl hnew
  | writing c rest deadline =>
    obtain ⟨e, rfl, rfl⟩ | ⟨hwrite, rfl⟩ | ⟨left, hwrite, hleft, -, rfl⟩ | ⟨rfl, rfl⟩ :=
      World.movePeerWrite_writing hmove
    · exact leads_of_next (e := .failed e) hround hwrites rfl hnew
    · exact leads_of_write hround hwrites hnew hwrite
    · have hleads := leads_of_write (m := m) hround hwrites hnew hwrite
      rwa [Stage.onward, if_neg hleft] at hleads
    · rw [hn]
      exact leads_of_next (e := .stalled) hround hwrites rfl hnew

theorem leads_movePeerWrites {writes writes' : List (String × PeerWrite)}
    (hround : s.round = some r) (hwrites : r.writes = before ++ stages writes)
    (hcarries : ∀ entry ∈ writes, Carries r.frame entry.2)
    (hnew : ∀ c, w.lastConnection < c → s.wires.get? c = none)
    (hn : n.config.sendTimeout = m.sendTimeout)
    (hmove : w.movePeerWrites n writes = some (v, writes')) :
    Leads m s r (before ++ stages writes') v := by
  obtain ⟨early, target, write, write', late, rfl, hone, rfl⟩ :=
    World.exists_of_movePeerWrites hmove
  have hstages : ∀ entry, before ++ stages (early ++ (target, entry) :: late) =
      (before ++ stages early) ++ (target, .ofWrite entry) :: stages late := by
    intro entry
    rw [stages, List.map_append, List.append_assoc]
    rfl
  rw [hstages] at hwrites ⊢
  exact leads_movePeerWrite hround hwrites
    (hcarries (target, write) (List.mem_append_right _ List.mem_cons_self)) hnew hn hone

theorem leads_stopPeerWrites (w : World) {writes : List (String × PeerWrite)}
    (hround : s.round = some r) (hwrites : r.writes = before ++ stages writes)
    (hnew : ∀ c, v.lastConnection < c → s.wires.get? c = none) (hclosing : s.closing = true) :
    Leads m s r (before ++ stages (w.stopPeerWrites writes).2) v := by
  induction writes generalizing s r before with
  | nil =>
    have h := leads_refl (m := m) hround hnew
    rw [hwrites] at h
    exact h
  | cons entry rest ih =>
    obtain ⟨target, write⟩ := entry
    -- A write that has not come to an end notices the closing first.
    have hstopped : Stage.next m s.closing target r.frame s.wires (.ofWrite write) .stopped =
          some (s.wires, .done .stopped) →
        Leads m s r (before ++ (target, .done .stopped) :: stages (w.stopPeerWrites rest).2) v := by
      intro hnext
      let stopped := before ++ (target, .done .stopped) :: stages rest
      have hfirst : Leads m s r stopped v := leads_of_next hround hwrites hnext hnew
      apply hfirst.trans
      intro wires hnew'
      have h : Leads m (s.further r wires stopped) { r with writes := stopped }
          ((before ++ [(target, .done .stopped)]) ++ stages (w.stopPeerWrites rest).2) v :=
        ih rfl (by rw [List.append_assoc]; rfl) hnew' hclosing
      rw [List.append_assoc] at h
      exact h
    cases write with
    | done outcome =>
      have h : Leads m s r ((before ++ [(target, .done outcome)]) ++
          stages (w.stopPeerWrites rest).2) v :=
        ih hround (by rw [hwrites, List.append_assoc]; rfl) hnew hclosing
      rw [List.append_assoc] at h
      exact h
    | dialing frame deadline =>
      exact hstopped (by simp only [Stage.ofWrite, Stage.next, if_pos hclosing])
    | writing c left deadline =>
      exact hstopped (by simp only [Stage.ofWrite, Stage.next, if_pos hclosing])

/-! ## Frames of writes -/

theorem carries_writePeer (w : World) (n : Node) (frame frame' : Bytes) (c : Nat) :
    Carries frame (w.writePeer n frame' c).2 := by
  unfold World.writePeer
  cases w.write c .dialer frame' with
  | error e => trivial
  | ok x =>
    obtain ⟨rest, v⟩ := x
    cases rest <;> trivial

theorem carries_linkPeer (w : World) (n : Node) (frame frame' : Bytes) (target : String) :
    Carries frame (w.linkPeer n frame' target).2 := by
  unfold World.linkPeer
  cases w.connect target with
  | error e => trivial
  | ok x => exact carries_writePeer x.2 n frame frame' x.1

theorem carries_startPeerWrites (w : World) (n : Node) (frame : Bytes)
    (plan : List (String × Option Nat)) :
    ∀ entry ∈ (w.startPeerWrites n frame plan).2, Carries frame entry.2 := by
  induction plan generalizing w with
  | nil => exact List.forall_mem_nil _
  | cons entry plan ih =>
    obtain ⟨target, kept⟩ := entry
    refine List.forall_mem_cons.mpr ⟨?_, ih _⟩
    cases kept with
    | some c => exact carries_writePeer w n frame frame c
    | none =>
      dsimp only
      split
      · rfl
      · exact carries_linkPeer w n frame frame target

/-- A write that goes on has its connection. -/
theorem carries_of_movePeerWrite {frame : Bytes} {write write' : PeerWrite}
    (hmove : w.movePeerWrite n target write = some (v, write')) : Carries frame write' := by
  cases write with
  | done outcome => cases hmove
  | dialing whole deadline =>
    obtain ⟨-, hlinked⟩ | ⟨-, rfl⟩ := World.movePeerWrite_dialing hmove
    · have h := carries_linkPeer w n frame whole target
      rwa [hlinked] at h
    · trivial
  | writing c rest deadline =>
    obtain ⟨e, -, rfl⟩ | ⟨-, rfl⟩ | ⟨left, -, -, -, rfl⟩ | ⟨-, rfl⟩ :=
      World.movePeerWrite_writing hmove
    all_goals trivial

theorem carries_of_movePeerWrites {frame : Bytes} {writes writes' : List (String × PeerWrite)}
    (hcarries : ∀ entry ∈ writes, Carries frame entry.2)
    (hmove : w.movePeerWrites n writes = some (v, writes')) :
    ∀ entry ∈ writes', Carries frame entry.2 := by
  obtain ⟨early, target, write, write', late, rfl, hone, rfl⟩ :=
    World.exists_of_movePeerWrites hmove
  obtain ⟨hearly, hlate⟩ := List.forall_mem_append.mp hcarries
  exact List.forall_mem_append.mpr ⟨hearly, List.forall_mem_cons.mpr
    ⟨carries_of_movePeerWrite hone, (List.forall_mem_cons.mp hlate).2⟩⟩

theorem carries_stopPeerWrites (w : World) (frame : Bytes) (writes : List (String × PeerWrite)) :
    ∀ entry ∈ (w.stopPeerWrites writes).2, Carries frame entry.2 := by
  induction writes with
  | nil => exact List.forall_mem_nil _
  | cons entry rest ih =>
    obtain ⟨target, write⟩ := entry
    cases write <;> exact List.forall_mem_cons.mpr ⟨trivial, ih⟩

/-! ## Nodes -/

/-- A node that has been started has the settings of a member and its life. -/
structure Plays (m : Member) (s : State) (n : Node) : Prop where
  codec : n.codec = m.codec
  timeout : n.config.sendTimeout = m.sendTimeout
  kind : n.config.kind = .reliableMulticast
  closed : n.life.closed = s.life.closed
  sent : n.life.traffic.sent = s.life.traffic.sent
  linked : ∀ links, s.life.link = some links → ∃ inflows, n.life.link = some (.mesh links inflows)
  unlinked : s.life.link = none → n.life.link = none

inductive Waits (s : State) (n : Node) : Prop
  | free (hcurrent : n.current = none) (hround : s.round = none)
  | spreading (call : Nat) (writes : List (String × PeerWrite)) (r : Round)
      (hcurrent : n.current = some (call, .spreading writes)) (hround : s.round = some r)
      (hwrites : r.writes = stages writes) (hcarries : ∀ entry ∈ writes, Carries r.frame entry.2)

structure Acts (m : Member) (w : World) (i : Nat) (s : State) : Prop where
  node : ∃ n, w.nodes[i]? = some n ∧ Plays m s n ∧ Waits s n
  new : ∀ c, w.lastConnection < c → s.wires.get? c = none

variable {peers : List Address} {i call : Nat}

theorem Waits.round_eq_none (h : Waits s n) (hcurrent : n.current = none) : s.round = none := by
  cases h with
  | free _ hround => exact hround
  | spreading _ _ _ hspreading _ _ _ =>
    rw [hcurrent] at hspreading
    cases hspreading

theorem Plays.congr (h : Plays m s n) {s' : State} {n' : Node} (hlife : s'.life = s.life)
    (hcodec : n'.codec = n.codec) (hconfig : n'.config = n.config) (hlife' : n'.life = n.life) :
    Plays m s' n' := by
  obtain ⟨codec, timeout, kind, closed, sent, linked, unlinked⟩ := h
  rw [← hcodec] at codec
  rw [← hconfig] at timeout kind
  rw [← hlife, ← hlife'] at closed sent
  rw [← hlife, ← hlife'] at linked unlinked
  exact ⟨codec, timeout, kind, closed, sent, linked, unlinked⟩

theorem Plays.reach (h : Plays m s n) (connections : List Nat) :
    Plays m s (n.reach [] connections) where
  codec := h.codec
  timeout := h.timeout
  kind := h.kind
  closed := h.closed
  sent := h.sent
  linked links hlinks := by
    obtain ⟨inflows, hlink⟩ := h.linked links hlinks
    rw [Node.reach, Node.takeDatagrams_nil, Node.link_join, hlink]
    exact ⟨_, rfl⟩
  unlinked hnone := by
    rw [Node.reach, Node.takeDatagrams_nil, Node.link_join, h.unlinked hnone]
    rfl

theorem outcomes?_stages (writes : List (String × PeerWrite)) :
    outcomes? (stages writes) = World.outcomes? writes := by
  induction writes with
  | nil => rfl
  | cons entry rest ih =>
    obtain ⟨target, write⟩ := entry
    cases write with
    | done outcome =>
      rw [World.outcomes?, ← ih]
      rfl
    | dialing frame deadline => rfl
    | writing c left deadline => rfl

theorem Plays.settled (h : Plays m s n) {links : MeshLinks} (hlink : s.life.link = some links)
    (r : Round) (outcomes : List (String × MeshLinks.Outcome)) :
    Plays m (s.settled r links outcomes) { n with
      life := State.accounted (n.life.modifyLink fun l => l.withLinks (links.sent outcomes).1)
        (links.sent outcomes).2
      current := none } where
  codec := h.codec
  timeout := h.timeout
  kind := h.kind
  closed := by
    rw [State.settled, closed_accounted, closed_accounted]
    exact h.closed
  sent := by
    rw [State.settled]
    cases (links.sent outcomes).2 with
    | ok u => exact congrArg (· + 1) h.sent
    | error e => exact h.sent
  linked links' hlinks' := by
    rw [State.link_settled hlink] at hlinks'
    cases hlinks'
    obtain ⟨inflows, hl⟩ := h.linked links hlink
    refine ⟨inflows, ?_⟩
    rw [link_accounted, Lifecycle.modifyLink, hl]
    rfl
  unlinked hnone := by
    rw [State.link_settled hlink] at hnone
    cases hnone

/-- The node's calls to send end as those of the member. -/
theorem acts_meshDone (hn : w.nodes[i]? = some n) (hplays : Plays m s n)
    (hnew : ∀ c, w.lastConnection < c → s.wires.get? c = none) {links : MeshLinks}
    (hlink : s.life.link = some links) (r : Round)
    (outcomes : List (String × MeshLinks.Outcome)) :
    Acts m (w.meshDone i call outcomes) i (s.settled r links outcomes) := by
  obtain ⟨inflows, hl⟩ := hplays.linked links hlink
  unfold World.meshDone
  rw [hn]
  dsimp only [Option.bind_some]
  rw [hl]
  dsimp only
  generalize hused : links.kept.map Prod.snd ++ _ = used
  have haround := World.around_abandonUnless w ((links.sent outcomes).1.kept.map Prod.snd) used
  obtain ⟨connections, -, hm⟩ := haround.exists_node hn
  have hnew' : ∀ c, (w.abandonUnless ((links.sent outcomes).1.kept.map Prod.snd)
      used).lastConnection < c → s.wires.get? c = none :=
    fun c hc => hnew c (Nat.lt_of_le_of_lt haround.lastConnection hc)
  have hrelinked := World.getElem?_modifyLife hm fun t =>
    t.modifyLink fun l => l.withLinks (links.sent outcomes).1
  have hsettled := (hplays.reach connections).settled hlink r outcomes
  cases hresult : (links.sent outcomes).2 with
  | ok u =>
    rw [hresult] at hsettled
    dsimp only
    refine ⟨⟨_, ?_, hsettled, .free rfl rfl⟩, hnew'⟩
    exact World.getElem?_finish_modifyLife hrelinked Lifecycle.countSent call (.ok ())
  | error e =>
    rw [hresult] at hsettled
    dsimp only
    rw [World.sendFailed_eq hrelinked]
    refine ⟨⟨_, ?_, hsettled, .free rfl rfl⟩, hnew'⟩
    rw [World.getElem?_finish_modifyLife hrelinked]
    dsimp only
    rw [(hplays.reach connections).kind]
    rfl

/-- Events can take a member to a state in which a node acts as it does. -/
def Follows (m : Member) (s : State) (closing : Bool) (v : World) (i : Nat) : Prop :=
  ∃ es s', s.run m es = some s' ∧ s'.closing = closing ∧ Acts m v i s'

theorem acts_meshWrites (hcoherent : Coherent peers s) (hn : w.nodes[i]? = some n)
    (hplays : Plays m s n) (hround : s.round = some r) {writes : List (String × PeerWrite)}
    (hwrites : r.writes = stages writes) (hcarries : ∀ entry ∈ writes, Carries r.frame entry.2)
    (hnew : ∀ c, w.lastConnection < c → s.wires.get? c = none) :
    Follows m s s.closing (w.meshWrites i call writes) i := by
  unfold World.meshWrites
  cases houtcomes : World.outcomes? writes with
  | none =>
    refine ⟨[], s, rfl, rfl, ⟨_, World.getElem?_wait hn call _, hplays.congr rfl rfl rfl rfl, ?_⟩,
      hnew⟩
    exact .spreading call writes r rfl hround hwrites hcarries
  | some outcomes =>
    cases hlink : s.life.link with
    | none =>
      have hnone := (hcoherent.link hlink).2
      rw [hround] at hnone
      cases hnone
    | some links =>
      have houtcomes' : outcomes? r.writes = some outcomes := by
        rw [hwrites, outcomes?_stages, houtcomes]
      refine ⟨[.settle], s.settled r links outcomes, ?_, rfl,
        acts_meshDone hn hplays hnew hlink r outcomes⟩
      simp only [State.run, State.step, State.settle, hround, hlink, houtcomes', Option.map_some,
        Option.bind_some]

/-- The writes of a round have come further, and the node goes on with its call. -/
theorem acts_of_leads (hcoherent : Coherent peers s) (hn : w.nodes[i]? = some n)
    (hplays : Plays m s n) {writes : List (String × PeerWrite)}
    (hcarries : ∀ entry ∈ writes, Carries r.frame entry.2) (haround : World.Around [] w v)
    (hleads : Leads m s r (stages writes) v) :
    Follows m s s.closing (v.meshWrites i call writes) i := by
  obtain ⟨es, wires, hrun, hnew⟩ := hleads
  obtain ⟨connections, -, hm⟩ := haround.exists_node hn
  have hplays' : Plays m (s.further r wires (stages writes)) (n.reach [] connections) :=
    (hplays.reach connections).congr rfl rfl rfl rfl
  obtain ⟨es', s', hrun', hclosing, hacts⟩ :=
    acts_meshWrites (m := m) (r := { r with writes := stages writes }) (hcoherent.run hrun) hm
      hplays' rfl rfl hcarries hnew
  refine ⟨es ++ es', s', ?_, hclosing, hacts⟩
  rw [State.run_append, hrun]
  exact hrun'

/-! ## What a node does -/

theorem Acts.exists_node (h : Acts m w i s) (hn : w.nodes[i]? = some n) :
    Plays m s n ∧ Waits s n := by
  obtain ⟨n', hn', hnode⟩ := h.node
  rw [hn] at hn'
  cases hn'
  exact hnode

/-- A call to send that is short enough gets its turn. -/
theorem acts_send (hcoherent : Coherent peers s) (h : Acts m w i s) (hn : w.nodes[i]? = some n)
    (hcurrent : n.current = none) {payload : Bytes} (hlength : payload.length ≤ m.codec.limit) :
    Follows m s s.closing (w.send i call n payload) i := by
  obtain ⟨hplays, hwaits⟩ := h.exists_node hn
  have hround : s.round = none := hwaits.round_eq_none hcurrent
  unfold World.send
  cases hclosed : s.life.closed with
  | true =>
    have hactive : n.life.active = .error .closed := by
      rw [Lifecycle.active, hplays.closed, if_pos hclosed]
    have hactive' : s.life.active = .error .closed := by rw [Lifecycle.active, if_pos hclosed]
    have hcheck : Lifecycle.checkPayload (some m.codec.limit) payload.length = .ok () := by
      simp only [Lifecycle.checkPayload, if_pos hlength]
    rw [hactive]
    refine ⟨[.send payload], s.answer payload (.error .closed), ?_, rfl,
      ⟨_, World.getElem?_finish hn _ _, hplays.congr rfl rfl rfl rfl, .free rfl hround⟩, h.new⟩
    simp only [State.run, State.step, State.send, hcheck, hround, hactive', Option.bind_some]
  | false =>
    obtain ⟨links, frame, hlink, hframe, hstep⟩ := hcoherent.step_send hlength hclosed hround
    obtain ⟨inflows, hl⟩ := hplays.linked links hlink
    have hactive : n.life.active = .ok (.mesh links inflows) := by
      simp only [Lifecycle.active, hplays.closed, hclosed, hl, Bool.false_eq_true, if_false]
    rw [hactive, hplays.codec, hframe]
    have hbegun : Plays m (s.begun links payload frame) n := hplays.congr rfl rfl rfl rfl
    have hrun : s.run m [.send payload] = some (s.begun links payload frame) := by
      rw [State.run, hstep]
      rfl
    let r : Round := ⟨payload, frame, links.plan.map fun p => (p.1, .start frame p.2)⟩
    have hleads : Leads m (s.begun links payload frame) r
        ([] ++ stages (w.startPeerWrites n frame links.plan).2)
        (w.startPeerWrites n frame links.plan).1 :=
      leads_startPeerWrites n links.plan rfl rfl h.new
    obtain ⟨es, s', hrun', hclosing, hacts⟩ := acts_of_leads (hcoherent.run hrun) hn hbegun
      (carries_startPeerWrites w n frame links.plan) (w.around_startPeerWrites n frame links.plan)
      hleads
    refine ⟨.send payload :: es, s', ?_, hclosing, hacts⟩
    rw [State.run, hstep]
    exact hrun'

theorem acts_moveCall (hcoherent : Coherent peers s) (h : Acts m w i s)
    (hn : w.nodes[i]? = some n) (hmove : w.moveCall i n = some v) :
    Follows m s s.closing v i := by
  obtain ⟨hplays, hwaits⟩ := h.exists_node hn
  unfold World.moveCall at hmove
  cases hwaits with
  | free hcurrent hround =>
    rw [hcurrent] at hmove
    cases hmove
  | spreading call writes r hcurrent hround hwrites hcarries =>
    rw [hcurrent] at hmove
    obtain ⟨x, hx, rfl⟩ := Option.map_eq_some_iff.mp hmove
    have hleads : Leads m s r ([] ++ stages x.2) x.1 :=
      leads_movePeerWrites hround hwrites hcarries h.new hplays.timeout hx
    exact acts_of_leads hcoherent hn hplays (carries_of_movePeerWrites hcarries hx)
      (World.around_of_movePeerWrites hx) hleads

/-- A call to close is made: it marks the transport, and what is being written is stopped. -/
theorem acts_stopWrites (hcoherent : Coherent peers s) (h : Acts m w i s)
    (hn : w.nodes[i]? = some n) :
    Follows m s true ((w.modifyLife i Lifecycle.markClosed).stopWrites i) i := by
  obtain ⟨hplays, hwaits⟩ := h.exists_node hn
  let s₁ : State := { s with life := s.life.markClosed, closing := true }
  have hrun : s.run m [.close] = some s₁ := rfl
  have hm := World.getElem?_modifyLife hn Lifecycle.markClosed
  have hplays₁ : Plays m s₁ { n with life := n.life.markClosed } :=
    ⟨hplays.codec, hplays.timeout, hplays.kind, rfl, hplays.sent, hplays.linked, hplays.unlinked⟩
  unfold World.stopWrites
  rw [hm]
  dsimp only [Option.bind_some]
  cases hwaits with
  | free hcurrent hround =>
    rw [hcurrent]
    exact ⟨[.close], s₁, hrun, rfl, ⟨_, hm, hplays₁, .free hcurrent hround⟩, h.new⟩
  | spreading call writes r hcurrent hround hwrites hcarries =>
    rw [hcurrent]
    dsimp only
    have haround := World.around_stopPeerWrites (w.modifyLife i Lifecycle.markClosed) writes
    have hleads : Leads m s₁ r
        ([] ++ stages ((w.modifyLife i Lifecycle.markClosed).stopPeerWrites writes).2)
        ((w.modifyLife i Lifecycle.markClosed).stopPeerWrites writes).1 :=
      leads_stopPeerWrites _ hround hwrites
        (fun c hc => h.new c (Nat.lt_of_le_of_lt haround.lastConnection hc)) rfl
    obtain ⟨es, s', hrun', hclosing, hacts⟩ :=
      acts_of_leads (hcoherent.run hrun) hm hplays₁ (carries_stopPeerWrites _ r.frame writes)
        haround hleads
    exact ⟨.close :: es, s', hrun', hclosing, hacts⟩

theorem acts_close (h : Acts m w i s) (hn : w.nodes[i]? = some n) (hcurrent : n.current = none)
    (hclosing : s.closing = true) :
    Follows m s true (w.close i call n) i := by
  obtain ⟨hplays, hwaits⟩ := h.exists_node hn
  have hround : s.round = none := hwaits.round_eq_none hcurrent
  have hrun : s.run m [.release] = some { s with life := s.life.released } := by
    simp only [State.run, State.step, hclosing, hround, Option.isNone_none, and_self, if_true,
      Option.bind_some]
  -- Whatever is closed with the link, the node itself is only released.
  have hreleased : ∀ u : World, World.Around [] w u →
      Acts m ((u.modifyLife i Lifecycle.released).finish i call (.ok ())) i
        { s with life := s.life.released } := by
    intro u haround
    obtain ⟨connections, -, hm⟩ := haround.exists_node hn
    refine ⟨⟨_, World.getElem?_finish_modifyLife hm _ _ _, ?_, .free rfl hround⟩,
      fun c hc => h.new c (Nat.lt_of_le_of_lt haround.lastConnection hc)⟩
    refine ⟨hplays.codec, hplays.timeout, hplays.kind, hplays.closed, hplays.sent, ?_, fun _ => rfl⟩
    intro links hlinks
    cases hlinks
  unfold World.close
  cases hlink : n.life.link with
  | some link => exact ⟨[.release], _, hrun, hclosing, hreleased _ (w.around_release link)⟩
  | none => exact ⟨[.release], _, hrun, hclosing, hreleased w (.refl w)⟩

theorem acts_failLink (h : Acts m w i s) (hn : w.nodes[i]? = some n) :
    Follows m s s.closing (w.failLink i n) i := by
  obtain ⟨hplays, hwaits⟩ := h.exists_node hn
  unfold World.failLink
  cases hlink : s.life.link with
  | none =>
    rw [hplays.unlinked hlink]
    exact ⟨[], s, rfl, rfl, h⟩
  | some links =>
    obtain ⟨inflows, hl⟩ := hplays.linked links hlink
    rw [hl]
    dsimp only
    have haround := World.around_foldl_abandon .acceptor Inflow.connection inflows w
    obtain ⟨connections, -, hm⟩ := haround.exists_node hn
    have hdropped := World.getElem?_modifyLife hm fun t =>
      t.modifyLink fun l => l.modifyInflows fun _ => []
    refine ⟨[.acceptFailed], _, rfl, rfl, ⟨_, World.getElem?_modifyLife hdropped _, ?_, ?_⟩,
      fun c hc => h.new c (Nat.lt_of_le_of_lt haround.lastConnection hc)⟩
    · rw [hplays.kind]
      have hreach := hplays.reach connections
      refine ⟨hreach.codec, hreach.timeout, hreach.kind, rfl, hreach.sent, ?_, ?_⟩
      · intro links' hlinks
        obtain ⟨inflows', hl'⟩ := hreach.linked links' hlinks
        exact ⟨[], congrArg (Option.map fun l : Link => l.modifyInflows fun _ => []) hl'⟩
      · intro hnone
        exact congrArg (Option.map fun l : Link => l.modifyInflows fun _ => [])
          (hreach.unlinked hnone)
    · cases hwaits with
      | free hcurrent hround => exact .free hcurrent hround
      | spreading call writes r hcurrent hround hwrites hcarries =>
        exact .spreading call writes r hcurrent hround hwrites hcarries

/-- A node starts to listen for the other members. -/
theorem acts_startMesh (hn : w.nodes[i]? = some n) (hlife : n.life = .fresh)
    (hkind : n.config.kind = .reliableMulticast) {a : Address}
    (hendpoint : n.config.endpoint = .ok a) (hpeers : n.config.peerEndpoints = .ok peers)
    (hbind : w.bind a.socketTarget = .ok ()) :
    Acts ⟨n.codec, n.config.sendTimeout⟩ (w.startMesh i call n) i (.initial peers) := by
  unfold World.startMesh
  rw [hendpoint, hpeers]
  dsimp only
  rw [hbind]
  refine ⟨⟨_, World.getElem?_finish_modifyLife hn _ _ _, ?_, .free rfl rfl⟩, fun _ _ => rfl⟩
  rw [hlife]
  refine ⟨rfl, rfl, hkind, rfl, rfl, ?_, ?_⟩
  · intro links hlinks
    cases hlinks
    exact ⟨[], rfl⟩
  · intro hnone
    cases hnone

/-! ## The course of a node -/

/-- What a node does once it has been started, and whether a call to close has been made. -/
inductive Course (m : Member) (i : Nat) (w : World) : Bool → World → Prop
  | started : Course m i w false w
  /-- Something happens elsewhere. -/
  | elsewhere {closing : Bool} {u v : World} (h : Course m i w closing u)
      (haround : World.Around [] u v) : Course m i w closing v
  | sends {closing : Bool} {u : World} {n : Node} (h : Course m i w closing u) (call : Nat)
      (hn : u.nodes[i]? = some n) (hcurrent : n.current = none) (payload : Bytes)
      (hlength : payload.length ≤ m.codec.limit) :
    Course m i w closing (u.send i call n payload)
  | goesOn {closing : Bool} {u v : World} {n : Node} (h : Course m i w closing u)
      (hn : u.nodes[i]? = some n) (hmove : u.moveCall i n = some v) : Course m i w closing v
  | marked {closing : Bool} {u : World} {n : Node} (h : Course m i w closing u)
      (hn : u.nodes[i]? = some n) :
    Course m i w true ((u.modifyLife i Lifecycle.markClosed).stopWrites i)
  | closes {u : World} {n : Node} (h : Course m i w true u) (call : Nat)
      (hn : u.nodes[i]? = some n) (hcurrent : n.current = none) :
    Course m i w true (u.close i call n)
  | fails {closing : Bool} {u : World} {n : Node} (h : Course m i w closing u)
      (hn : u.nodes[i]? = some n) : Course m i w closing (u.failLink i n)

theorem Acts.around (h : Acts m w i s) (haround : World.Around [] w v) : Acts m v i s := by
  obtain ⟨n, hn, hplays, hwaits⟩ := h.node
  obtain ⟨connections, -, hm⟩ := haround.exists_node hn
  refine ⟨⟨_, hm, hplays.reach connections, ?_⟩,
    fun c hc => h.new c (Nat.lt_of_le_of_lt haround.lastConnection hc)⟩
  cases hwaits with
  | free hcurrent hround => exact .free hcurrent hround
  | spreading call writes r hcurrent hround hwrites hcarries =>
    exact .spreading call writes r hcurrent hround hwrites hcarries

/-- The course of a node is a run of the member. -/
theorem follows_of_course (hstart : Acts m w i (.initial peers)) {closing : Bool}
    (h : Course m i w closing v) : Follows m (.initial peers) closing v i := by
  -- One more step of the node is some more events.
  have hmore : ∀ {b b' : Bool} {u x : World}, Follows m (.initial peers) b u i →
      (∀ s : State, Coherent peers s → s.closing = b → Acts m u i s → Follows m s b' x i) →
      Follows m (.initial peers) b' x i := by
    intro b b' u x hfollows hstep
    obtain ⟨es, s, hrun, hclosing, hacts⟩ := hfollows
    obtain ⟨es', s', hrun', hclosing', hacts'⟩ :=
      hstep s ((coherent_initial peers).run hrun) hclosing hacts
    refine ⟨es ++ es', s', ?_, hclosing', hacts'⟩
    rw [State.run_append, hrun]
    exact hrun'
  induction h with
  | started => exact ⟨[], .initial peers, rfl, rfl, hstart⟩
  | elsewhere _ haround ih =>
    exact hmore ih fun s _ hclosing hacts => ⟨[], s, rfl, hclosing, hacts.around haround⟩
  | sends _ call hn hcurrent payload hlength ih =>
    exact hmore ih fun s hs hclosing hacts => hclosing ▸ acts_send hs hacts hn hcurrent hlength
  | goesOn _ hn hmove ih =>
    exact hmore ih fun s hs hclosing hacts => hclosing ▸ acts_moveCall hs hacts hn hmove
  | marked _ hn ih => exact hmore ih fun s hs _ hacts => acts_stopWrites hs hacts hn
  | closes _ call hn hcurrent ih =>
    exact hmore ih fun s _ hclosing hacts => acts_close hacts hn hcurrent hclosing
  | fails _ hn ih =>
    exact hmore ih fun s _ hclosing hacts => hclosing ▸ acts_failLink hacts hn

end EvictionBus.Mesh
