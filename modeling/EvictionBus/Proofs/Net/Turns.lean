import EvictionBus.Proofs.Net.Around

/-!
# Turns

What becomes of a call when it gets its turn, and each time it goes on: it waits for something, or
it returns and has changed the life of its transport in one of a few ways.
-/

namespace EvictionBus.Net

/-- What a call is about. -/
inductive Task where
  | start
  | send
  | close
  deriving DecidableEq, Repr

def Request.task : Request → Task
  | .start => .start
  | .send _ => .send
  | .close => .close

/-- How much of a frame is left, its end, and the connection before it. -/
def PeerWrite.left : PeerWrite → Nat
  | .done _ => 0
  | .dialing frame _ => frame.length + 2
  | .writing _ rest _ => rest.length + 1

namespace Work

def task : Work → Task
  | .connecting .. => .start
  | .dialing .. => .start
  | .greeting .. => .start
  | .writing .. => .send
  | .spreading .. => .send

/-- How much may still be read or written before a call must return. A connection that is still to
be made counts for one more. -/
def left : Work → Nat
  | .connecting .. => 0
  | .dialing .. => headerSize + 1
  | .greeting _ _ received _ => headerSize - received.length
  | .writing _ rest _ => rest.length
  | .spreading writes => writes.foldr (fun entry rest => entry.2.left + rest) 0

/-- Whether the time for all of it is over. -/
def Over (work : Work) (now : Nat) : Prop :=
  ∀ t ∈ work.dueTimes, t < now

/-- Whether there is something to wait for. -/
def Unfinished : Work → Prop
  | .spreading writes => World.outcomes? writes = none
  | _ => True

theorem task_ne_close (work : Work) : work.task ≠ .close := by
  cases work <;> simp [task]

/-- The kind of transport on which something is waited for. -/
def kind : Work → TransportKind
  | .connecting .. => .broker
  | .dialing .. => .relay
  | .greeting .. => .relay
  | .writing .. => .relay
  | .spreading .. => .reliableMulticast

end Work

namespace Link

def kind : Link → TransportKind
  | .multicast _ => .multicast
  | .mesh .. => .reliableMulticast
  | .relay .. => .relay
  | .broker _ => .broker

@[simp] theorem kind_modifyInflows (f : List Inflow → List Inflow) (l : Link) :
    (l.modifyInflows f).kind = l.kind := by
  cases l <;> rfl

@[simp] theorem kind_withLinks (links : MeshLinks) (l : Link) :
    (l.withLinks links).kind = l.kind := by
  cases l <;> rfl

end Link

namespace Node

/-- Whether a call may do what it is about at its turn. -/
def May (n : Node) : Task → Prop
  | .start => n.life.mayStart = .ok ()
  | .send => ∃ l, n.life.active = .ok l
  | .close => True

/-- Why a call may not do what it is about. -/
def Refuses (n : Node) (e : TransportError) : Task → Prop
  | .start => n.life.mayStart = .error e
  | .send => n.life.active = .error e
  | .close => False

/-- The link and the call whose turn it is fit the kind of the transport and each other. -/
structure Fits (n : Node) : Prop where
  link : ∀ l, n.life.link = some l → l.kind = n.config.kind
  work : ∀ call work, n.current = some (call, work) →
    work.kind = n.config.kind ∧ work.Unfinished
  /-- A relay is greeted at an address. -/
  endpoint : ∀ call work, n.current = some (call, work) → work.task = .start →
    n.config.kind = .relay → ∃ a, n.config.endpoint = .ok a
  unlinked : ∀ call work, n.current = some (call, work) → work.task = .start →
    n.life.link = none
  linked : ∀ call work, n.current = some (call, work) → work.task = .send →
    n.life.link.isSome

/-- The link of a member of a mesh that is writing. -/
theorem Fits.mesh {n : Node} {call : Nat} {writes : List (String × PeerWrite)} (h : n.Fits)
    (hcurrent : n.current = some (call, .spreading writes)) :
    ∃ links inflows, n.life.link = some (.mesh links inflows) := by
  obtain ⟨link, hlink⟩ := Option.isSome_iff_exists.mp (h.linked _ _ hcurrent rfl)
  have hkind := (h.link link hlink).trans (h.work _ _ hcurrent).1.symm
  cases link with
  | mesh links inflows => exact ⟨links, inflows, hlink⟩
  | multicast group => cases hkind
  | relay connection reader => cases hkind
  | broker link => cases hkind

end Node

/-- Replaces the outgoing side of a member of a mesh, if it is given. -/
def relinked (links? : Option MeshLinks) (t : Lifecycle Link) : Lifecycle Link :=
  match links? with
  | none => t
  | some links => t.modifyLink fun l => l.withLinks links

@[simp] theorem closed_relinked (links? : Option MeshLinks) (t : Lifecycle Link) :
    (relinked links? t).closed = t.closed := by
  cases links? <;> rfl

@[simp] theorem traffic_relinked (links? : Option MeshLinks) (t : Lifecycle Link) :
    (relinked links? t).traffic = t.traffic := by
  cases links? <;> rfl

namespace World

/-- The next bytes of the relay's answer that a greeting call takes. -/
def greeted (w : World) (connection : Nat) (received : Bytes) : Bytes :=
  (w.incoming connection .dialer).unread.take (headerSize - received.length)

/-- The link that a call opens, after what it has waited for last. -/
def Opens (w : World) (n : Node) : Option Work → Link → Prop
  | none, .multicast _ => True
  | none, .mesh _ inflows => inflows = []
  | some (.greeting _ connection received _), .relay opened reader =>
    opened = connection ∧ reader = .start ∧
      RelayClient.judge n.codec (received ++ w.greeted connection received) = some (.ok ())
  | some (.connecting ..), .broker _ => True
  | _, _ => False

/-- A greeting starts on a new connection. -/
def Greets (w v : World) (work : Work) : Prop :=
  ∀ target connection received deadline, work = .greeting target connection received deadline →
    received = [] ∧ w.lastConnection < connection ∧ connection ≤ v.lastConnection

/-- What a call waits for next. A call that goes on has less left to do, and no more time once its
time is over. A greeting that goes on has taken the next bytes of the answer. -/
def Follows (w v : World) (was : Option Work) (work : Work) : Prop :=
  match was with
  | none => w.Greets v work
  | some before =>
    work.left < before.left ∧ (before.Over w.now → ∀ t ∈ work.dueTimes, t ∈ before.dueTimes) ∧
      match before with
      | .greeting target connection received deadline =>
        work = .greeting target connection (received ++ w.greeted connection received) deadline
      | _ => w.Greets v work

/-- The ways a call ends, with its result and what happens to the life of the transport. -/
inductive Ends (w : World) (call : Nat) (n : Node) (was : Option Work) :
    Task → Except TransportError Unit → (Lifecycle Link → Lifecycle Link) → Prop
  /-- There is no address to reach. -/
  | misconfigured (e : TransportError)
      (h : n.config.kind = .relay → ∃ e, n.config.endpoint = .error e) :
      Ends w call n was .start (.error e) id
  | unreached (e : TransportError)
      (h : n.config.kind = .relay → ∃ a, n.config.endpoint = .ok a) :
      Ends w call n was .start (.error e) fun t => t.startFailed n.config.kind
  | opened (link : Link) (hkind : link.kind = n.config.kind) (h : w.Opens n was link) :
      Ends w call n was .start (.ok ()) fun t => t.started call link
  /-- There is no frame for the payload. -/
  | unframed (e : TransportError) : Ends w call n was .send (.error e) id
  | unsent (e : TransportError) (links? : Option MeshLinks) :
      Ends w call n was .send (.error e) fun t => (relinked links? t).sendFailed n.config.kind
  | sent (links? : Option MeshLinks) :
      Ends w call n was .send (.ok ()) fun t => (relinked links? t).countSent
  | closed : Ends w call n was .close (.ok ()) Lifecycle.released

/-- What becomes of a call that has its turn. What it has waited for last is `was`. -/
inductive Becomes (w : World) (i call : Nat) (n : Node) (was : Option Work) (task : Task)
    (ds : List Datagram) : World → Prop
  | refused (e : TransportError) (hwas : was = none) (hds : ds = []) (h : n.Refuses e task) :
      Becomes w i call n was task ds (w.finish i call (.error e))
  | ends (u : World) (r : Except TransportError Unit) (f : Lifecycle Link → Lifecycle Link)
      (hmay : was = none → n.May task) (hu : Around ds w u) (h : w.Ends call n was task r f) :
      Becomes w i call n was task ds ((u.modifyLife i f).finish i call r)
  | waits (u : World) (work : Work) (hmay : was = none → n.May task) (hu : Around ds w u)
      (htask : work.task = task) (hkind : work.kind = n.config.kind) (hwork : work.Unfinished)
      (hendpoint : task = .start → n.config.kind = .relay → ∃ a, n.config.endpoint = .ok a)
      (h : w.Follows u was work) :
      Becomes w i call n was task ds (u.wait i call work)

/-- A call returns. -/
def EndsIn (w : World) (i call : Nat) (n : Node) (was : Option Work) (task : Task)
    (ds : List Datagram) (v : World) : Prop :=
  ∃ u r f, Around ds w u ∧ w.Ends call n was task r f ∧ v = (u.modifyLife i f).finish i call r

/-- The datagrams that a call casts at its turn. -/
def casting (w : World) (n : Node) : Request → List Datagram
  | .send payload =>
    match n.life.active, Multicast.datagram n.codec payload with
    | .ok (.multicast group), .ok bytes => if w.up then [⟨group.port, bytes⟩] else []
    | _, _ => []
  | _ => []

variable {w : World} {i call : Nat} {n : Node}

/-! ## Ends of calls -/

theorem startFailed_eq (hn : w.nodes[i]? = some n) (e : TransportError) :
    w.startFailed i call e =
      (w.modifyLife i fun t => t.startFailed n.config.kind).finish i call (.error e) := by
  unfold startFailed
  rw [hn]

theorem sendFailed_eq (hn : w.nodes[i]? = some n) (e : TransportError) :
    w.sendFailed i call e =
      (w.modifyLife i fun t => t.sendFailed n.config.kind).finish i call (.error e) := by
  unfold sendFailed
  rw [hn]

theorem startFailed_of_around {ds : List Datagram} {u : World} (hn : w.nodes[i]? = some n)
    (hu : Around ds w u) (e : TransportError) :
    u.startFailed i call e =
      (u.modifyLife i fun t => t.startFailed n.config.kind).finish i call (.error e) := by
  obtain ⟨connections, -, hm⟩ := hu.exists_node hn
  rw [startFailed_eq hm]
  simp [Node.reach]

theorem sendFailed_of_around {ds : List Datagram} {u : World} (hn : w.nodes[i]? = some n)
    (hu : Around ds w u) (e : TransportError) :
    u.sendFailed i call e =
      (u.modifyLife i fun t => t.sendFailed n.config.kind).finish i call (.error e) := by
  obtain ⟨connections, -, hm⟩ := hu.exists_node hn
  rw [sendFailed_eq hm]
  simp [Node.reach]

theorem modifyLife_modifyLife (w : World) (i : Nat) (f g : Lifecycle Link → Lifecycle Link) :
    (w.modifyLife i f).modifyLife i g = w.modifyLife i fun t => g (f t) := by
  unfold modifyLife modifyNode
  dsimp only
  rw [List.modify_modify_eq]
  rfl

theorem modifyLife_id (w : World) (i : Nat) : w.modifyLife i id = w := by
  unfold modifyLife modifyNode
  have hid : (fun n : Node => { n with life := id n.life }) = id := rfl
  rw [hid, List.modify_id]

theorem EndsIn.becomes {was : Option Work} {task : Task} {ds : List Datagram} {v : World}
    (h : w.EndsIn i call n was task ds v) (hmay : was = none → n.May task) :
    w.Becomes i call n was task ds v := by
  obtain ⟨u, r, f, hu, hends, rfl⟩ := h
  exact .ends u r f hmay hu hends

/-- A call that ends without a trace in the life of the transport. -/
theorem Becomes.ends_id {was : Option Work} {task : Task} {ds : List Datagram} {u : World}
    {r : Except TransportError Unit} (hmay : was = none → n.May task) (hu : Around ds w u)
    (h : w.Ends call n was task r id) : w.Becomes i call n was task ds (u.finish i call r) := by
  have := Becomes.ends (i := i) u r id hmay hu h
  rwa [modifyLife_id] at this

/-- A call to start that fails for a reason outside the configuration. -/
theorem becomes_startFailed {was : Option Work} {ds : List Datagram} {u : World}
    (hn : w.nodes[i]? = some n) (hmay : was = none → n.May .start) (hu : Around ds w u)
    (hendpoint : n.config.kind = .relay → ∃ a, n.config.endpoint = .ok a) (e : TransportError) :
    w.Becomes i call n was .start ds (u.startFailed i call e) := by
  rw [startFailed_of_around hn hu]
  exact .ends u _ _ hmay hu (.unreached e hendpoint)

theorem ends_sendFailed {was : Option Work} {ds : List Datagram} {u : World}
    (hn : w.nodes[i]? = some n) (hu : Around ds w u) (e : TransportError) :
    w.EndsIn i call n was .send ds (u.sendFailed i call e) := by
  rw [sendFailed_of_around hn hu]
  exact ⟨u, _, _, hu, .unsent e none, rfl⟩

theorem becomes_sendDone {was : Option Work} {ds : List Datagram} {u : World}
    (hmay : was = none → n.May .send) (hu : Around ds w u) :
    w.Becomes i call n was .send ds (u.sendDone i call) :=
  .ends u _ _ hmay hu (.sent none)

/-- No end of a call takes the mark away. -/
theorem Ends.closed_of_closed {was : Option Work} {task : Task} {r : Except TransportError Unit}
    {f : Lifecycle Link → Lifecycle Link} (h : w.Ends call n was task r f) {t : Lifecycle Link}
    (ht : t.closed = true) : (f t).closed = true := by
  cases h with
  | unreached e _ => cases n.config.kind <;> simp [Lifecycle.startFailed, Lifecycle.markClosed, ht]
  | unsent e links? =>
    cases n.config.kind <;> simp [Lifecycle.sendFailed, Lifecycle.markClosed, ht]
  | sent links? => exact (closed_relinked links? t).trans ht
  | _ => exact ht

theorem EndsIn.exists_node {was : Option Work} {task : Task} {ds : List Datagram} {v : World}
    (h : w.EndsIn i call n was task ds v) (hn : w.nodes[i]? = some n) :
    ∃ m, v.nodes[i]? = some m ∧ m.current = none ∧ m.queue = n.queue ∧
      (n.life.closed = true → m.life.closed = true) := by
  obtain ⟨u, r, f, hu, hends, rfl⟩ := h
  obtain ⟨connections, -, hm⟩ := hu.exists_node hn
  refine ⟨_, getElem?_finish_modifyLife hm f call r, rfl, by simp [Node.reach], fun hclosed => ?_⟩
  exact hends.closed_of_closed (by simpa [Node.reach] using hclosed)

/-! ## Starting -/

section Start

variable (hn : w.nodes[i]? = some n) (hmay : n.May .start)
include hn hmay

theorem becomes_startMulticast (hkind : n.config.kind = .multicast) :
    w.Becomes i call n none .start [] (w.startMulticast i call n) := by
  have hfails : ∀ e, w.Becomes i call n none .start [] (w.startFailed i call e) :=
    becomes_startFailed hn (fun _ => hmay) (.refl w) (by simp [hkind])
  unfold startMulticast
  cases hg : Multicast.group n.config with
  | error e => exact .ends_id (fun _ => hmay) (.refl w) (.misconfigured e (by simp [hkind]))
  | ok group =>
    dsimp only
    cases bindObstacle? w.up (.ofIpv4 .unspecified group.port) with
    | some e => exact hfails _
    | none =>
      dsimp only
      split
      · exact .ends w _ _ (fun _ => hmay) (.refl w) (.opened (.multicast group) hkind.symm trivial)
      · exact hfails _

theorem becomes_startMesh (hkind : n.config.kind = .reliableMulticast) :
    w.Becomes i call n none .start [] (w.startMesh i call n) := by
  have hbad : ∀ e, w.Becomes i call n none .start [] (w.finish i call (.error e)) :=
    fun e => .ends_id (fun _ => hmay) (.refl w) (.misconfigured e (by simp [hkind]))
  unfold startMesh
  cases n.config.endpoint with
  | error e => exact hbad e
  | ok a =>
    cases n.config.peerEndpoints with
    | error e => exact hbad e
    | ok peers =>
      dsimp only
      cases w.bind a.socketTarget with
      | error e => exact becomes_startFailed hn (fun _ => hmay) (.refl w) (by simp [hkind]) _
      | ok _ =>
        exact .ends w _ _ (fun _ => hmay) (.refl w) (.opened (.mesh _ []) hkind.symm rfl)

omit hmay in
/-- A relay that answers is greeted, if the greeting may follow what has been waited for. -/
theorem becomes_greetRelay {was : Option Work} {target : String} {deadline : Nat}
    (hmay : was = none → n.May .start) (hkind : n.config.kind = .relay)
    (hendpoint : ∃ a, n.config.endpoint = .ok a)
    (hfollows : ∀ u connection, w.Greets u (.greeting target connection [] deadline) →
      w.Follows u was (.greeting target connection [] deadline)) :
    w.Becomes i call n was .start [] (w.greetRelay i call n target deadline) := by
  have hfails : ∀ u, Around [] w u → ∀ e,
      w.Becomes i call n was .start [] (u.startFailed i call e) :=
    fun u hu => becomes_startFailed hn hmay hu fun _ => hendpoint
  unfold greetRelay
  cases hc : w.connect target with
  | error e => exact hfails w (.refl w) _
  | ok r =>
    obtain ⟨connection, u⟩ := r
    obtain ⟨hu, hnew, hle⟩ := around_of_connect hc
    have hlost := hu.trans (u.around_abandon connection .dialer)
    dsimp only
    cases RelayClient.hello n.codec n.config.relayAlias with
    | error e => exact hfails _ hlost e
    | ok frame =>
      dsimp only
      cases hwrite : u.write connection .dialer frame with
      | error e => exact hfails _ hlost _
      | ok r =>
        obtain ⟨rest, v⟩ := r
        have hv := around_of_write hwrite
        refine .waits v _ hmay (hu.trans hv) rfl hkind.symm trivial (fun _ _ => hendpoint)
          (hfollows v connection fun _ _ _ _ heq => ?_)
        cases heq
        exact ⟨rfl, hnew, Nat.le_trans hle hv.lastConnection⟩

theorem becomes_startRelay (hkind : n.config.kind = .relay) :
    w.Becomes i call n none .start [] (w.startRelay i call n) := by
  unfold startRelay
  cases hep : n.config.endpoint with
  | error e => exact .ends_id (fun _ => hmay) (.refl w) (.misconfigured e fun _ => ⟨e, hep⟩)
  | ok a =>
    dsimp only
    split
    · exact .waits w _ (fun _ => hmay) (.refl w) rfl hkind.symm trivial (fun _ _ => ⟨a, hep⟩)
        (by simp [Follows, Greets])
    · exact becomes_greetRelay hn (fun _ => hmay) hkind ⟨a, hep⟩ fun _ _ hgreets => hgreets

theorem becomes_startBroker (hkind : n.config.kind = .broker) :
    w.Becomes i call n none .start [] (w.startBroker i call n) := by
  unfold startBroker
  split
  · exact becomes_startFailed hn (fun _ => hmay) (.refl w) (by simp [hkind]) _
  · exact .waits _ _ (fun _ => hmay) (.of_nodes_eq rfl rfl rfl (Nat.le_refl _)) rfl hkind.symm
      trivial (by simp [hkind]) (by simp [Follows, Greets])

end Start

theorem becomes_start (hn : w.nodes[i]? = some n) :
    w.Becomes i call n none .start [] (w.start i call n) := by
  unfold start
  cases hmay : n.life.mayStart with
  | error e => exact .refused e rfl rfl hmay
  | ok _ =>
    dsimp only
    cases hkind : n.config.kind with
    | multicast => exact becomes_startMulticast hn hmay hkind
    | reliableMulticast => exact becomes_startMesh hn hmay hkind
    | relay => exact becomes_startRelay hn hmay hkind
    | broker => exact becomes_startBroker hn hmay hkind

/-! ## Sending -/

/-- A call to send that fails after the outgoing side of a member has been replaced. -/
theorem ends_meshFailed {was : Option Work} {u : World} (hn : w.nodes[i]? = some n)
    (hu : Around [] w u) (links : MeshLinks) (e : TransportError) :
    w.EndsIn i call n was .send []
      ((u.modifyLife i (relinked (some links))).sendFailed i call e) := by
  obtain ⟨connections, -, hm⟩ := hu.exists_node hn
  rw [sendFailed_eq (getElem?_modifyLife hm (relinked (some links))), modifyLife_modifyLife]
  exact ⟨u, _, _, hu, .unsent e (some links), rfl⟩

/-- The link of a member of a mesh is still there when its writes have come to an end. -/
theorem ends_meshDone {was : Option Work} {u : World} {links : MeshLinks}
    {inflows : List Inflow} (hn : w.nodes[i]? = some n)
    (hlink : n.life.link = some (.mesh links inflows)) (hu : Around [] w u)
    (outcomes : List (String × MeshLinks.Outcome)) :
    w.EndsIn i call n was .send [] (u.meshDone i call outcomes) := by
  obtain ⟨connections, -, hm⟩ := hu.exists_node hn
  have hmlink : ∃ inflows, (n.reach [] connections).life.link = some (.mesh links inflows) :=
    ⟨_, by rw [Node.reach, Node.takeDatagrams_nil, Node.link_join, hlink]; rfl⟩
  obtain ⟨inflows', hmlink⟩ := hmlink
  unfold meshDone
  rw [hm]
  dsimp only [Option.bind_some]
  rw [hmlink]
  dsimp only
  cases hsent : links.sent outcomes with
  | mk after result =>
    dsimp only
    have hlet := fun used => hu.trans (around_abandonUnless u (after.kept.map Prod.snd) used)
    cases result with
    | ok _ =>
      unfold sendDone
      rw [modifyLife_modifyLife]
      exact ⟨_, _, _, hlet _, .sent (some after), rfl⟩
    | error e => exact ends_meshFailed hn (hlet _) after e

theorem becomes_meshWrites {was : Option Work} {u : World} {links : MeshLinks}
    {inflows : List Inflow} (hn : w.nodes[i]? = some n) (hfits : n.Fits)
    (hmay : was = none → n.May .send) (hlink : n.life.link = some (.mesh links inflows))
    (hu : Around [] w u) (writes : List (String × PeerWrite))
    (hfollows : w.Follows u was (.spreading writes)) :
    w.Becomes i call n was .send [] (u.meshWrites i call writes) := by
  unfold meshWrites
  cases houtcomes : outcomes? writes with
  | some outcomes => exact (ends_meshDone hn hlink hu outcomes).becomes hmay
  | none => exact .waits u _ hmay hu rfl (hfits.link _ hlink) houtcomes (by simp) hfollows

theorem becomes_send (hn : w.nodes[i]? = some n) (hfits : n.Fits) (payload : Bytes) :
    w.Becomes i call n none .send (w.casting n (.send payload)) (w.send i call n payload) := by
  unfold send
  cases hactive : n.life.active with
  | error e =>
    refine .refused e rfl ?_ hactive
    unfold casting
    rw [hactive]
  | ok link =>
    have hmay : n.May .send := ⟨link, hactive⟩
    have hlink := Lifecycle.link_of_active hactive
    have hkind := hfits.link link hlink
    cases link with
    | multicast group =>
      unfold casting
      rw [hactive]
      dsimp only
      cases hd : Multicast.datagram n.codec payload with
      | error e => exact (ends_sendFailed hn (.refl w) e).becomes fun _ => hmay
      | ok bytes =>
        dsimp only
        by_cases hup : w.up = true
        · rw [if_pos hup, if_pos hup]
          exact becomes_sendDone (fun _ => hmay) (w.around_castDatagram ⟨group.port, bytes⟩)
        · rw [if_neg hup, if_neg hup]
          exact (ends_sendFailed hn (.refl w) _).becomes fun _ => hmay
    | mesh links inflows =>
      unfold casting
      rw [hactive]
      dsimp only
      cases (n.codec.encode .evict payload).mapError TransportError.ofFrame with
      | error e => exact .ends_id (fun _ => hmay) (.refl w) (.unframed e)
      | ok frame =>
        exact becomes_meshWrites hn hfits (fun _ => hmay) hlink
          (w.around_startPeerWrites n frame links.plan) _ (by simp [Follows, Greets])
    | relay connection reader =>
      unfold casting
      rw [hactive]
      dsimp only
      cases (n.codec.encode .evict payload).mapError TransportError.ofFrame with
      | error e => exact .ends_id (fun _ => hmay) (.refl w) (.unframed e)
      | ok frame =>
        dsimp only
        cases hwrite : w.write connection .dialer frame with
        | error e => exact (ends_sendFailed hn (.refl w) _).becomes fun _ => hmay
        | ok r =>
          obtain ⟨rest, v⟩ := r
          have hv := around_of_write hwrite
          cases rest with
          | nil => exact becomes_sendDone (fun _ => hmay) hv
          | cons b rest =>
            exact .waits v _ (fun _ => hmay) hv rfl hkind trivial (by simp)
              (by simp [Follows, Greets])
    | broker link =>
      unfold casting
      rw [hactive]
      dsimp only
      cases link.publish w.broker payload with
      | error e => exact (ends_sendFailed hn (.refl w) e).becomes fun _ => hmay
      | ok broker =>
        exact becomes_sendDone (fun _ => hmay) (.of_nodes_eq rfl rfl rfl (Nat.le_refl _))

/-! ## Turns -/

theorem becomes_close (w : World) (i call : Nat) (n : Node) :
    w.Becomes i call n none .close [] (w.close i call n) := by
  unfold close
  cases n.life.link with
  | some link => exact .ends _ _ _ (fun _ => trivial) (w.around_release link) .closed
  | none => exact .ends w _ _ (fun _ => trivial) (.refl w) .closed

/-- A call gets its turn. -/
theorem becomes_perform (hn : w.nodes[i]? = some n) (hfits : n.Fits) (request : Request) :
    w.Becomes i call n none request.task (w.casting n request) (w.perform i call request) := by
  unfold perform
  rw [hn]
  cases request with
  | start => exact becomes_start hn
  | send payload => exact becomes_send hn hfits payload
  | close => exact w.becomes_close i call n

/-! ## Going on -/

/-- A dial that goes on is answered in time, or given up when its time is over. -/
theorem moveDialing_cases {v : World} {target : String} {deadline : Nat}
    (h : w.moveDialing i call n target deadline = some v) :
    v = w.greetRelay i call n target deadline ∨
      v = w.startFailed i call (RelayClient.timedOut target) := by
  unfold moveDialing at h
  split at h
  · exact .inl (Option.some.inj h).symm
  · split at h
    · exact .inr (Option.some.inj h).symm
    · cases h

theorem becomes_moveDialing {v : World} {target : String} {deadline : Nat}
    (hn : w.nodes[i]? = some n) (hkind : n.config.kind = .relay)
    (hendpoint : ∃ a, n.config.endpoint = .ok a)
    (h : w.moveDialing i call n target deadline = some v) :
    w.Becomes i call n (some (.dialing target deadline)) .start [] v := by
  obtain rfl | rfl := moveDialing_cases h
  · refine becomes_greetRelay hn (by simp) hkind hendpoint fun u connection hgreets => ?_
    exact ⟨Nat.lt_succ_self headerSize, fun _ _ ht => ht, hgreets⟩
  · exact becomes_startFailed hn (by simp) (.refl w) (fun _ => hendpoint) _

/-- A greeting goes on: it waits for more of the header, opens the link, or fails. -/
theorem moveGreeting_cases {v : World} {target : String} {connection deadline : Nat}
    {received : Bytes}
    (h : w.moveGreeting i call n target connection received deadline = some v) :
    ((w.incoming connection .dialer).unread ≠ [] ∧
      RelayClient.judge n.codec (received ++ w.greeted connection received) = none ∧
      v = (w.read connection .dialer (headerSize - received.length)).2.wait i call
        (.greeting target connection (received ++ w.greeted connection received) deadline)) ∨
    (RelayClient.judge n.codec (received ++ w.greeted connection received) = some (.ok ()) ∧
      v = (w.read connection .dialer (headerSize - received.length)).2.startDone i call
        (.relay connection .start)) ∨
    ∃ u e, Around [] w u ∧ u.nodes = w.nodes ∧ v = u.startFailed i call e := by
  have hread := w.around_read connection .dialer (headerSize - received.length)
  unfold moveGreeting at h
  dsimp only at h
  split at h
  · next hunread =>
    split at h
    · next hjudge =>
      cases h
      exact .inl ⟨hunread, hjudge, rfl⟩
    · next hjudge =>
      cases h
      exact .inr (.inl ⟨hjudge, rfl⟩)
    · cases h
      exact .inr (.inr ⟨_, _, hread.trans (around_abandon _ connection .dialer), rfl, rfl⟩)
  · split at h
    · cases h
      exact .inr (.inr ⟨_, _, w.around_abandon connection .dialer, rfl, rfl⟩)
    · split at h
      · cases h
        exact .inr (.inr ⟨_, _, w.around_abandon connection .dialer, rfl, rfl⟩)
      · cases h

theorem becomes_moveGreeting {v : World} {target : String} {connection deadline : Nat}
    {received : Bytes} (hn : w.nodes[i]? = some n) (hkind : n.config.kind = .relay)
    (hendpoint : ∃ a, n.config.endpoint = .ok a)
    (h : w.moveGreeting i call n target connection received deadline = some v) :
    w.Becomes i call n (some (.greeting target connection received deadline)) .start [] v := by
  have hread := w.around_read connection .dialer (headerSize - received.length)
  obtain ⟨hunread, hjudge, rfl⟩ | ⟨hjudge, rfl⟩ | ⟨u, e, hu, -, rfl⟩ := moveGreeting_cases h
  · refine .waits _ _ (by simp) hread rfl hkind.symm trivial (fun _ _ => hendpoint)
      ⟨?_, fun _ _ ht => ht, rfl⟩
    have hshort : (received ++ w.greeted connection received).length < headerSize :=
      RelayClient.length_lt_of_judge hjudge
    have hsome := List.length_pos_iff.mpr hunread
    change headerSize - (received ++ w.greeted connection received).length <
      headerSize - received.length
    simp only [greeted, List.length_append, List.length_take] at hshort ⊢
    omega
  · exact .ends _ _ _ (by simp) hread (.opened _ hkind.symm ⟨rfl, rfl, hjudge⟩)
  · exact becomes_startFailed hn (by simp) hu (fun _ => hendpoint) e

theorem becomes_moveWriting {v : World} {connection deadline : Nat} {rest : Bytes}
    (hn : w.nodes[i]? = some n) (hkind : n.config.kind = .relay)
    (h : w.moveWriting i call n connection rest deadline = some v) :
    w.Becomes i call n (some (.writing connection rest deadline)) .send [] v := by
  unfold moveWriting at h
  cases hwrite : w.write connection .dialer rest with
  | error e =>
    rw [hwrite] at h
    cases h
    exact (ends_sendFailed hn (.refl w) _).becomes (by simp)
  | ok r =>
    obtain ⟨left, u⟩ := r
    rw [hwrite] at h
    have hu := around_of_write hwrite
    cases left with
    | nil =>
      cases h
      exact becomes_sendDone (by simp) hu
    | cons b left =>
      dsimp only at h
      split at h
      · next hless =>
        cases h
        exact .waits u _ (by simp) hu rfl hkind.symm trivial (by simp)
          ⟨hless, fun _ _ ht => ht, by simp [Greets]⟩
      · split at h
        · cases h
          exact (ends_sendFailed hn (.refl w) _).becomes (by simp)
        · cases h

theorem left_writePeer (w : World) (n : Node) (frame : Bytes) (connection : Nat) :
    (w.writePeer n frame connection).2.left ≤ frame.length + 1 := by
  unfold writePeer
  cases hw : w.write connection .dialer frame with
  | error e => exact Nat.zero_le _
  | ok r =>
    obtain ⟨rest, v⟩ := r
    obtain ⟨⟨k, hrest⟩, -⟩ := exists_drop_of_write hw
    have hle : rest.length ≤ frame.length := by
      rw [hrest, List.length_drop]
      exact Nat.sub_le _ _
    cases rest with
    | nil => exact Nat.zero_le _
    | cons b rest => exact Nat.succ_le_succ hle

theorem left_linkPeer (w : World) (n : Node) (frame : Bytes) (target : String) :
    (w.linkPeer n frame target).2.left ≤ frame.length + 1 := by
  unfold linkPeer
  cases w.connect target with
  | error e => exact Nat.zero_le _
  | ok r => exact left_writePeer r.2 n frame r.1

/-- A write that goes on has less left to do, and gets no more time once its time is over. -/
theorem left_of_movePeerWrite {v : World} {target : String} {write after : PeerWrite}
    (h : w.movePeerWrite n target write = some (v, after)) :
    (Work.spreading [(target, after)]).left < (Work.spreading [(target, write)]).left ∧
      ((Work.spreading [(target, write)]).Over w.now →
        ∀ t ∈ (Work.spreading [(target, after)]).dueTimes,
          t ∈ (Work.spreading [(target, write)]).dueTimes) := by
  cases write with
  | done outcome => cases h
  | dialing frame deadline =>
    obtain ⟨hintime, hlinked⟩ | ⟨-, rfl⟩ := movePeerWrite_dialing h
    · have hless := w.left_linkPeer n frame target
      rw [hlinked] at hless
      refine ⟨Nat.lt_succ_of_le hless, fun hover => ?_⟩
      have hlate : deadline < w.now := hover deadline (by simp [Work.dueTimes])
      exact absurd hintime (Nat.not_le.mpr hlate)
    · simp [Work.left, PeerWrite.left, Work.dueTimes]
  | writing connection rest deadline =>
    obtain ⟨e, -, rfl⟩ | ⟨-, rfl⟩ | ⟨left, -, -, hless, rfl⟩ | ⟨-, rfl⟩ := movePeerWrite_writing h
    · simp [Work.left, PeerWrite.left, Work.dueTimes]
    · simp [Work.left, PeerWrite.left, Work.dueTimes]
    · exact ⟨Nat.succ_lt_succ hless, fun _ _ ht => ht⟩
    · simp [Work.left, PeerWrite.left, Work.dueTimes]

/-- What is left of one write among others. -/
theorem left_append_cons (early late : List (String × PeerWrite)) (entry : String × PeerWrite) :
    (Work.spreading (early ++ entry :: late)).left =
      (Work.spreading [entry]).left + (Work.spreading (early ++ late)).left := by
  have hcons : ∀ e writes, (Work.spreading (e :: writes)).left =
      (Work.spreading [e]).left + (Work.spreading writes).left := by
    intro e writes
    simp [Work.left]
  induction early with
  | nil => exact hcons entry late
  | cons e early ih =>
    rw [List.cons_append, hcons, ih, List.cons_append, hcons e (early ++ late)]
    exact Nat.add_left_comm _ _ _

/-- The times of one write among others. -/
theorem mem_dueTimes_append_cons {t : Nat} (early late : List (String × PeerWrite))
    (entry : String × PeerWrite) : t ∈ (Work.spreading (early ++ entry :: late)).dueTimes ↔
      t ∈ (Work.spreading [entry]).dueTimes ∨ t ∈ (Work.spreading (early ++ late)).dueTimes := by
  have happend : ∀ xs ys, (Work.spreading (xs ++ ys)).dueTimes =
      (Work.spreading xs).dueTimes ++ (Work.spreading ys).dueTimes :=
    fun _ _ => List.filterMap_append
  rw [← List.singleton_append, happend, happend [entry], happend, List.mem_append, List.mem_append,
    List.mem_append]
  exact or_left_comm

theorem left_of_movePeerWrites {v : World} {writes after : List (String × PeerWrite)}
    (h : w.movePeerWrites n writes = some (v, after)) :
    (Work.spreading after).left < (Work.spreading writes).left ∧
      ((Work.spreading writes).Over w.now →
        ∀ t ∈ (Work.spreading after).dueTimes, t ∈ (Work.spreading writes).dueTimes) := by
  obtain ⟨early, target, write, write', late, rfl, hmove, rfl⟩ := exists_of_movePeerWrites h
  obtain ⟨hless, htimes⟩ := left_of_movePeerWrite hmove
  rw [left_append_cons, left_append_cons early late (target, write)]
  refine ⟨Nat.add_lt_add_right hless _, fun hover t ht => ?_⟩
  have hone : (Work.spreading [(target, write)]).Over w.now :=
    fun t ht => hover t ((mem_dueTimes_append_cons early late (target, write)).mpr (.inl ht))
  rw [mem_dueTimes_append_cons] at ht ⊢
  exact ht.imp_left (htimes hone t)

/-- The call whose turn it is goes on. -/
theorem becomes_moveCall {v : World} {work : Work} (hn : w.nodes[i]? = some n) (hfits : n.Fits)
    (hcurrent : n.current = some (call, work)) (h : w.moveCall i n = some v) :
    w.Becomes i call n (some work) work.task [] v := by
  have hkind := (hfits.work call work hcurrent).1
  unfold moveCall at h
  rw [hcurrent] at h
  cases work with
  | connecting binding due result =>
    dsimp only at h
    split at h
    · cases result with
      | ok session =>
        cases h
        exact .ends w _ _ (by simp) (.refl w) (.opened (.broker _) hkind trivial)
      | error e =>
        cases h
        exact becomes_startFailed hn (by simp) (.refl w) (by simp [← hkind, Work.kind]) e
    · cases h
  | dialing target deadline =>
    exact becomes_moveDialing hn hkind.symm (hfits.endpoint call _ hcurrent rfl hkind.symm) h
  | greeting target connection received deadline =>
    exact becomes_moveGreeting hn hkind.symm
      (hfits.endpoint call _ hcurrent rfl hkind.symm) h
  | writing connection rest deadline => exact becomes_moveWriting hn hkind.symm h
  | spreading writes =>
    obtain ⟨links, inflows, hlink⟩ := hfits.mesh hcurrent
    dsimp only at h
    cases hm : w.movePeerWrites n writes with
    | none =>
      rw [hm] at h
      cases h
    | some r =>
      obtain ⟨u, after⟩ := r
      rw [hm] at h
      cases h
      obtain ⟨hless, htimes⟩ := left_of_movePeerWrites hm
      exact becomes_meshWrites hn hfits (by simp) hlink (around_of_movePeerWrites hm) after
        ⟨hless, htimes, by simp [Greets]⟩

theorem isSome_outcomes?_stopPeerWrites (w : World) (writes : List (String × PeerWrite)) :
    (outcomes? (w.stopPeerWrites writes).2).isSome := by
  induction writes with
  | nil => rfl
  | cons entry rest ih =>
    obtain ⟨target, write⟩ := entry
    unfold stopPeerWrites
    cases write with
    | done outcome => simpa [outcomes?] using ih
    | dialing _ _ => simpa [outcomes?] using ih
    | writing _ _ _ => simpa [outcomes?] using ih

/-- Closing ends a write that is going on. -/
theorem ends_stopWrites {work : Work} (hn : w.nodes[i]? = some n) (hfits : n.Fits)
    (hcurrent : n.current = some (call, work)) (htask : work.task = .send) :
    w.EndsIn i call n (some work) .send [] (w.stopWrites i) := by
  unfold stopWrites
  rw [hn]
  dsimp only [Option.bind_some]
  rw [hcurrent]
  cases work with
  | connecting _ _ _ => cases htask
  | dialing _ _ => cases htask
  | greeting _ _ _ _ => cases htask
  | writing _ _ _ => exact ends_sendFailed hn (.refl w) _
  | spreading writes =>
    obtain ⟨links, inflows, hlink⟩ := hfits.mesh hcurrent
    obtain ⟨outcomes, houtcomes⟩ :=
      Option.isSome_iff_exists.mp (w.isSome_outcomes?_stopPeerWrites writes)
    dsimp only
    unfold meshWrites
    rw [houtcomes]
    exact ends_meshDone hn hlink (w.around_stopPeerWrites writes) outcomes

/-- Nothing is there to be stopped while a call starts the transport. -/
theorem stopWrites_eq_self (hn : w.nodes[i]? = some n)
    (hcurrent : ∀ call work, n.current = some (call, work) → work.task = .start) :
    w.stopWrites i = w := by
  unfold stopWrites
  rw [hn]
  dsimp only [Option.bind_some]
  cases hc : n.current with
  | none => rfl
  | some c =>
    obtain ⟨call, work⟩ := c
    have htask := hcurrent call work hc
    cases work with
    | connecting _ _ _ => rfl
    | dialing _ _ => rfl
    | greeting _ _ _ _ => rfl
    | writing _ _ _ => cases htask
    | spreading _ => cases htask

end World

end EvictionBus.Net
