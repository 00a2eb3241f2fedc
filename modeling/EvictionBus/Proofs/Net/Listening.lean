import EvictionBus.Proofs.Net.Hearing
import Mathlib.Data.List.Nodup

/-!
# Links listen

A link reads everything that has come on a stream, and hands its frames on. A stream is given up
when it is over, or when its socket fails. Whatever happens, a node stays in tune.
-/

namespace EvictionBus.Net.World

variable {w u v : World} {hs : List Happening} {i j connection place : Nat} {side : Side} {n : Node}
  {log : List Sound}

/-! ## Readers -/

theorem inward_moveReader {c : Codec} {r reader : FrameReader} {items : List FrameItem}
    (h : w.moveReader c connection side r = some (v, reader, items)) (i : Nat) :
    Inward w v i id := by
  unfold moveReader at h
  dsimp only at h
  split at h
  · cases h
  · split at h
    · cases h
      exact .of_nodes_eq (w := w) (v := (w.readAll connection side).2) rfl rfl i
    · split at h
      · cases h
        exact .of_nodes_eq rfl rfl i
      · cases h

/-- A stream is over for its reader when it has ended or cannot be read any further. -/
def Over (w : World) (c : Codec) (log : List Sound) (connection : Nat) (side : Side) : Prop :=
  (w.incoming connection side).unread = [] ∧ (w.incoming connection side).atEnd ∨
    ∃ e, (c.drain (streamOf connection log ++ (w.incoming connection side).unread)).2 = .error e

/-- A reader takes in everything that has come, and stops when the stream is over. -/
theorem moveReader_spec {c : Codec} {r reader : FrameReader} {items : List FrameItem}
    (h : w.moveReader c connection side r = some (v, reader, items))
    (hholds : r.Holds c (streamOf connection log)) :
    r ≠ .stopped ∧
      reader.Holds c (streamOf connection log ++ (w.incoming connection side).unread) ∧
      items.filterMap Except.toOption =
        framesIn c log (.chunk connection (w.incoming connection side).unread) ∧
      (reader = .stopped → w.Over c log connection side) := by
  cases r with
  | stopped => simp [moveReader] at h
  | reading pending =>
    unfold moveReader at h
    dsimp only at h
    rw [if_neg (by simp)] at h
    refine ⟨by simp, ?_⟩
    split at h
    · cases h
      have hall : (w.readAll connection side).1 = (w.incoming connection side).unread :=
        List.take_length
      obtain ⟨hreader, hframes⟩ := hholds.feed (w.readAll connection side).1
      rw [hall] at hreader hframes ⊢
      refine ⟨hreader, hframes, fun hstopped => .inr ?_⟩
      rw [c.drain_append_of_ok _ (hholds pending rfl)]
      cases hout : (c.drain (pending ++ (w.incoming connection side).unread)).2 with
      | ok rest =>
        rw [FrameReader.feed_of_ok c hout] at hstopped
        cases hstopped
      | error e => exact ⟨e, rfl⟩
    · next hnothing =>
      split at h
      · next hend =>
        cases h
        have hempty := Decidable.not_not.mp hnothing
        refine ⟨?_, ?_, fun _ => .inl ⟨hempty, hend⟩⟩
        · exact fun _ hp => (by cases hp)
        · rw [hempty, hholds.finish, framesIn, List.append_nil, List.drop_length]
      · cases h

/-- A reader that has nothing to do has nothing to read. -/
theorem unread_of_stuck {c : Codec} {r : FrameReader} (hreading : r ≠ .stopped)
    (h : w.moveReader c connection side r = none) : (w.incoming connection side).unread = [] := by
  apply Decidable.byContradiction
  intro hne
  unfold moveReader at h
  dsimp only at h
  rw [if_neg hreading, if_pos hne] at h
  cases h

/-! ## Streams from other members of a mesh -/

/-- What becomes of the life of a member of a mesh that has read from another one. -/
def readInflow (connection : Nat) (reader : FrameReader) (items : List FrameItem)
    (t : Lifecycle Link) : Lifecycle Link :=
  (t.modifyTraffic fun traffic => traffic.receiveItems items).modifyLink fun l =>
    l.modifyInflows fun fs =>
      if reader = .stopped then fs.filter fun f => f.connection ≠ connection
      else fs.map fun f => if f.connection = connection then { f with reader := reader } else f

theorem inward_moveInflow {inflow : Inflow} (h : w.moveInflow i n inflow = some v) :
    ∃ u reader items,
      w.moveReader n.codec inflow.connection .acceptor inflow.reader = some (u, reader, items) ∧
        Inward w v i (readInflow inflow.connection reader items) := by
  unfold moveInflow at h
  obtain ⟨⟨u, reader, items⟩, hread, h⟩ := Option.bind_eq_some_iff.mp h
  refine ⟨u, reader, items, hread, ?_⟩
  have htaken := (inward_moveReader hread i).trans
    (Inward.modifyLife u i fun t => t.modifyTraffic fun traffic => traffic.receiveItems items)
  dsimp only at h
  split at h
  · next hstopped =>
    cases h
    have hclosed := htaken.trans
      (Inward.abandon (u.takeItems i items) inflow.connection .acceptor i)
    have hlife : readInflow inflow.connection reader items = fun t =>
        (t.modifyTraffic fun traffic => traffic.receiveItems items).modifyLink fun l =>
          l.modifyInflows fun fs => fs.filter fun f => f.connection ≠ inflow.connection := by
      unfold readInflow
      simp only [if_pos hstopped]
    rw [hlife]
    exact hclosed.trans (Inward.modifyLife _ i fun t => t.modifyLink fun l =>
      l.modifyInflows fun fs => fs.filter fun f => f.connection ≠ inflow.connection)
  · next hgoes =>
    cases h
    have hlife : readInflow inflow.connection reader items = fun t =>
        (t.modifyTraffic fun traffic => traffic.receiveItems items).modifyLink fun l =>
          l.modifyInflows fun fs => fs.map fun f =>
            if f.connection = inflow.connection then { f with reader := reader } else f := by
      unfold readInflow
      simp only [if_neg hgoes]
    rw [hlife]
    exact htaken.trans (Inward.modifyLife _ i _)

/-- A member of a mesh hears a chunk of one of its streams. -/
theorem tuned_readInflow {links : MeshLinks} {inflows : List Inflow} {inflow : Inflow}
    {reader : FrameReader} {items : List FrameItem} {bytes : Bytes} {last : Nat}
    (ht : n.Tuned log last) (hfits : n.Fits) (hlink : n.life.link = some (.mesh links inflows))
    (hmem : inflow ∈ inflows)
    (hholds : reader.Holds n.codec (streamOf inflow.connection log ++ bytes))
    (hitems : items.filterMap Except.toOption =
      framesIn n.codec log (.chunk inflow.connection bytes)) :
    Node.Tuned { n with life := readInflow inflow.connection reader items n.life }
      (log ++ [.chunk inflow.connection bytes]) last := by
  have hafter : (readInflow inflow.connection reader items n.life).link = some (.mesh links
      (if reader = .stopped then inflows.filter fun f => f.connection ≠ inflow.connection
        else inflows.map fun f =>
          if f.connection = inflow.connection then { f with reader := reader } else f)) := by
    unfold readInflow
    simp [Lifecycle.modifyLink, Lifecycle.modifyTraffic, hlink, Link.modifyInflows]
  refine ht.chunk ((ht.mesh links inflows hlink).2 inflow hmem).1 ?_ ?_ ?_ ?_
  · intro number target other received deadline hcurrent
    rw [hfits.unlinked _ _ hcurrent rfl] at hlink
    cases hlink
  · intro fs hfs
    rw [← hitems]
    exact hfs.receiveItems items
  · intro links' inflows' hl
    rw [hafter] at hl
    cases hl
    refine ⟨links, inflows, hlink, ?_, ?_⟩
    · split
      · exact List.filter_sublist.map _
      · have hsame : (inflows.map fun f =>
            if f.connection = inflow.connection then { f with reader := reader } else f).map
              Inflow.connection = inflows.map Inflow.connection := by
          rw [List.map_map]
          apply List.map_congr_left
          intro f _
          dsimp only [Function.comp]
          split <;> rfl
        rw [hsame]
    · intro f hf
      split at hf
      · have hkept := List.mem_filter.mp hf
        exact .inl ⟨hkept.1, by simpa using hkept.2⟩
      · obtain ⟨g, hg, rfl⟩ := List.mem_map.mp hf
        by_cases hsame : g.connection = inflow.connection
        · rw [if_pos hsame]
          exact .inr ⟨hsame, hholds⟩
        · rw [if_neg hsame]
          exact .inl ⟨hg, hsame⟩
  · intro other reader' hl
    rw [hafter] at hl
    cases hl

theorem attends_readInflow {inflow : Inflow} {reader : FrameReader} {items : List FrameItem}
    {lost : Nat → Prop} (hlost : reader = .stopped → lost inflow.connection) (t : Lifecycle Link) :
    Attends lost t (readInflow inflow.connection reader items t) := by
  have htraffic : Attends (fun _ => False) t
      (t.modifyTraffic fun traffic => traffic.receiveItems items) := .of_link_eq rfl rfl
  refine htraffic.trans (.modifyInflows fun links inflows _ f hf hreading => ?_)
  by_cases hstopped : reader = .stopped
  · rw [if_pos hstopped]
    by_cases hsame : f.connection = inflow.connection
    · exact .inr (hsame ▸ hlost hstopped)
    · exact .inl ⟨f, List.mem_filter.mpr ⟨hf, by simpa using hsame⟩, rfl, hreading⟩
  · rw [if_neg hstopped]
    refine .inl ⟨_, List.mem_map_of_mem hf, ?_⟩
    split
    · exact ⟨rfl, hstopped⟩
    · exact ⟨rfl, hreading⟩

/-! ## The stream from a relay -/

/-- What becomes of the life of a client that has read from its relay. -/
def readRelay (kind : TransportKind) (connection : Nat) (reader : FrameReader)
    (items : List FrameItem) (t : Lifecycle Link) : Lifecycle Link :=
  let read := (t.modifyTraffic fun traffic => traffic.receiveItems items).modifyLink fun _ =>
    .relay connection reader
  if reader = .stopped then read.receivingEnded kind else read

theorem inward_moveRelayLink {r : FrameReader} (h : w.moveRelayLink i n connection r = some v) :
    ∃ u reader items, w.moveReader n.codec connection .dialer r = some (u, reader, items) ∧
      Inward w v i (readRelay n.config.kind connection reader items) := by
  unfold moveRelayLink at h
  obtain ⟨⟨u, reader, items⟩, hread, h⟩ := Option.bind_eq_some_iff.mp h
  refine ⟨u, reader, items, hread, ?_⟩
  have hread := (inward_moveReader hread i).trans
    (Inward.modifyLife u i fun t => t.modifyTraffic fun traffic => traffic.receiveItems items)
  have htaken := hread.trans
    (Inward.modifyLife _ i fun t => t.modifyLink fun _ => .relay connection reader)
  dsimp only at h
  split at h
  · next hstopped =>
    cases h
    have hlife : readRelay n.config.kind connection reader items = fun t =>
        ((t.modifyTraffic fun traffic => traffic.receiveItems items).modifyLink fun _ =>
          .relay connection reader).receivingEnded n.config.kind := by
      unfold readRelay
      simp only [if_pos hstopped]
    rw [hlife]
    exact htaken.trans (Inward.modifyLife _ i _)
  · next hgoes =>
    cases h
    have hlife : readRelay n.config.kind connection reader items = fun t =>
        (t.modifyTraffic fun traffic => traffic.receiveItems items).modifyLink fun _ =>
          .relay connection reader := by
      unfold readRelay
      simp only [if_neg hgoes]
    rw [hlife]
    exact htaken

/-- A client hears a chunk of the stream from its relay. -/
theorem tuned_readRelay {r reader : FrameReader} {items : List FrameItem} {bytes : Bytes}
    {last : Nat} (ht : n.Tuned log last) (hfits : n.Fits)
    (hlink : n.life.link = some (.relay connection r))
    (hholds : reader.Holds n.codec (streamOf connection log ++ bytes))
    (hitems : items.filterMap Except.toOption = framesIn n.codec log (.chunk connection bytes)) :
    Node.Tuned { n with life := readRelay n.config.kind connection reader items n.life }
      (log ++ [.chunk connection bytes]) last := by
  -- That a client is marked when the stream is over does not matter for what it hears.
  have hread : ∀ t : Lifecycle Link, t.link = some (.relay connection reader) →
      (∀ fs, n.life.traffic.Takes fs →
        t.traffic.Takes (fs ++ framesIn n.codec log (.chunk connection bytes))) →
      Node.Tuned { n with life := t } (log ++ [.chunk connection bytes]) last := by
    intro t hl htraffic
    refine ht.chunk (ht.relay connection r hlink).1 ?_ htraffic ?_ ?_
    · intro number target other received deadline hcurrent
      rw [hfits.unlinked _ _ hcurrent rfl] at hlink
      cases hlink
    · intro links inflows hmesh
      rw [hl] at hmesh
      cases hmesh
    · intro other reader' hrelay
      rw [hl] at hrelay
      cases hrelay
      exact ⟨rfl, r, hlink, hholds⟩
  have hone := hread ((n.life.modifyTraffic fun traffic => traffic.receiveItems items).modifyLink
    fun _ => .relay connection reader)
    (by simp [Lifecycle.modifyLink, Lifecycle.modifyTraffic, hlink])
    fun fs hfs => hitems ▸ hfs.receiveItems items
  unfold readRelay
  dsimp only
  split
  · exact hone.relive (.receivingEnded _ _)
  · exact hone

/-- A client is closed when it stops reading from its relay. -/
theorem attends_readRelay {r reader : FrameReader} {items : List FrameItem} {lost : Nat → Prop}
    {kind : TransportKind} {t : Lifecycle Link} (hkind : kind ≠ .broker)
    (hlink : t.link = some (.relay connection r)) :
    Attends lost t (readRelay kind connection reader items t) := by
  unfold readRelay
  dsimp only
  split
  · exact .receivingEnded hkind _ _
  · next hreading =>
    refine ⟨id, fun _ group h => ?_, fun _ other side h => .inl ?_⟩
    · rw [hlink] at h
      cases h
    · unfold Listens Lifecycle.modifyLink Lifecycle.modifyTraffic at *
      dsimp only at h ⊢
      rw [hlink] at h ⊢
      exact ⟨h.1, h.2.1, hreading⟩

/-! ## Links take in what has come -/

theorem incomingAt_eq (hplace : n.inlet? place = some (connection, side)) :
    w.incomingAt n place = [.chunk connection (w.incoming connection side).unread] := by
  unfold incomingAt
  rw [hplace]

/-- A link without a reader at a place hears nothing there. -/
theorem incomingAt_of_none (hplace : n.inlet? place = none) : w.incomingAt n place = [] := by
  unfold incomingAt
  rw [hplace]

/-- A link that cannot make a move has nothing to read. -/
theorem unread_of_idle (hstuck : w.moveInlet i n place = none)
    (hplace : n.inlet? place = some (connection, side)) :
    (w.incoming connection side).unread = [] := by
  unfold Node.inlet? at hplace
  unfold moveInlet at hstuck
  cases hlink : n.life.link with
  | none => simp [hlink] at hplace
  | some link =>
    rw [hlink] at hplace hstuck
    cases link with
    | multicast group => cases hplace
    | broker link => cases hplace
    | mesh links inflows =>
      obtain ⟨f, hf, hreading⟩ := Option.bind_eq_some_iff.mp hplace
      dsimp only at hstuck
      rw [hf, Option.bind_some] at hstuck
      split at hreading
      · cases hreading
      · next hr =>
        cases hreading
        cases hread : w.moveReader n.codec f.connection .acceptor f.reader with
        | none => exact unread_of_stuck hr hread
        | some r =>
          simp only [moveInflow, hread, Bind.bind, Option.bind_some] at hstuck
          split at hstuck <;> cases hstuck
    | relay connection' reader =>
      dsimp only at hplace
      split at hplace
      · cases hplace
      · next hr =>
        cases hplace
        cases hread : w.moveReader n.codec connection .dialer reader with
        | none => exact unread_of_stuck hr hread
        | some r =>
          simp only [moveRelayLink, hread, Bind.bind, Option.bind_some] at hstuck
          split at hstuck <;> cases hstuck

/-- A link reads from connections that have been made. -/
theorem inlet_le {last : Nat} (ht : n.Tuned log last)
    (hplace : n.inlet? place = some (connection, side)) : connection ≤ last := by
  have hlistens := Node.listens_iff.mpr ⟨place, hplace⟩
  unfold Listens at hlistens
  split at hlistens
  · next links inflows hlink =>
    obtain ⟨-, f, hf, rfl, -⟩ := hlistens
    exact ((ht.mesh links inflows hlink).2 f hf).1
  · next other reader hlink =>
    obtain ⟨-, rfl, -⟩ := hlistens
    exact (ht.relay other reader hlink).1
  · exact absurd hlistens id

/-- Nothing is heard by a link that cannot make a move. -/
theorem tuned_of_idle {last : Nat} (hstuck : w.moveInlet i n place = none)
    (ht : n.Tuned log last) : n.Tuned (log ++ w.incomingAt n place) last := by
  cases hplace : n.inlet? place with
  | none =>
    rw [incomingAt_of_none hplace, List.append_nil]
    exact ht
  | some c =>
    obtain ⟨connection, side⟩ := c
    rw [incomingAt_eq hplace, unread_of_idle hstuck hplace]
    refine ht.silent (inlet_le ht hplace) (fun other => ite_self []) (fun _ => rfl) ?_
    rw [framesIn, List.append_nil, List.drop_length]

/-- The supervisor of a link to a broker changes only its own node, which has no other link. -/
theorem inward_moveSupervisor {link : BrokerLink} (h : w.moveSupervisor i n link = some v) :
    ∃ link' traffic, Inward w v i fun t =>
      { t with link := some (.broker link'), traffic := traffic } := by
  unfold moveSupervisor at h
  obtain ⟨⟨link', traffic, broker⟩, -, h⟩ := Option.bind_eq_some_iff.mp h
  cases h
  have hbroker : Inward w { w with broker := broker } i id :=
    .of_nodes_eq (w := w) (v := { w with broker := broker }) rfl rfl i
  exact ⟨link', traffic, hbroker.trans (Inward.modifyLife _ i _)⟩

theorem tuned_of_broker {link link' : BrokerLink} {traffic : Traffic} {last : Nat}
    (ht : n.Tuned log last) (hfits : n.Fits) (hlink : n.life.link = some (.broker link)) :
    Node.Tuned { n with life := { n.life with link := some (.broker link'), traffic := traffic } }
      log last where
  traffic hkind := absurd (hfits.link _ hlink).symm hkind
  within := ht.within
  mesh _ _ hl := by cases hl
  relay _ _ hl := by cases hl
  greeting := ht.greeting

/-- A link leaves the other nodes as they are. -/
theorem exists_inward_moveInlet (h : w.moveInlet j n place = some v) : ∃ f, Inward w v j f := by
  unfold moveInlet at h
  cases hlink : n.life.link with
  | none => simp [hlink] at h
  | some link =>
    rw [hlink] at h
    cases link with
    | multicast group => cases h
    | mesh links inflows =>
      obtain ⟨f, -, h⟩ := Option.bind_eq_some_iff.mp h
      obtain ⟨u, reader, items, -, hinward⟩ := inward_moveInflow h
      exact ⟨_, hinward⟩
    | relay connection r =>
      obtain ⟨u, reader, items, -, hinward⟩ := inward_moveRelayLink h
      exact ⟨_, hinward⟩
    | broker link =>
      obtain ⟨link', traffic, hinward⟩ := inward_moveSupervisor h
      exact ⟨_, hinward⟩

/-- The connections of the node at a place that are given up when something happens to an open
transport: streams that are over, and streams whose sockets fail. -/
def GivesUp (w : World) (i : Nat) (n : Node) (log : List Sound) : Happening → Nat → Prop
  | .takeIn j place, connection => j = i ∧ ∃ side,
    n.inlet? place = some (connection, side) ∧ w.Over n.codec log connection side
  | .failInflow j place, connection => j = i ∧ n.inlet? place = some (connection, .acceptor)
  | _, _ => False

/-- A link reads from one of its streams, or its broker is attended to. -/
theorem tuned_moveInlet (hfits : n.Fits)
    (h : w.moveInlet i n place = some v) (ht : n.Tuned log w.lastConnection) :
    ∃ f, Inward w v i f ∧
      Node.Tuned { n with life := f n.life } (log ++ w.incomingAt n place) w.lastConnection ∧
        Attends (w.GivesUp i n log (.takeIn i place)) n.life (f n.life) := by
  unfold moveInlet at h
  cases hlink : n.life.link with
  | none => simp [hlink] at h
  | some link =>
    rw [hlink] at h
    cases link with
    | multicast group => cases h
    | mesh links inflows =>
      obtain ⟨f, hf, h⟩ := Option.bind_eq_some_iff.mp h
      have hmem := List.mem_of_getElem? hf
      obtain ⟨u, reader, items, hread, hinward⟩ := inward_moveInflow h
      obtain ⟨hreading, hholds, hitems, hover⟩ :=
        moveReader_spec hread ((ht.mesh links inflows hlink).2 f hmem).2
      have hplace : n.inlet? place = some (f.connection, .acceptor) := by
        simp [Node.inlet?, hlink, hf, hreading]
      refine ⟨_, hinward, ?_, attends_readInflow (fun hstopped => ?_) n.life⟩
      · rw [incomingAt_eq hplace]
        exact tuned_readInflow ht hfits hlink hmem hholds hitems
      · exact ⟨rfl, .acceptor, hplace, hover hstopped⟩
    | relay connection r =>
      obtain ⟨u, reader, items, hread, hinward⟩ := inward_moveRelayLink h
      obtain ⟨hreading, hholds, hitems, -⟩ :=
        moveReader_spec hread (ht.relay connection r hlink).2.1
      have hplace : n.inlet? place = some (connection, .dialer) := by
        simp [Node.inlet?, hlink, hreading]
      have hkind : n.config.kind ≠ .broker := by
        rw [← hfits.link _ hlink]
        simp [Link.kind]
      refine ⟨_, hinward, ?_, attends_readRelay hkind hlink⟩
      rw [incomingAt_eq hplace]
      exact tuned_readRelay ht hfits hlink hholds hitems
    | broker link =>
      obtain ⟨link', traffic, hinward⟩ := inward_moveSupervisor h
      have hplace : n.inlet? place = none := by simp [Node.inlet?, hlink]
      refine ⟨_, hinward, ?_, .of_deaf (fun l hl => ?_) rfl⟩
      · rw [incomingAt_of_none hplace, List.append_nil]
        exact tuned_of_broker ht hfits hlink
      · rw [hlink] at hl
        cases hl
        rfl

theorem Lived.tuned_takeIn (hl : Lived hs w) (ht : w.Tuned i log) (j place : Nat) :
    HearsOn w (w.after (.takeIn j place)) i log (fun n => w.heardBy i n (.takeIn j place))
      fun n => w.GivesUp i n log (.takeIn j place) := by
  have hstill : w.after (.takeIn j place) = w →
      (∀ x, w.nodes[j]? = some x → w.moveInlet j x place = none) →
      HearsOn w (w.after (.takeIn j place)) i log (fun n => w.heardBy i n (.takeIn j place))
        fun n => w.GivesUp i n log (.takeIn j place) := by
    intro hafter hstuck m hm
    rw [hafter] at hm ⊢
    refine ⟨m, hm, ?_, .refl m.life⟩
    unfold heardBy
    dsimp only
    split
    · next hij => exact tuned_of_idle (hstuck m (hij ▸ hm)) (ht m hm)
    · rw [List.append_nil]
      exact ht m hm
  cases hx : w.nodes[j]? with
  | none => exact hstill (by simp [after, onNode, hx]) (by simp [hx])
  | some x =>
    cases hv : w.moveInlet j x place with
    | none =>
      refine hstill (by simp [after, onNode, hx, hv]) fun y hy => ?_
      rw [hx] at hy
      cases hy
      exact hv
    | some v =>
      have hafter : w.after (.takeIn j place) = v := by simp [after, onNode, hx, hv]
      rw [hafter]
      by_cases hij : j = i
      · subst hij
        obtain ⟨f, hinward, htuned, hattends⟩ :=
          tuned_moveInlet (hl.nodes j x hx).living.fits hv (ht x hx)
        refine hinward.tuned ht (fun n hn _ _ => ?_) fun _ hne => absurd rfl hne
        rw [hx] at hn
        cases hn
        exact ⟨by simpa [heardBy] using htuned, hattends⟩
      · obtain ⟨f, hinward⟩ := exists_inward_moveInlet hv
        exact hinward.tuned ht (fun _ _ heq => absurd heq hij) fun _ _ => by simp [heardBy, hij]

/-! ## Sockets fail -/

theorem inward_foldl_abandon (inflows : List Inflow) (w : World) (i : Nat) :
    Inward w (inflows.foldl (fun w inflow => w.abandon inflow.connection .acceptor) w) i id := by
  induction inflows generalizing w with
  | nil => exact .of_nodes_eq rfl rfl i
  | cons f inflows ih => exact (Inward.abandon w f.connection .acceptor i).trans (ih _)

/-- A transport is closed when the socket fails that its link lives by. -/
theorem Lived.tuned_failLink (hl : Lived hs w) (ht : w.Tuned i log) (j : Nat) :
    StaysTuned w (w.after (.failLink j)) i log fun _ => [] := by
  cases hx : w.nodes[j]? with
  | none =>
    have hafter : w.after (.failLink j) = w := by simp [after, onNode, hx]
    rw [hafter]
    exact ht.stays rfl (Nat.le_refl _)
  | some x =>
    have hafter : w.after (.failLink j) = w.failLink j x := by simp [after, onNode, hx]
    rw [hafter]
    unfold failLink
    -- Whatever else becomes of its life, it is marked in the end.
    have hends : ∀ {u : World} {f : Lifecycle Link → Lifecycle Link} (link : Link),
        x.life.link = some link → link.kind ≠ .broker → Inward w u j f →
        (∀ n, w.nodes[j]? = some n → Heeds n.life (f n.life)) →
        StaysTuned w (u.modifyLife j fun t => t.receivingEnded x.config.kind) i log
          fun _ => [] := by
      intro u f link hlink hkind hinward hheeds
      rw [(hl.nodes j x hx).living.fits.link link hlink] at hkind
      exact (hinward.trans (Inward.modifyLife u j _)).tuned_of_heeds
        (fun n hn => (hheeds n hn).trans (.receivingEnded _ _))
        (fun _ _ _ _ => .receivingEnded hkind _ _) ht
    cases hlink : x.life.link with
    | none => exact ht.stays rfl (Nat.le_refl _)
    | some link =>
      cases link with
      | broker link => exact ht.stays rfl (Nat.le_refl _)
      | multicast group =>
        exact hends _ hlink (by simp [Link.kind]) (.of_nodes_eq rfl rfl j) fun n _ => .refl n.life
      | mesh links inflows =>
        exact hends _ hlink (by simp [Link.kind]) ((inward_foldl_abandon inflows w j).trans
          (Inward.modifyLife _ j fun t => t.modifyLink fun l => l.modifyInflows fun _ => []))
          fun n _ => Heeds.modifyInflows (fun _ => List.nil_sublist _) n.life
      | relay connection reader =>
        refine hends _ hlink (by simp [Link.kind])
          (Inward.modifyLife w j fun t => t.modifyLink fun _ => .relay connection .stopped)
          fun n hn => ?_
        rw [hx] at hn
        cases hn
        refine ⟨fun _ h => h, fun links inflows h => ?_, fun other r h => ?_⟩
        · simp [Lifecycle.modifyLink, hlink] at h
        · simp only [Lifecycle.modifyLink, hlink, Option.map_some, Option.some.injEq,
            Link.relay.injEq] at h
          obtain ⟨rfl, rfl⟩ := h
          exact ⟨reader, hlink, .inr rfl⟩

/-- A member of a mesh gives up one of its streams. -/
theorem tuned_failInflow (ht : w.Tuned i log) (j place : Nat) :
    HearsOn w (w.after (.failInflow j place)) i log (fun _ => [])
      fun n => w.GivesUp i n log (.failInflow j place) := by
  have hstill : StaysTuned w w i log fun _ => [] := ht.stays rfl (Nat.le_refl _)
  cases hx : w.nodes[j]? with
  | none =>
    have hafter : w.after (.failInflow j place) = w := by simp [after, onNode, hx]
    rw [hafter]
    exact hstill.hearsOn
  | some x =>
    have hafter : w.after (.failInflow j place) = w.failInflow j x place := by
      simp [after, onNode, hx]
    rw [hafter]
    unfold failInflow
    split
    · next links inflows hlink =>
      split
      · next f hf =>
        have hdropped := (Inward.abandon w f.connection .acceptor j).trans
          (Inward.modifyLife _ j fun t => t.modifyLink fun l => l.modifyInflows fun fs =>
            fs.filter fun g => g.connection ≠ f.connection)
        refine hdropped.tuned_of_heeds
          (fun n _ => Heeds.modifyInflows (fun _ => List.filter_sublist) n.life)
          (fun n hn hij htuned => .modifyInflows fun links' inflows' hlink' g hg hreading => ?_) ht
        rw [hx] at hn
        cases hn
        rw [hlink] at hlink'
        cases hlink'
        by_cases hsame : g.connection = f.connection
        · have hfg : g = f := List.inj_on_of_nodup_map (htuned.mesh links inflows hlink).1 hg
            (List.mem_of_getElem? hf) hsame
          subst hfg
          exact .inr ⟨hij, by simp [Node.inlet?, hlink, hf, hreading]⟩
        · exact .inl ⟨g, List.mem_filter.mpr ⟨hg, by simpa using hsame⟩, rfl, hreading⟩
      · exact hstill.hearsOn
    · exact hstill.hearsOn

/-! ## Everything that happens -/

theorem tuned_dial (ht : w.Tuned i log) (j : Nat) :
    StaysTuned w (w.after (.dial j)) i log fun _ => [] := by
  have hstill : w.after (.dial j) = w → StaysTuned w (w.after (.dial j)) i log fun _ => [] := by
    intro h
    rw [h]
    exact ht.stays rfl (Nat.le_refl _)
  cases hx : w.nodes[j]? with
  | none => exact hstill (by simp [after, onNode, hx])
  | some x =>
    cases ha : nodeAddress? x with
    | none => exact hstill (by simp [after, onNode, hx, ha])
    | some a =>
      have hafter : w.after (.dial j) = w.newStream.2.accept w.newStream.1 (.node j) := by
        simp [after, onNode, hx, ha]
      rw [hafter]
      exact (w.around_accept (.node j)).tuned ht

/-- Whatever happens, a node stays in tune and goes on listening. -/
theorem Lived.tuned_after (hl : Lived hs w) (hnumbers : (callNumbers hs).Nodup)
    (ht : w.Tuned i log) (h : Happening) :
    HearsOn w (w.after h) i log (fun n => w.heardBy i n h) fun n => w.GivesUp i n log h := by
  cases h with
  | call j number request => exact hl.tuned_call ht j number request
  | turn j => exact hl.tuned_turn hnumbers ht j
  | proceed j => exact hl.tuned_proceed ht j
  | takeIn j place => exact hl.tuned_takeIn ht j place
  | failLink j => exact hl.tuned_failLink ht j
  | failInflow j place => exact tuned_failInflow ht j place
  | dial j => exact tuned_dial ht j
  | datagram d => exact (w.around_castDatagram d).tuned ht
  | elsewhere u =>
    have hlater : w.lastConnection ≤ (w.surroundedBy u).lastConnection := Nat.le_max_left _ _
    exact ht.stays rfl hlater

/-- What a node has heard before and hears then. -/
theorem Lived.tuned_run (hl : Lived hs w) (more : List Happening)
    (hnumbers : (callNumbers (hs ++ more)).Nodup) (ht : w.Tuned i log) :
    (w.run more).Tuned i (log ++ heard i w more) := by
  induction more generalizing hs w log with
  | nil => exact (List.append_nil log).symm ▸ ht
  | cons h more ih =>
    have hassoc : hs ++ h :: more = (hs ++ [h]) ++ more := by simp
    rw [hassoc] at hnumbers
    have hnext := hl.run [h] (nodup_of_append hnumbers)
    have hstep : (w.after h).Tuned i (log ++ w.heardAt i h) := by
      intro m hm
      obtain ⟨n, hn, htuned, -⟩ :=
        hl.tuned_after (nodup_of_append (nodup_of_append hnumbers)) ht h m hm
      have hheard : w.heardAt i h = w.heardBy i n h := by
        unfold heardAt
        rw [hn]
      rw [hheard]
      exact htuned
    have hlater := ih hnext hnumbers hstep
    rw [List.append_assoc] at hlater
    exact hlater

end EvictionBus.Net.World
