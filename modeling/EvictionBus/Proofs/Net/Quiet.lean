import EvictionBus.Proofs.Net.Life

/-!
# What happens without calls

Links take in what has come, sockets fail, streams and datagrams arrive. None of it makes a call or
lets one return; the lives of the transports go on.
-/

namespace EvictionBus.Net.World

/-- From one world to the next nothing is called and nothing returns. -/
structure Quiet (w v : World) : Prop where
  returned : v.returned = w.returned
  nodes : ∀ j : Nat, ∃ f : Node → Node, v.nodes[j]? = (w.nodes[j]?).map f ∧
    ∀ n, w.nodes[j]? = some n → n.Rests (f n)

variable {w u v : World} {i : Nat} {n : Node}

namespace Quiet

theorem refl (w : World) : Quiet w w :=
  ⟨rfl, fun _ => ⟨id, by simp, fun n _ => .refl n⟩⟩

theorem trans (h : Quiet w u) (hnext : Quiet u v) : Quiet w v where
  returned := hnext.returned.trans h.returned
  nodes j := by
    obtain ⟨f, hu, hf⟩ := h.nodes j
    obtain ⟨g, hv, hg⟩ := hnext.nodes j
    refine ⟨g ∘ f, by rw [hv, hu, Option.map_map], fun n hn => (hf n hn).trans (hg (f n) ?_)⟩
    rw [hu, hn]
    rfl

theorem of_around {ds : List Datagram} (h : Around ds w v) : Quiet w v where
  returned := h.returned
  nodes j := by
    obtain ⟨connections, -, hnode⟩ := h.nodes j
    exact ⟨_, hnode, fun n _ => .reach n ds connections⟩

theorem of_nodes_eq (hnodes : v.nodes = w.nodes) (hreturned : v.returned = w.returned) :
    Quiet w v :=
  ⟨hreturned, fun _ => ⟨id, by simp [hnodes], fun n _ => .refl n⟩⟩

/-- The life of one node goes on. -/
theorem modifyLife (w : World) {f : Lifecycle Link → Lifecycle Link}
    (hf : ∀ n, w.nodes[i]? = some n → Continues n.life (f n.life)) :
    Quiet w (w.modifyLife i f) where
  returned := rfl
  nodes j := by
    unfold World.modifyLife
    rw [getElem?_modifyNode]
    by_cases hij : i = j
    · subst hij
      rw [if_pos rfl]
      exact ⟨_, rfl, fun n hn => ⟨rfl, rfl, rfl, rfl, hf n hn⟩⟩
    · rw [if_neg hij]
      exact ⟨id, by simp, fun n _ => .refl n⟩

theorem exists_node (h : Quiet w v) (hn : w.nodes[i]? = some n) :
    ∃ m, v.nodes[i]? = some m ∧ n.Rests m := by
  obtain ⟨f, hv, hf⟩ := h.nodes i
  exact ⟨f n, by rw [hv, hn]; rfl, hf n hn⟩

theorem node_of_after {m : Node} (h : Quiet w v) (hm : v.nodes[i]? = some m) :
    ∃ n, w.nodes[i]? = some n ∧ n.Rests m := by
  obtain ⟨f, hv, hf⟩ := h.nodes i
  rw [hv] at hm
  obtain ⟨n, hn, rfl⟩ := Option.map_eq_some_iff.mp hm
  exact ⟨n, hn, hf n hn⟩

end Quiet

/-! ## Links take in what has come -/

theorem around_of_moveReader {c : Codec} {connection : Nat} {side : Side} {r reader : FrameReader}
    {items : List FrameItem} (h : w.moveReader c connection side r = some (v, reader, items)) :
    Around [] w v := by
  unfold moveReader at h
  dsimp only at h
  split at h
  · cases h
  · split at h
    · cases h
      exact w.around_read connection side _
    · split at h
      · cases h
        exact .refl w
      · cases h

theorem quiet_takeItems (w : World) (i : Nat) (items : List FrameItem) :
    Quiet w (w.takeItems i items) :=
  .modifyLife w fun n _ => ⟨id, n.life.traffic.sent_receiveItems items, rfl⟩

theorem quiet_modifyInflows (w : World) (i : Nat) (f : List Inflow → List Inflow) :
    Quiet w (w.modifyInflows i f) :=
  .modifyLife w fun n _ => .modifyLink (Link.kind_modifyInflows f) n.life

theorem quiet_dropInflow (w : World) (i connection : Nat) : Quiet w (w.dropInflow i connection) :=
  (Quiet.of_around (w.around_abandon connection .acceptor)).trans (quiet_modifyInflows _ i _)

theorem quiet_receivingEnded (w : World) (i : Nat) (kind : TransportKind) :
    Quiet w (w.modifyLife i fun t => t.receivingEnded kind) :=
  .modifyLife w fun n _ => .receivingEnded kind n.life

theorem quiet_moveInflow {inflow : Inflow} (h : w.moveInflow i n inflow = some v) :
    Quiet w v := by
  unfold moveInflow at h
  obtain ⟨⟨u, reader, items⟩, hread, h⟩ := Option.bind_eq_some_iff.mp h
  have hu := (Quiet.of_around (around_of_moveReader hread)).trans (quiet_takeItems u i items)
  dsimp only at h
  split at h
  · cases h
    exact hu.trans (quiet_dropInflow _ i inflow.connection)
  · cases h
    exact hu.trans (quiet_modifyInflows _ i _)

/-- The reader of a link to a relay is replaced. -/
theorem quiet_reader {connection : Nat} {r : FrameReader} (hn : w.nodes[i]? = some n)
    (hlink : n.life.link = some (.relay connection r)) (reader : FrameReader) :
    Quiet w (w.modifyLife i fun t => t.modifyLink fun _ => .relay connection reader) := by
  refine .modifyLife w fun m hm => ?_
  rw [hn] at hm
  cases hm
  refine ⟨id, rfl, ?_⟩
  simp [Lifecycle.modifyLink, hlink, Link.kind]

theorem quiet_moveRelayLink (hn : w.nodes[i]? = some n) {connection : Nat} {r : FrameReader}
    (hlink : n.life.link = some (.relay connection r))
    (h : w.moveRelayLink i n connection r = some v) : Quiet w v := by
  unfold moveRelayLink at h
  obtain ⟨⟨u, reader, items⟩, hread, h⟩ := Option.bind_eq_some_iff.mp h
  have haround := around_of_moveReader hread
  have hu := (Quiet.of_around haround).trans (quiet_takeItems u i items)
  obtain ⟨connections, -, hnode⟩ := haround.exists_node hn
  have htaken : ∃ m, (u.takeItems i items).nodes[i]? = some m ∧
      m.life.link = some (.relay connection r) := by
    refine ⟨_, by unfold takeItems modifyLife; rw [getElem?_modifyNode, if_pos rfl, hnode]; rfl, ?_⟩
    simp [Lifecycle.modifyTraffic, Node.reach, Node.link_join, hlink, Link.modifyInflows]
  obtain ⟨m, hm, hmlink⟩ := htaken
  have hrelay := hu.trans (quiet_reader hm hmlink reader)
  dsimp only at h
  split at h
  · cases h
    exact hrelay.trans (quiet_receivingEnded _ i n.config.kind)
  · cases h
    exact hrelay

theorem quiet_moveSupervisor (hn : w.nodes[i]? = some n) {link : BrokerLink}
    (hlink : n.life.link = some (.broker link)) (h : w.moveSupervisor i n link = some v) :
    Quiet w v := by
  unfold moveSupervisor at h
  obtain ⟨⟨after, traffic, broker⟩, hmove, h⟩ := Option.bind_eq_some_iff.mp h
  cases h
  have hu : Quiet w { w with broker := broker } := .of_nodes_eq rfl rfl
  refine hu.trans (.modifyLife _ fun m hm => ?_)
  rw [hn] at hm
  cases hm
  refine ⟨id, BrokerLink.sent_of_move hmove, ?_⟩
  simp [hlink, Link.kind]

theorem quiet_moveInlet (hn : w.nodes[i]? = some n) {place : Nat}
    (h : w.moveInlet i n place = some v) : Quiet w v := by
  unfold moveInlet at h
  cases hlink : n.life.link with
  | none =>
    rw [hlink] at h
    cases h
  | some link =>
    rw [hlink] at h
    cases link with
    | multicast group => cases h
    | mesh links inflows =>
      obtain ⟨inflow, -, h⟩ := Option.bind_eq_some_iff.mp h
      exact quiet_moveInflow h
    | relay connection reader => exact quiet_moveRelayLink hn hlink h
    | broker link => exact quiet_moveSupervisor hn hlink h

/-! ## Sockets fail -/

theorem quiet_failLink (hn : w.nodes[i]? = some n) : Quiet w (w.failLink i n) := by
  unfold failLink
  cases hlink : n.life.link with
  | none => exact .refl w
  | some link =>
    cases link with
    | multicast group => exact quiet_receivingEnded w i n.config.kind
    | mesh links inflows =>
      have hclosed := Quiet.of_around
        (around_foldl_abandon .acceptor Inflow.connection inflows w)
      exact (hclosed.trans (quiet_modifyInflows _ i _)).trans
        (quiet_receivingEnded _ i n.config.kind)
    | relay connection reader =>
      exact (quiet_reader hn hlink .stopped).trans (quiet_receivingEnded _ i n.config.kind)
    | broker link => exact .refl w

theorem quiet_failInflow (w : World) (i : Nat) (n : Node) (place : Nat) :
    Quiet w (w.failInflow i n place) := by
  unfold failInflow
  split
  · split
    · exact w.quiet_dropInflow i _
    · exact .refl w
  · exact .refl w

/-! ## Everything that is no call -/

/-- What one node does by itself. -/
theorem quiet_onNode {move : Node → Option World}
    (hmove : ∀ n v, w.nodes[i]? = some n → move n = some v → Quiet w v) :
    Quiet w (w.onNode i move) := by
  unfold onNode
  cases hv : w.nodes[i]?.bind move with
  | none => exact .refl w
  | some v =>
    obtain ⟨n, hn, hv⟩ := Option.bind_eq_some_iff.mp hv
    exact hmove n v hn hv

theorem quiet_takeIn (w : World) (i place : Nat) : Quiet w (w.after (.takeIn i place)) :=
  quiet_onNode fun _ _ hn hv => quiet_moveInlet hn hv

theorem quiet_failLink_after (w : World) (i : Nat) : Quiet w (w.after (.failLink i)) := by
  refine quiet_onNode fun n v hn hv => ?_
  cases hv
  exact quiet_failLink hn

theorem quiet_failInflow_after (w : World) (i place : Nat) :
    Quiet w (w.after (.failInflow i place)) := by
  refine quiet_onNode fun n v _ hv => ?_
  cases hv
  exact w.quiet_failInflow i n place

theorem quiet_dial (w : World) (i : Nat) : Quiet w (w.after (.dial i)) := by
  refine quiet_onNode fun n v _ hv => ?_
  obtain ⟨a, -, rfl⟩ := Option.map_eq_some_iff.mp hv
  exact .of_around (w.around_accept (.node i))

end EvictionBus.Net.World
