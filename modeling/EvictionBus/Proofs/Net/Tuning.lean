import EvictionBus.Proofs.Net.Paths
import EvictionBus.Proofs.Net.Sounds

/-!
# A node in tune with what it has heard

The traffic of a node is that of the frames in the record of what it has heard, and its readers hold
the rests of the streams in it. Connections are told apart by their numbers: a stream that a node
begins to read is a new one, or the one on which it has been welcomed.

Two lives, one after the other, are compared by what they read from. The later one may read from
nothing new (`Heeds`), and while it is open it gives nothing up (`Attends`).
-/

namespace EvictionBus.Net

namespace Node

/-- The connection that a link reads from at a place, and its side of it. -/
def inlet? (n : Node) (place : Nat) : Option (Nat × Side) :=
  match n.life.link with
  | some (.mesh _ inflows) => inflows[place]?.bind fun f =>
    if f.reader = .stopped then none else some (f.connection, .acceptor)
  | some (.relay connection reader) =>
    if reader = .stopped then none else some (connection, .dialer)
  | _ => none

/-- The datagrams that a node takes in. -/
def overhears (n : Node) (ds : List Datagram) : List Sound :=
  (ds.filter fun d => n.hearsPort d.port).map fun d => .datagram d.bytes

/-- A node that has heard what is recorded, when connections up to a number have been made. -/
structure Tuned (n : Node) (log : List Sound) (last : Nat) : Prop where
  traffic : n.config.kind ≠ .broker → n.life.traffic.Takes (framesOf n.codec log)
  within : ∀ s ∈ log, s.Within last
  mesh : ∀ links inflows, n.life.link = some (.mesh links inflows) →
    (inflows.map Inflow.connection).Nodup ∧ ∀ f ∈ inflows, f.connection ≤ last ∧
      f.reader.Holds n.codec (streamOf f.connection log)
  relay : ∀ connection reader, n.life.link = some (.relay connection reader) →
    connection ≤ last ∧ reader.Holds n.codec (streamOf connection log) ∧
      (answerOn connection log).length = headerSize ∧
        RelayClient.judge n.codec (answerOn connection log) = some (.ok ())
  greeting : ∀ number target connection received deadline,
    n.current = some (number, .greeting target connection received deadline) →
      connection ≤ last ∧ received = answerOn connection log ∧ received.length ≤ headerSize ∧
        streamOf connection log = []

end Node

/-- The second life reads from nothing but what the first one reads from, and has taken in the same
frames. -/
structure Heeds (t s : Lifecycle Link) : Prop where
  traffic : ∀ fs, t.traffic.Takes fs → s.traffic.Takes fs
  mesh : ∀ links inflows, s.link = some (.mesh links inflows) →
    ∃ links' inflows', t.link = some (.mesh links' inflows') ∧ inflows.Sublist inflows'
  relay : ∀ connection reader, s.link = some (.relay connection reader) →
    ∃ reader', t.link = some (.relay connection reader') ∧ (reader = reader' ∨ reader = .stopped)

namespace Heeds

variable {t s r : Lifecycle Link}

theorem of_link_eq (htraffic : ∀ fs, t.traffic.Takes fs → s.traffic.Takes fs)
    (hlink : s.link = t.link) : Heeds t s where
  traffic := htraffic
  mesh links inflows h := ⟨links, inflows, hlink ▸ h, .refl inflows⟩
  relay _ reader h := ⟨reader, hlink ▸ h, .inl rfl⟩

theorem refl (t : Lifecycle Link) : Heeds t t :=
  of_link_eq (fun _ h => h) rfl

theorem trans (h : Heeds t s) (hnext : Heeds s r) : Heeds t r where
  traffic fs ht := hnext.traffic fs (h.traffic fs ht)
  mesh links inflows hr := by
    obtain ⟨links', inflows', hs, hsub⟩ := hnext.mesh links inflows hr
    obtain ⟨links'', inflows'', ht, hsub'⟩ := h.mesh links' inflows' hs
    exact ⟨links'', inflows'', ht, hsub.trans hsub'⟩
  relay connection reader hr := by
    obtain ⟨reader', hs, hreader⟩ := hnext.relay connection reader hr
    obtain ⟨reader'', ht, hreader'⟩ := h.relay connection reader' hs
    refine ⟨reader'', ht, ?_⟩
    rcases hreader with rfl | rfl
    · exact hreader'
    · exact .inr rfl

theorem markClosed (t : Lifecycle Link) : Heeds t t.markClosed :=
  of_link_eq (fun _ h => h) rfl

theorem startFailed (kind : TransportKind) (t : Lifecycle Link) :
    Heeds t (t.startFailed kind) := by
  cases kind with
  | relay => exact markClosed t
  | _ => exact refl t

theorem sendFailed (kind : TransportKind) (t : Lifecycle Link) : Heeds t (t.sendFailed kind) := by
  cases kind with
  | relay => exact markClosed t
  | _ => exact refl t

theorem receivingEnded (kind : TransportKind) (t : Lifecycle Link) :
    Heeds t (t.receivingEnded kind) := by
  cases kind with
  | broker => exact refl t
  | _ => exact markClosed t

theorem countSent (t : Lifecycle Link) : Heeds t t.countSent :=
  of_link_eq (fun _ h => h.countSent) rfl

theorem released (t : Lifecycle Link) : Heeds t t.released where
  traffic _ h := h
  mesh links inflows h := by cases h
  relay connection reader h := by cases h

theorem relinked (links? : Option MeshLinks) (t : Lifecycle Link) :
    Heeds t (Net.relinked links? t) := by
  cases links? with
  | none => exact refl t
  | some links =>
    refine ⟨fun _ h => h, fun links' inflows h => ?_, fun connection reader h => ?_⟩
    · obtain ⟨l, hl, hwith⟩ := Option.map_eq_some_iff.mp h
      cases l with
      | mesh links'' inflows' =>
        cases hwith
        exact ⟨links'', inflows, hl, .refl inflows⟩
      | _ => cases hwith
    · obtain ⟨l, hl, hwith⟩ := Option.map_eq_some_iff.mp h
      cases l with
      | relay connection' reader' =>
        cases hwith
        exact ⟨reader, hl, .inl rfl⟩
      | _ => cases hwith

/-- Some streams from other members of a mesh are not read any more. -/
theorem modifyInflows {f : List Inflow → List Inflow} (hf : ∀ inflows, (f inflows).Sublist inflows)
    (t : Lifecycle Link) : Heeds t (t.modifyLink fun l => l.modifyInflows f) := by
  refine ⟨fun _ h => h, fun links inflows h => ?_, fun connection reader h => ?_⟩
  · obtain ⟨l, hl, hmodify⟩ := Option.map_eq_some_iff.mp h
    cases l with
    | mesh links' inflows' =>
      cases hmodify
      exact ⟨links, inflows', hl, hf inflows'⟩
    | _ => cases hmodify
  · obtain ⟨l, hl, hmodify⟩ := Option.map_eq_some_iff.mp h
    cases l with
    | relay connection' reader' =>
      cases hmodify
      exact ⟨reader, hl, .inl rfl⟩
    | _ => cases hmodify

end Heeds

/-- Whether a link reads from a side of a connection. -/
def Listens (t : Lifecycle Link) (connection : Nat) (side : Side) : Prop :=
  match t.link with
  | some (.mesh _ inflows) =>
    side = .acceptor ∧ ∃ f ∈ inflows, f.connection = connection ∧ f.reader ≠ .stopped
  | some (.relay other reader) => side = .dialer ∧ other = connection ∧ reader ≠ .stopped
  | _ => False

theorem Node.listens_iff {n : Node} {connection : Nat} {side : Side} :
    Listens n.life connection side ↔ ∃ place, n.inlet? place = some (connection, side) := by
  unfold Listens inlet?
  constructor
  · intro h
    split at h
    · next links inflows hlink =>
      obtain ⟨rfl, f, hf, rfl, hreading⟩ := h
      obtain ⟨place, hplace⟩ := List.getElem?_of_mem hf
      exact ⟨place, by simp [hplace, hreading]⟩
    · next other reader hlink =>
      obtain ⟨rfl, rfl, hreading⟩ := h
      exact ⟨0, if_neg hreading⟩
    · exact absurd h id
  · rintro ⟨place, h⟩
    split at h
    · next links inflows hlink =>
      obtain ⟨f, hf, h⟩ := Option.bind_eq_some_iff.mp h
      split at h
      · cases h
      · next hreading =>
        cases h
        exact ⟨rfl, f, List.mem_of_getElem? hf, rfl, hreading⟩
    · next other reader hlink =>
      split at h
      · cases h
      · next hreading =>
        cases h
        exact ⟨rfl, rfl, hreading⟩
    · cases h

/-- Unless it is closed, the second life listens to everything that the first one listens to, but
for connections that are given up. -/
structure Attends (lost : Nat → Prop) (t s : Lifecycle Link) : Prop where
  open_before : s.closed = false → t.closed = false
  group : s.closed = false → ∀ group, t.link = some (.multicast group) →
    s.link = some (.multicast group)
  streams : s.closed = false → ∀ connection side, Listens t connection side →
    Listens s connection side ∨ lost connection

namespace Attends

variable {lost : Nat → Prop} {t s r : Lifecycle Link}

theorem of_closed (h : s.closed = true) : Attends lost t s where
  open_before hopen := absurd h (by simp [hopen])
  group hopen := absurd h (by simp [hopen])
  streams hopen := absurd h (by simp [hopen])

theorem of_link_eq (hlink : s.link = t.link) (hclosed : t.closed = s.closed) :
    Attends lost t s where
  open_before hopen := hclosed.trans hopen
  group _ group h := hlink.trans h
  streams _ connection side h := by
    refine .inl ?_
    unfold Listens at h ⊢
    rw [hlink]
    exact h

theorem refl (t : Lifecycle Link) : Attends lost t t :=
  of_link_eq rfl rfl

theorem trans (h : Attends (fun _ => False) t s) (hnext : Attends lost s r) : Attends lost t r where
  open_before hopen := h.open_before (hnext.open_before hopen)
  group hopen group ht := hnext.group hopen group (h.group (hnext.open_before hopen) group ht)
  streams hopen connection side ht := by
    have hs := h.streams (hnext.open_before hopen) connection side ht
    exact hnext.streams hopen connection side (hs.resolve_right id)

theorem startFailed (kind : TransportKind) (t : Lifecycle Link) :
    Attends lost t (t.startFailed kind) := by
  cases kind with
  | relay => exact of_closed rfl
  | _ => exact refl t

theorem sendFailed (kind : TransportKind) (t : Lifecycle Link) :
    Attends lost t (t.sendFailed kind) := by
  cases kind with
  | relay => exact of_closed rfl
  | _ => exact refl t

theorem receivingEnded {kind : TransportKind} (hkind : kind ≠ .broker) (t s : Lifecycle Link) :
    Attends lost t (s.receivingEnded kind) := by
  cases kind with
  | broker => exact absurd rfl hkind
  | _ => exact of_closed rfl

/-- There is nothing to listen to without a link, nor on the link of a broker. -/
theorem of_deaf (hlink : ∀ l, t.link = some l → l.kind = .broker) (hclosed : t.closed = s.closed) :
    Attends lost t s where
  open_before hopen := hclosed.trans hopen
  group _ group h := by cases hlink _ h
  streams _ connection side h := by
    unfold Listens at h
    split at h
    · next hl => cases hlink _ hl
    · next hl => cases hlink _ hl
    · exact absurd h id

theorem modifyInflows {f : List Inflow → List Inflow}
    (hf : ∀ links inflows, t.link = some (.mesh links inflows) →
      ∀ inflow ∈ inflows, inflow.reader ≠ .stopped →
        (∃ later ∈ f inflows, later.connection = inflow.connection ∧ later.reader ≠ .stopped) ∨
          lost inflow.connection) :
    Attends lost t (t.modifyLink fun l => l.modifyInflows f) where
  open_before := id
  group _ group h := by
    unfold Lifecycle.modifyLink
    rw [h]
    rfl
  streams _ connection side h := by
    unfold Listens at h ⊢
    unfold Lifecycle.modifyLink
    cases hlink : t.link with
    | none =>
      rw [hlink] at h
      exact absurd h id
    | some l =>
      rw [hlink] at h
      cases l with
      | mesh links inflows =>
        obtain ⟨hside, inflow, hmem, rfl, hreading⟩ := h
        exact (hf links inflows hlink inflow hmem hreading).imp_left fun hlater => ⟨hside, hlater⟩
      | _ => exact .inl h

theorem relinked (links? : Option MeshLinks) (t : Lifecycle Link) :
    Attends lost t (Net.relinked links? t) := by
  cases links? with
  | none => exact refl t
  | some links =>
    have hlink : ∀ l, t.link = some l →
        (Net.relinked (some links) t).link = some (l.withLinks links) := by
      intro l hl
      unfold Net.relinked Lifecycle.modifyLink
      dsimp only
      rw [hl]
      rfl
    refine ⟨id, fun _ group h => hlink _ h, fun _ connection side h => .inl ?_⟩
    unfold Listens at h ⊢
    cases hl : t.link with
    | none =>
      rw [hl] at h
      exact absurd h id
    | some l =>
      rw [hlink l hl]
      rw [hl] at h
      cases l with
      | _ => exact h

theorem reach (n : Node) (ds : List Datagram) (connections : List Nat) :
    Attends lost n.life (n.reach ds connections).life := by
  have hheard : Attends (fun _ => False) n.life (n.takeDatagrams ds).life :=
    of_link_eq (n.link_takeDatagrams ds) (n.closed_takeDatagrams ds).symm
  refine hheard.trans (modifyInflows fun links inflows _ inflow hmem hreading => .inl ?_)
  exact ⟨inflow, List.mem_append_left _ hmem, rfl, hreading⟩

end Attends

namespace Node.Tuned

variable {n : Node} {log : List Sound} {last later number connection deadline : Nat}
  {target : String} {received bytes : Bytes}

theorem relive {t : Lifecycle Link} (h : n.Tuned log last) (ht : Heeds n.life t) :
    Node.Tuned { n with life := t } log last where
  traffic hkind := ht.traffic _ (h.traffic hkind)
  within := h.within
  mesh links inflows hlink := by
    obtain ⟨links', inflows', hl, hsub⟩ := ht.mesh links inflows hlink
    obtain ⟨hnodup, hall⟩ := h.mesh links' inflows' hl
    exact ⟨hnodup.sublist (hsub.map _), fun f hf => hall f (hsub.subset hf)⟩
  relay connection reader hlink := by
    obtain ⟨reader', hl, hreader⟩ := ht.relay connection reader hlink
    obtain ⟨hle, hholds, hanswer⟩ := h.relay connection reader' hl
    rcases hreader with rfl | rfl
    · exact ⟨hle, hholds, hanswer⟩
    · exact ⟨hle, fun _ hp => (by cases hp), hanswer⟩
  greeting := h.greeting

theorem fresh (hlife : n.life = .fresh) (hcurrent : n.current = none) : n.Tuned [] last where
  traffic _ := by
    rw [hlife]
    exact .start
  within := by simp
  mesh := by simp [hlife, Lifecycle.fresh]
  relay := by simp [hlife, Lifecycle.fresh]
  greeting := by simp [hcurrent]

theorem mono (h : n.Tuned log last) (hle : last ≤ later) : n.Tuned log later where
  traffic := h.traffic
  within s hs := by
    have hwithin := h.within s hs
    cases s with
    | datagram _ => trivial
    | _ => exact Nat.le_trans hwithin hle
  mesh links inflows hlink := by
    obtain ⟨hnodup, hall⟩ := h.mesh links inflows hlink
    exact ⟨hnodup, fun f hf => ⟨Nat.le_trans (hall f hf).1 hle, (hall f hf).2⟩⟩
  relay connection reader hlink := by
    obtain ⟨hconnection, hrest⟩ := h.relay connection reader hlink
    exact ⟨Nat.le_trans hconnection hle, hrest⟩
  greeting number target connection received deadline hcurrent := by
    obtain ⟨hconnection, hrest⟩ := h.greeting number target connection received deadline hcurrent
    exact ⟨Nat.le_trans hconnection hle, hrest⟩

/-! ### Calls -/

theorem requeue (h : n.Tuned log last) (queue : List (Nat × Request)) :
    Node.Tuned { n with queue := queue } log last :=
  ⟨h.traffic, h.within, h.mesh, h.relay, h.greeting⟩

theorem idle (h : n.Tuned log last) : Node.Tuned { n with current := none } log last :=
  ⟨h.traffic, h.within, h.mesh, h.relay, by simp⟩

/-- A call waits for something that is no welcome. -/
theorem busy (h : n.Tuned log last) {work : Work}
    (hwork : ∀ target connection received deadline,
      work ≠ .greeting target connection received deadline) :
    Node.Tuned { n with current := some (number, work) } log last where
  traffic := h.traffic
  within := h.within
  mesh := h.mesh
  relay := h.relay
  greeting _ target connection received deadline heq := by
    cases heq
    exact absurd rfl (hwork target connection received deadline)

/-- A call waits for a welcome, of which a part may have come. -/
theorem greet (h : n.Tuned log last) (hle : connection ≤ last)
    (hreceived : received = answerOn connection log) (hlength : received.length ≤ headerSize)
    (hstream : streamOf connection log = []) :
    Node.Tuned { n with current := some (number, .greeting target connection received deadline) }
      log last where
  traffic := h.traffic
  within := h.within
  mesh := h.mesh
  relay := h.relay
  greeting _ _ _ _ _ heq := by
    cases heq
    exact ⟨hle, hreceived, hlength, hstream⟩

/-- More of an answer comes while nothing is read from streams. -/
theorem answer (h : n.Tuned log last) (hlink : n.life.link = none) (hle : connection ≤ last)
    (bytes : Bytes) :
    Node.Tuned { n with current := none } (log ++ [.welcome connection bytes]) last where
  traffic hkind := by
    rw [framesOf_concat]
    exact (List.append_nil (framesOf n.codec log)).symm ▸ h.traffic hkind
  within s hs := by
    rcases List.mem_append.mp hs with hs | hs
    · exact h.within s hs
    · rw [List.mem_singleton.mp hs]
      exact hle
  mesh links inflows hl := by
    rw [show n.life.link = some (.mesh links inflows) from hl] at hlink
    cases hlink
  relay connection reader hl := by
    rw [show n.life.link = some (.relay connection reader) from hl] at hlink
    cases hlink
  greeting := by simp

/-- Nothing comes of what is heard. -/
theorem silent (h : n.Tuned log last) {s : Sound} (hs : s.Within last)
    (hstream : ∀ connection, s.bytesOn connection = [])
    (hanswer : ∀ connection, s.welcomeOn connection = []) (hframes : framesIn n.codec log s = []) :
    n.Tuned (log ++ [s]) last := by
  have hstreams : ∀ connection, streamOf connection (log ++ [s]) = streamOf connection log := by
    intro connection
    rw [streamOf_append]
    simp [streamOf, hstream]
  have hanswers : ∀ connection, answerOn connection (log ++ [s]) = answerOn connection log := by
    intro connection
    rw [answerOn_append]
    simp [answerOn, hanswer]
  refine ⟨?_, fun a ha => ?_, ?_, ?_, ?_⟩
  · rw [framesOf_concat, hframes, List.append_nil]
    exact h.traffic
  · rcases List.mem_append.mp ha with ha | ha
    · exact h.within a ha
    · exact List.mem_singleton.mp ha ▸ hs
  · simp only [hstreams]
    exact h.mesh
  · simp only [hstreams, hanswers]
    exact h.relay
  · simp only [hstreams, hanswers]
    exact h.greeting

/-! ### Links are opened -/

theorem open_relay (h : n.Tuned log last) (hle : connection ≤ last)
    (hstream : streamOf connection log = [])
    (hlength : (answerOn connection log).length = headerSize)
    (hjudge : RelayClient.judge n.codec (answerOn connection log) = some (.ok ())) :
    Node.Tuned { n with life := n.life.started number (.relay connection .start) } log last where
  traffic := h.traffic
  within := h.within
  mesh links inflows hlink := by cases hlink
  relay _ _ hlink := by
    cases hlink
    exact ⟨hle, hstream.symm ▸ FrameReader.holds_start n.codec, hlength, hjudge⟩
  greeting := h.greeting

/-- A link is opened that has nothing to read from yet. -/
theorem open_other (h : n.Tuned log last) {link : Link}
    (hmesh : ∀ links inflows, link = .mesh links inflows → inflows = [])
    (hrelay : ∀ connection reader, link ≠ .relay connection reader) :
    Node.Tuned { n with life := n.life.started number link } log last where
  traffic := h.traffic
  within := h.within
  mesh links inflows hlink := by
    have heq : link = .mesh links inflows := Option.some.inj hlink
    rw [hmesh links inflows heq]
    exact ⟨List.nodup_nil, fun _ hf => absurd hf List.not_mem_nil⟩
  relay connection reader hlink := absurd (Option.some.inj hlink) (hrelay connection reader)
  greeting := h.greeting

/-! ### Datagrams and new streams -/

theorem datagram (h : n.Tuned log last) (bytes : Bytes) :
    Node.Tuned { n with life := n.life.modifyTraffic fun t => Multicast.receive n.codec t bytes }
      (log ++ [.datagram bytes]) last := by
  have hstream : ∀ connection, streamOf connection (log ++ [.datagram bytes]) =
      streamOf connection log := by
    intro connection
    rw [streamOf_append]
    exact List.append_nil _
  have hanswer : ∀ connection, answerOn connection (log ++ [.datagram bytes]) =
      answerOn connection log := by
    intro connection
    rw [answerOn_append]
    exact List.append_nil _
  refine ⟨fun hkind => ?_, fun s hs => ?_, ?_, ?_, ?_⟩
  · rw [framesOf_concat]
    exact (h.traffic hkind).receiveDatagram n.codec bytes
  · rcases List.mem_append.mp hs with hs | hs
    · exact h.within s hs
    · rw [List.mem_singleton.mp hs]
      trivial
  · simp only [hstream]
    exact h.mesh
  · simp only [hstream, hanswer]
    exact h.relay
  · simp only [hstream, hanswer]
    exact h.greeting

theorem hear (h : n.Tuned log last) (ds : List Datagram) :
    (n.takeDatagrams ds).Tuned (log ++ n.overhears ds) last := by
  induction ds generalizing n log with
  | nil => exact (List.append_nil log).symm ▸ h
  | cons d ds ih =>
    rw [takeDatagrams_cons, takeDatagram_eq]
    by_cases hears : n.hearsPort d.port
    · have hnext := ih (h.datagram d.bytes)
      rw [if_pos hears]
      rw [List.append_assoc] at hnext
      have hlog : n.overhears (d :: ds) = [.datagram d.bytes] ++ n.overhears ds := by
        simp [overhears, hears]
      rw [hlog]
      exact hnext
    · rw [if_neg hears]
      have hlog : n.overhears (d :: ds) = n.overhears ds := by
        simp [overhears, hears]
      rw [hlog]
      exact ih h

theorem join {connections : List Nat} (h : n.Tuned log last)
    (hfresh : World.Fresh last later connections) (hle : last ≤ later) :
    (n.join connections).Tuned log later := by
  have hlater := h.mono hle
  refine ⟨hlater.traffic, hlater.within, fun links inflows hlink => ?_,
    fun connection reader hlink => ?_, hlater.greeting⟩
  · rw [link_join] at hlink
    obtain ⟨l, hl, hmodify⟩ := Option.map_eq_some_iff.mp hlink
    cases l with
    | mesh links' inflows' =>
      cases hmodify
      obtain ⟨hnodup, hall⟩ := h.mesh links inflows' hl
      constructor
      · have hnew : (connections.map fun c => (⟨c, .start⟩ : Inflow)).map Inflow.connection =
            connections := by
          rw [List.map_map]
          exact List.map_id connections
        rw [List.map_append, hnew, List.nodup_append]
        refine ⟨hnodup, hfresh.1, ?_⟩
        intro a ha b hb hab
        obtain ⟨f, hf, rfl⟩ := List.mem_map.mp ha
        have hold := (hall f hf).1
        have hnew := (hfresh.2 b hb).1
        omega
      · intro f hf
        rcases List.mem_append.mp hf with hf | hf
        · exact ⟨Nat.le_trans (hall f hf).1 hle, (hall f hf).2⟩
        · obtain ⟨c, hc, rfl⟩ := List.mem_map.mp hf
          refine ⟨(hfresh.2 c hc).2, ?_⟩
          rw [streamOf_of_within h.within (hfresh.2 c hc).1]
          exact FrameReader.holds_start n.codec
    | _ => cases hmodify
  · rw [link_join] at hlink
    obtain ⟨l, hl, hmodify⟩ := Option.map_eq_some_iff.mp hlink
    cases l with
    | relay connection' reader' =>
      cases hmodify
      exact hlater.relay connection reader hl
    | _ => cases hmodify

theorem reach {connections : List Nat} (h : n.Tuned log last) (ds : List Datagram)
    (hfresh : World.Fresh last later connections) (hle : last ≤ later) :
    (n.reach ds connections).Tuned (log ++ n.overhears ds) later :=
  (h.hear ds).join hfresh hle

/-! ### Streams -/

/-- The next bytes of a stream are read. -/
theorem chunk {t : Lifecycle Link} (h : n.Tuned log last) (hle : connection ≤ last)
    (hgreeting : ∀ number target other received deadline,
      n.current ≠ some (number, .greeting target other received deadline))
    (htraffic : ∀ fs, n.life.traffic.Takes fs →
      t.traffic.Takes (fs ++ framesIn n.codec log (.chunk connection bytes)))
    (hmesh : ∀ links inflows, t.link = some (.mesh links inflows) →
      ∃ links' inflows', n.life.link = some (.mesh links' inflows') ∧
        (inflows.map Inflow.connection).Sublist (inflows'.map Inflow.connection) ∧
          ∀ f ∈ inflows, f ∈ inflows' ∧ f.connection ≠ connection ∨
            f.connection = connection ∧
              f.reader.Holds n.codec (streamOf connection log ++ bytes))
    (hrelay : ∀ other reader, t.link = some (.relay other reader) → other = connection ∧
      ∃ reader', n.life.link = some (.relay connection reader') ∧
        reader.Holds n.codec (streamOf connection log ++ bytes)) :
    Node.Tuned { n with life := t } (log ++ [.chunk connection bytes]) last := by
  have hsame : streamOf connection (log ++ [.chunk connection bytes]) =
      streamOf connection log ++ bytes := by
    rw [streamOf_append]
    simp [streamOf, Sound.bytesOn]
  have hanswer : ∀ other, answerOn other (log ++ [.chunk connection bytes]) =
      answerOn other log := by
    intro other
    rw [answerOn_append]
    exact List.append_nil _
  refine ⟨fun hkind => ?_, fun s hs => ?_, fun links inflows hlink => ?_,
    fun other reader hlink => ?_,
    fun number target other received deadline hcurrent => absurd hcurrent (hgreeting _ _ _ _ _)⟩
  · rw [framesOf_concat]
    exact htraffic _ (h.traffic hkind)
  · rcases List.mem_append.mp hs with hs | hs
    · exact h.within s hs
    · rw [List.mem_singleton.mp hs]
      exact hle
  · obtain ⟨links', inflows', hl, hsub, hall⟩ := hmesh links inflows hlink
    obtain ⟨hnodup, hold⟩ := h.mesh links' inflows' hl
    refine ⟨hnodup.sublist hsub, fun f hf => ?_⟩
    rcases hall f hf with ⟨hmem, hne⟩ | ⟨heq, hholds⟩
    · have hother : streamOf f.connection (log ++ [.chunk connection bytes]) =
          streamOf f.connection log := by
        rw [streamOf_append]
        simp [streamOf, Sound.bytesOn, hne.symm]
      rw [hother]
      exact hold f hmem
    · rw [heq, hsame]
      exact ⟨hle, hholds⟩
  · obtain ⟨rfl, reader', hl, hholds⟩ := hrelay other reader hlink
    obtain ⟨-, -, hwelcome⟩ := h.relay other reader' hl
    rw [hsame, hanswer]
    exact ⟨hle, hholds, hwelcome⟩

end Node.Tuned

end EvictionBus.Net
