import EvictionBus.Proofs.Net.Refusals
import EvictionBus.Proofs.Net.Tuning

/-!
# Nodes stay in tune

What a node hears when something happens. Calls, on the node itself and on others, keep it in tune
with the record of what it has heard, and it goes on listening.
-/

namespace EvictionBus.Net

/-- Whether a call is refused before anything else is looked at. -/
def Node.rejects (n : Node) : Request → Bool
  | .send payload =>
    !(Lifecycle.checkPayload n.config.reportedMaxMessageSize payload.length).isOk
  | _ => false

theorem Node.admits_of_rejects {n : Node} {request : Request} (h : n.rejects request = false) :
    n.Admits request := by
  cases request with
  | send payload =>
    unfold rejects at h
    unfold Admits
    cases hc : Lifecycle.checkPayload n.config.reportedMaxMessageSize payload.length with
    | ok _ => exact hc
    | error e => simp [hc, Except.isOk, Except.toBool] at h
  | _ => trivial

namespace World

/-! ## What is heard -/

/-- The datagrams that are cast when something happens. -/
def castBy (w : World) : Happening → List Datagram
  | .call j _ request =>
    match w.nodes[j]? with
    | none => []
    | some n => if n.isBusy || n.rejects request then [] else w.casting n request
  | .turn j =>
    match w.nodes[j]? with
    | none => []
    | some n =>
      match n.current, n.queue with
      | none, (_, request) :: _ => w.casting n request
      | _, _ => []
  | .datagram d => [d]
  | _ => []

/-- What a node hears of the relay's answer when a call that has waited goes on. -/
def answering (w : World) : Option Work → List Sound
  | some (.greeting _ connection received _) =>
    [.welcome connection (w.greeted connection received)]
  | _ => []

/-- What a node hears when its link takes in what has come. -/
def incomingAt (w : World) (n : Node) (place : Nat) : List Sound :=
  match n.inlet? place with
  | none => []
  | some (connection, side) => [.chunk connection (w.incoming connection side).unread]

/-- What a node hears when something happens. -/
def heardBy (w : World) (i : Nat) (n : Node) : Happening → List Sound
  | .proceed j => if j = i then w.answering (n.current.map Prod.snd) else []
  | .takeIn j place => if j = i then w.incomingAt n place else []
  | h => n.overhears (w.castBy h)

def heardAt (w : World) (i : Nat) (h : Happening) : List Sound :=
  match w.nodes[i]? with
  | none => []
  | some n => w.heardBy i n h

/-- What the node at a place hears of one thing after another. -/
def heard (i : Nat) : World → List Happening → List Sound
  | _, [] => []
  | w, h :: hs => w.heardAt i h ++ heard i (w.after h) hs

/-- The node at a place, if there is one, is in tune with a record. -/
def Tuned (w : World) (i : Nat) (log : List Sound) : Prop :=
  ∀ n, w.nodes[i]? = some n → n.Tuned log w.lastConnection

variable {w u v : World} {hs : List Happening} {i j number : Nat} {n : Node} {log : List Sound}

/-! ## Calls -/

theorem Becomes.lastConnection_le {was : Option Work} {task : Task} {ds : List Datagram}
    (h : w.Becomes i number n was task ds v) : w.lastConnection ≤ v.lastConnection := by
  cases h with
  | refused e _ _ _ => exact Nat.le_refl _
  | ends u r f _ hu _ => exact hu.lastConnection
  | waits u work _ hu _ _ _ _ _ => exact hu.lastConnection

/-- The other nodes hear the datagrams of a call. -/
theorem Becomes.tuned_other {was : Option Work} {task : Task} {ds : List Datagram}
    (h : w.Becomes j number n was task ds v) (hij : j ≠ i) (ht : w.Tuned i log) {m : Node}
    (hm : v.nodes[i]? = some m) :
    ∃ x, w.nodes[i]? = some x ∧ m.Tuned (log ++ x.overhears ds) v.lastConnection ∧
      Attends (fun _ => False) x.life m.life := by
  obtain ⟨connections, hfresh, hnode⟩ := h.other hij
  rw [hnode] at hm
  obtain ⟨x, hx, rfl⟩ := Option.map_eq_some_iff.mp hm
  exact ⟨x, hx, (ht x hx).reach ds hfresh h.lastConnection_le, .reach x ds connections⟩

/-- What has come before a call goes on, and what it reads of an answer. -/
theorem tuned_answering {was : Option Work} {last : Nat}
    (hwas : n.current = was.map fun work => (number, work))
    (hlink : ∀ work, was = some work → work.task = .start → n.life.link = none)
    (ht : n.Tuned log last) :
    Node.Tuned { n with current := none } (log ++ w.answering was) last := by
  cases was with
  | none => exact (List.append_nil log).symm ▸ ht.idle
  | some work =>
    cases work with
    | greeting target connection received deadline =>
      obtain ⟨hle, -⟩ := ht.greeting number target connection received deadline hwas
      exact ht.answer (hlink _ rfl rfl) hle _
    | _ => exact (List.append_nil log).symm ▸ ht.idle

/-- The answer to a greeting after its next bytes have been read. -/
theorem answer_greeted {target : String} {connection deadline last : Nat} {received : Bytes}
    (hcurrent : n.current = some (number, .greeting target connection received deadline))
    (ht : n.Tuned log last) (w : World) :
    connection ≤ last ∧
      streamOf connection
        (log ++ [.welcome connection (w.greeted connection received)]) = [] ∧
      answerOn connection (log ++ [.welcome connection (w.greeted connection received)]) =
        received ++ w.greeted connection received ∧
      (received ++ w.greeted connection received).length ≤ headerSize := by
  obtain ⟨hle, hreceived, hlength, hstream⟩ := ht.greeting _ _ _ _ _ hcurrent
  refine ⟨hle, ?_, ?_, ?_⟩
  · rw [streamOf_append, hstream]
    rfl
  · rw [answerOn_append, ← hreceived]
    simp [answerOn, Sound.welcomeOn]
  · rw [List.length_append, greeted, List.length_take]
    omega

/-- A link that is opened reads from a new stream, or goes on behind the welcome. -/
theorem Opens.tuned {x : Node} {was : Option Work} {link : Link} {last : Nat}
    (h : w.Opens x was link) (hcodec : n.codec = x.codec)
    (hwas : n.current = was.map fun work => (number, work)) (ht : n.Tuned log last)
    (hafter : Node.Tuned { n with current := none } (log ++ w.answering was) last) :
    Node.Tuned { n with life := n.life.started number link, current := none }
      (log ++ w.answering was) last := by
  cases was with
  | none =>
    cases link with
    | multicast group => exact hafter.open_other (by simp) (by simp)
    | mesh links inflows =>
      have hnone : inflows = [] := h
      subst hnone
      exact hafter.open_other (fun _ _ heq => by cases heq; rfl) (by simp)
    | relay connection reader => exact absurd h id
    | broker link => exact absurd h id
  | some work =>
    cases work with
    | greeting target connection received deadline =>
      cases link with
      | relay opened reader =>
        obtain ⟨rfl, rfl, hjudge⟩ := h
        obtain ⟨hle, hstream, hanswer, hlength⟩ := answer_greeted hwas ht w
        have hwhole : ¬ (received ++ w.greeted opened received).length < headerSize := by
          intro hshort
          rw [RelayClient.judge, if_pos hshort] at hjudge
          cases hjudge
        refine hafter.open_relay hle hstream ?_ ?_
        · rw [answering, hanswer]
          omega
        · rw [answering, hanswer, hcodec]
          exact hjudge
      | _ => exact absurd h id
    | connecting binding due result =>
      cases link with
      | broker link => exact hafter.open_other (by simp) (by simp)
      | _ => exact absurd h id
    | _ => cases link <;> exact absurd h id

/-- What a call that has its turn waits for next. -/
theorem Follows.tuned {was : Option Work} {work : Work} {last : Nat} (h : w.Follows u was work)
    (hwas : n.current = was.map fun work => (number, work))
    (hwork : ∀ before, was = some before → before.task = work.task)
    (hold : ∀ s ∈ log, s.Within w.lastConnection) (hlast : u.lastConnection = last)
    (ht : n.Tuned log last)
    (hafter : Node.Tuned { n with current := none } (log ++ w.answering was) last) :
    Node.Tuned { n with current := some (number, work) } (log ++ w.answering was) last := by
  cases work with
  | greeting target connection received deadline =>
    -- Nothing has been heard yet of a new connection.
    have hfirst : w.Greets u (.greeting target connection received deadline) →
        w.answering was = [] →
        Node.Tuned
          { n with current := some (number, .greeting target connection received deadline) }
          (log ++ w.answering was) last := by
      intro hgreets hnothing
      obtain ⟨rfl, hnew, hle⟩ := hgreets target connection received deadline rfl
      rw [hnothing, List.append_nil] at hafter ⊢
      exact hafter.greet (hlast ▸ hle) (answerOn_of_within hold hnew).symm (Nat.zero_le _)
        (streamOf_of_within hold hnew)
    cases was with
    | none => exact hfirst h rfl
    | some before =>
      obtain ⟨hless, -, hnext⟩ := h
      cases before with
      | greeting target' connection' received' deadline' =>
        cases hnext
        obtain ⟨hle, hstream, hanswer, hlength⟩ := answer_greeted hwas ht w
        exact hafter.greet hle hanswer.symm hlength hstream
      | dialing _ _ => exact hfirst hnext rfl
      | connecting _ _ _ => exact absurd hless (Nat.not_lt_zero _)
      | writing _ _ _ => cases hwork _ rfl
      | spreading _ => cases hwork _ rfl
  | _ => exact hafter.busy (by simp)

/-- The end of a call takes nothing away from what an open transport listens to. -/
theorem Ends.attends {was : Option Work} {task : Task} {r : Except TransportError Unit}
    {f : Lifecycle Link → Lifecycle Link} {lost : Nat → Prop} (h : w.Ends number n was task r f)
    {t : Lifecycle Link} (hlink : task = .start → t.link = none)
    (hclosed : task = .close → t.closed = true) : Attends lost t (f t) := by
  cases h with
  | misconfigured e _ => exact .refl t
  | unreached e _ => exact .startFailed _ t
  | opened link _ _ => exact .of_deaf (by simp [hlink rfl]) rfl
  | unframed e => exact .refl t
  | unsent e links? => exact (Attends.relinked links? t).trans (.sendFailed _ _)
  | sent links? => exact (Attends.relinked links? t).trans (.of_link_eq rfl rfl)
  | closed => exact .of_closed (hclosed rfl)

/-- A call leaves its own node in tune. -/
theorem Becomes.tuned_own {was : Option Work} {task : Task} {ds : List Datagram}
    (hb : w.Becomes i number n was task ds v) (hn : w.nodes[i]? = some n)
    (hwas : n.current = was.map fun work => (number, work))
    (hwork : ∀ work, was = some work → work.task = task)
    (hlink : ∀ work, was = some work → work.task = .start → n.life.link = none)
    (hclosed : task = .close → n.life.closed = true) (ht : n.Tuned log w.lastConnection) :
    ∃ m, v.nodes[i]? = some m ∧
      m.Tuned (log ++ (n.overhears ds ++ w.answering was)) v.lastConnection ∧
        Attends (fun _ => False) n.life m.life := by
  -- What the call does after its datagrams have been heard and the answer has been read.
  have hreach : ∀ {u : World} {connections : List Nat}, w.lastConnection ≤ u.lastConnection →
      Fresh w.lastConnection u.lastConnection connections →
      (n.reach ds connections).Tuned (log ++ n.overhears ds) u.lastConnection ∧
        Node.Tuned { n.reach ds connections with current := none }
          (log ++ n.overhears ds ++ w.answering was) u.lastConnection := by
    intro u connections hle hfresh
    have hreached := ht.reach ds hfresh hle
    refine ⟨hreached, tuned_answering (by simpa [Node.reach] using hwas) ?_ hreached⟩
    intro work hw htask
    rw [(Continues.reach n ds connections).link_eq_none]
    exact hlink work hw htask
  rw [← List.append_assoc]
  cases hb with
  | refused e hnone hds _ =>
    subst hnone hds
    refine ⟨_, getElem?_finish hn number _, ?_, .refl n.life⟩
    change Node.Tuned _ _ w.lastConnection
    simpa [Node.overhears, answering] using ht.idle
  | ends u r f hmay hu hends =>
    obtain ⟨connections, hfresh, hm⟩ := hu.exists_node hn
    obtain ⟨hreached, hidle⟩ := hreach hu.lastConnection hfresh
    refine ⟨_, getElem?_finish_modifyLife hm f number r, ?_, ?_⟩
    · cases hends with
      | misconfigured e _ => exact hidle
      | unreached e _ => exact hidle.relive (.startFailed _ _)
      | opened link _ hopens =>
        exact Opens.tuned hopens (by simp [Node.reach]) (by simpa [Node.reach] using hwas) hreached
          hidle
      | unframed e => exact hidle
      | unsent e links? => exact hidle.relive ((Heeds.relinked links? _).trans (.sendFailed _ _))
      | sent links? => exact hidle.relive ((Heeds.relinked links? _).trans (.countSent _))
      | closed => exact hidle.relive (.released _)
    · have hreachedLife := Continues.reach n ds connections
      refine (Attends.reach n ds connections).trans (hends.attends (fun htask => ?_) fun htask =>
        hreachedLife.closed (hclosed htask))
      rw [hreachedLife.link_eq_none]
      cases was with
      | none =>
        have hstart := hmay rfl
        rw [htask] at hstart
        exact (Lifecycle.mayStart_eq_ok hstart).2
      | some work => exact hlink work rfl ((hwork work rfl).trans htask)
  | waits u work _ hu htask _ _ _ hfollows =>
    obtain ⟨connections, hfresh, hm⟩ := hu.exists_node hn
    obtain ⟨hreached, hidle⟩ := hreach hu.lastConnection hfresh
    refine ⟨_, getElem?_wait hm number work, ?_, .reach n ds connections⟩
    refine Follows.tuned hfollows (by simpa [Node.reach] using hwas) (fun before hbefore => ?_)
      (ht.hear ds).within rfl hreached hidle
    rw [htask]
    exact hwork before hbefore

/-- From one world to the next a node stays in tune with what it hears, and goes on listening but
for connections that it gives up. What it hears and gives up depends on how it was before. -/
def HearsOn (w v : World) (i : Nat) (log : List Sound) (sounds : Node → List Sound)
    (lost : Node → Nat → Prop) : Prop :=
  ∀ m, v.nodes[i]? = some m →
    ∃ n, w.nodes[i]? = some n ∧ m.Tuned (log ++ sounds n) v.lastConnection ∧
      Attends (lost n) n.life m.life

/-- The same when no connection is given up. -/
def StaysTuned (w v : World) (i : Nat) (log : List Sound) (sounds : Node → List Sound) : Prop :=
  HearsOn w v i log sounds fun _ _ => False

theorem StaysTuned.hearsOn {sounds : Node → List Sound} {lost : Node → Nat → Prop}
    (h : StaysTuned w v i log sounds) : HearsOn w v i log sounds lost := by
  intro m hm
  obtain ⟨n, hn, ht, hattends⟩ := h m hm
  refine ⟨n, hn, ht, hattends.open_before, hattends.group, fun hopen connection side hl => ?_⟩
  exact .inl ((hattends.streams hopen connection side hl).resolve_right id)

theorem StaysTuned.silent (h : StaysTuned w v i log fun _ => []) : v.Tuned i log := by
  intro m hm
  obtain ⟨n, -, ht, -⟩ := h m hm
  rwa [List.append_nil] at ht

theorem Becomes.tuned {x : Node} {was : Option Work} {task : Task} {ds : List Datagram}
    (hb : w.Becomes j number x was task ds v) (hx : w.nodes[j]? = some x)
    (hwas : x.current = was.map fun work => (number, work))
    (hwork : ∀ work, was = some work → work.task = task)
    (hlink : ∀ work, was = some work → work.task = .start → x.life.link = none)
    (hclosed : task = .close → x.life.closed = true) (ht : w.Tuned i log) :
    StaysTuned w v i log fun n => n.overhears ds ++ if j = i then w.answering was else [] := by
  intro m hm
  by_cases hij : j = i
  · subst hij
    obtain ⟨y, hy, htuned, hattends⟩ := hb.tuned_own hx hwas hwork hlink hclosed (ht x hx)
    rw [hy] at hm
    cases hm
    refine ⟨x, hx, ?_, hattends⟩
    rwa [if_pos rfl]
  · obtain ⟨n, hn, htuned, hattends⟩ := hb.tuned_other hij ht hm
    refine ⟨n, hn, ?_, hattends⟩
    dsimp only
    rwa [if_neg hij, List.append_nil]

theorem Around.tuned {ds : List Datagram} (h : Around ds w v) (ht : w.Tuned i log) :
    StaysTuned w v i log fun n => n.overhears ds := by
  intro m hm
  obtain ⟨connections, hfresh, hnode⟩ := h.nodes i
  rw [hnode] at hm
  obtain ⟨n, hn, rfl⟩ := Option.map_eq_some_iff.mp hm
  exact ⟨n, hn, (ht n hn).reach ds hfresh h.lastConnection, .reach n ds connections⟩

/-- Nothing is heard in the first of two parts. -/
theorem StaysTuned.then_silent (h : StaysTuned w u i log fun _ => [])
    (hnext : u.Tuned i log → StaysTuned u v i log fun _ => []) :
    StaysTuned w v i log fun _ => [] := by
  intro m hm
  obtain ⟨x, hx, ht, hlate⟩ := hnext h.silent m hm
  obtain ⟨n, hn, -, hearly⟩ := h x hx
  exact ⟨n, hn, ht, hearly.trans hlate⟩

theorem Tuned.stays (ht : w.Tuned i log) (hnodes : v.nodes = w.nodes)
    (hlast : w.lastConnection ≤ v.lastConnection) : StaysTuned w v i log fun _ => [] := by
  intro m hm
  rw [hnodes] at hm
  refine ⟨m, hm, ?_, .refl m.life⟩
  rw [List.append_nil]
  exact (ht m hm).mono hlast

/-! ## The queue of a node -/

theorem Tuned.requeue (ht : w.Tuned i log) (j : Nat)
    (f : List (Nat × Request) → List (Nat × Request)) :
    StaysTuned w (w.modifyNode j fun n => { n with queue := f n.queue }) i log fun _ => [] := by
  intro m hm
  rw [getElem?_modifyNode] at hm
  split at hm
  · obtain ⟨n, hn, rfl⟩ := Option.map_eq_some_iff.mp hm
    exact ⟨n, hn, (List.append_nil log).symm ▸ (ht n hn).requeue _, .refl n.life⟩
  · exact ⟨m, hm, (List.append_nil log).symm ▸ ht m hm, .refl m.life⟩

/-! ## The life of one node -/

/-- From one world to the next only the life of one node has changed. -/
structure Inward (w v : World) (i : Nat) (f : Lifecycle Link → Lifecycle Link) : Prop where
  nodes : v.nodes = (w.modifyLife i f).nodes
  lastConnection : v.lastConnection = w.lastConnection

namespace Inward

variable {f g : Lifecycle Link → Lifecycle Link}

theorem of_nodes_eq (hnodes : v.nodes = w.nodes) (hlast : v.lastConnection = w.lastConnection)
    (i : Nat) : Inward w v i id where
  nodes := by rw [modifyLife_id, hnodes]
  lastConnection := hlast

theorem modifyLife (w : World) (i : Nat) (f : Lifecycle Link → Lifecycle Link) :
    Inward w (w.modifyLife i f) i f := ⟨rfl, rfl⟩

theorem abandon (w : World) (connection : Nat) (side : Side) (i : Nat) :
    Inward w (w.abandon connection side) i id :=
  of_nodes_eq (w := w) (v := w.abandon connection side) rfl rfl i

theorem trans (h : Inward w u i f) (hnext : Inward u v i g) : Inward w v i fun t => g (f t) where
  nodes := by
    have hsame : (u.modifyLife i g).nodes = ((w.modifyLife i f).modifyLife i g).nodes := by
      change u.nodes.modify i _ = (w.modifyLife i f).nodes.modify i _
      rw [h.nodes]
    rw [hnext.nodes, hsame, modifyLife_modifyLife]
  lastConnection := hnext.lastConnection.trans h.lastConnection

theorem getElem? (h : Inward w v j f) (hn : w.nodes[j]? = some n) :
    v.nodes[j]? = some { n with life := f n.life } := by
  rw [h.nodes]
  exact getElem?_modifyLife hn f

theorem getElem?_of_ne (h : Inward w v j f) (hij : j ≠ i) : v.nodes[i]? = w.nodes[i]? := by
  rw [h.nodes]
  unfold World.modifyLife
  rw [getElem?_modifyNode, if_neg hij]

/-- The node itself is in tune if its new life is. -/
theorem tuned (h : Inward w v j f) (ht : w.Tuned i log) {sounds : Node → List Sound}
    {lost : Node → Nat → Prop}
    (hown : ∀ n, w.nodes[i]? = some n → j = i → n.Tuned log w.lastConnection →
      Node.Tuned { n with life := f n.life } (log ++ sounds n) w.lastConnection ∧
        Attends (lost n) n.life (f n.life))
    (hother : ∀ n, j ≠ i → sounds n = []) : HearsOn w v i log sounds lost := by
  intro m hm
  rw [h.lastConnection]
  by_cases hij : j = i
  · subst hij
    cases hn : w.nodes[j]? with
    | none =>
      rw [h.nodes] at hm
      unfold World.modifyLife at hm
      rw [getElem?_modifyNode, if_pos rfl, hn] at hm
      cases hm
    | some n =>
      rw [h.getElem? hn] at hm
      cases hm
      exact ⟨n, rfl, hown n hn rfl (ht n hn)⟩
  · rw [h.getElem?_of_ne hij] at hm
    refine ⟨m, hm, ?_, .refl m.life⟩
    rw [hother m hij, List.append_nil]
    exact ht m hm

/-- What is heard stays the same if the node reads from nothing new. -/
theorem tuned_of_heeds (h : Inward w v j f) {lost : Node → Nat → Prop}
    (hf : ∀ n, w.nodes[j]? = some n → Heeds n.life (f n.life))
    (hattends : ∀ n, w.nodes[j]? = some n → j = i → n.Tuned log w.lastConnection →
      Attends (lost n) n.life (f n.life))
    (ht : w.Tuned i log) : HearsOn w v i log (fun _ => []) lost := by
  refine h.tuned ht (fun n hn hij hn' => ⟨?_, hattends n (hij ▸ hn) hij hn'⟩) fun _ _ => rfl
  rw [List.append_nil]
  exact hn'.relive (hf n (hij ▸ hn))

end Inward

/-! ## Calls are made, get their turn and go on -/

theorem tuned_perform {x : Node} (hx : w.nodes[j]? = some x) (hfits : x.Fits)
    (hidle : x.current = none) {request : Request}
    (hclosed : request = .close → x.life.closed = true) (ht : w.Tuned i log) :
    StaysTuned w (w.perform j number request) i log fun n => n.overhears (w.casting x request) := by
  have hb : w.Becomes j number x none request.task (w.casting x request)
      (w.perform j number request) := becomes_perform hx hfits request
  have htask : request.task = .close → x.life.closed = true := by
    intro htask
    cases request with
    | close => exact hclosed rfl
    | _ => cases htask
  have h := hb.tuned hx hidle (by simp) (by simp) htask ht
  intro m hm
  obtain ⟨n, hn, htuned, hattends⟩ := h m hm
  refine ⟨n, hn, ?_, hattends⟩
  have hnothing : (if j = i then w.answering none else []) = [] := ite_self []
  dsimp only at htuned
  rwa [hnothing, List.append_nil] at htuned

/-- Closing marks a transport and stops what is being written. -/
theorem Lived.tuned_stop {x : Node} (hl : Lived hs w) (hx : w.nodes[j]? = some x)
    (ht : w.Tuned i log) :
    StaysTuned w ((w.modifyLife j Lifecycle.markClosed).stopWrites j) i log fun _ => [] := by
  have hmark : StaysTuned w (w.modifyLife j Lifecycle.markClosed) i log fun _ => [] :=
    (Inward.modifyLife w j Lifecycle.markClosed).tuned_of_heeds
      (fun n _ => .markClosed n.life) (fun _ _ _ _ => .of_closed rfl) ht
  refine hmark.then_silent fun hmarked => ?_
  have hx' := (Inward.modifyLife w j Lifecycle.markClosed).getElem? hx
  have hfits := ((hl.quiet (.modifyLife w fun n _ => .markClosed n.life)).nodes j _ hx').living.fits
  by_cases hwriting : ∃ call work, x.current = some (call, work) ∧ work.task = .send
  · obtain ⟨call, work, hcurrent, htask⟩ := hwriting
    have hends := (ends_stopWrites hx' hfits hcurrent htask).becomes (by simp)
    have h := hends.tuned hx' hcurrent (fun _ hw => by cases hw; exact htask)
      (fun _ hw hstart => by cases hw; rw [htask] at hstart; cases hstart) (by simp) hmarked
    intro m hm
    obtain ⟨n, hn, htuned, hattends⟩ := h m hm
    refine ⟨n, hn, ?_, hattends⟩
    have hnothing : (w.modifyLife j Lifecycle.markClosed).answering (some work) = [] := by
      cases work with
      | greeting _ _ _ _ => cases htask
      | _ => rfl
    simpa [Node.overhears, hnothing] using htuned
  · rw [stopWrites_eq_self hx']
    · exact hmarked.stays rfl (Nat.le_refl _)
    · intro call work hcurrent
      cases htask : work.task with
      | start => rfl
      | send => exact absurd ⟨call, work, hcurrent, htask⟩ hwriting
      | close => exact absurd htask work.task_ne_close

theorem Lived.tuned_close {x : Node} (hl : Lived hs w) (hx : w.nodes[j]? = some x)
    (ht : w.Tuned i log) : StaysTuned w (w.call j number .close) i log fun _ => [] := by
  obtain ⟨y, hy, hclosed, -, hbusy, -⟩ := hl.stop hx
  unfold call
  rw [hx]
  refine (hl.tuned_stop hx ht).then_silent fun hstopped => ?_
  dsimp only
  split
  · exact hstopped.requeue j fun queue => queue ++ [(number, .close)]
  · next hfree =>
    have hidle := (y.isBusy_eq_false.mp (hbusy (eq_false_of_ne_true hfree))).1
    have h := (becomes_close ((w.modifyLife j Lifecycle.markClosed).stopWrites j) j number y).tuned
      hy hidle (by simp) (by simp) (fun _ => hclosed) hstopped
    unfold perform
    rw [hy]
    intro m hm
    obtain ⟨n, hn, htuned, hattends⟩ := h m hm
    exact ⟨n, hn, by simpa [Node.overhears, answering] using htuned, hattends⟩

theorem Lived.tuned_call (hl : Lived hs w) (ht : w.Tuned i log) (j number : Nat)
    (request : Request) :
    StaysTuned w (w.after (.call j number request)) i log
      fun n => n.overhears (w.castBy (.call j number request)) := by
  change StaysTuned w (w.call j number request) i log _
  cases hx : w.nodes[j]? with
  | none =>
    have hcast : w.castBy (.call j number request) = [] := by simp [castBy, hx]
    have hcall : w.call j number request = w := by
      unfold call
      rw [hx]
    rw [hcast, hcall]
    exact ht.stays rfl (Nat.le_refl _)
  | some x =>
    have hcast : w.castBy (.call j number request) =
        if x.isBusy || x.rejects request then [] else w.casting x request := by
      simp [castBy, hx]
    rw [hcast]
    by_cases hrequest : request = .close
    · subst hrequest
      have hnothing : (if x.isBusy || x.rejects .close then [] else w.casting x .close) = [] :=
        ite_self []
      rw [hnothing]
      exact hl.tuned_close hx ht
    · cases hrejects : x.rejects request with
      | true =>
        cases request with
        | send payload =>
          cases hcheck :
              Lifecycle.checkPayload x.config.reportedMaxMessageSize payload.length with
          | ok _ => simp [Node.rejects, hcheck, Except.isOk, Except.toBool] at hrejects
          | error e =>
            have hcall : w.call j number (.send payload) = w.answer number (.error e) :=
              after_call_of_error hx hcheck
            rw [hcall, Bool.or_true, if_pos rfl]
            exact ht.stays rfl (Nat.le_refl _)
        | start => cases hrejects
        | close => cases hrejects
      | false =>
        rw [call_of_admits hx hrequest (Node.admits_of_rejects hrejects), Bool.or_false]
        split
        · exact ht.requeue j fun queue => queue ++ [(number, request)]
        · next hfree =>
          exact tuned_perform hx (hl.nodes j x hx).living.fits
            (x.isBusy_eq_false.mp (eq_false_of_ne_true hfree)).1
            (fun hclose => absurd hclose hrequest) ht

/-- A call to close finds a transport that has been marked. -/
theorem Held.closed_of_close {x : Node} {request : Request}
    (h : Held hs w j number request.task x) (hnumbers : (callNumbers hs).Nodup)
    (hrequest : request = .close) : x.life.closed = true := by
  obtain ⟨-, called, hlookup, htask⟩ :=
    lookup_of_unanswered (map_fst_callsOn_nodup hnumbers j) h.waiting
  refine h.living.closing _ (mem_of_lookup hlookup) ?_
  rw [hrequest] at htask
  cases called with
  | close => rfl
  | _ => cases htask

theorem Lived.tuned_turn (hl : Lived hs w) (hnumbers : (callNumbers hs).Nodup)
    (ht : w.Tuned i log) (j : Nat) :
    StaysTuned w (w.after (.turn j)) i log fun n => n.overhears (w.castBy (.turn j)) := by
  have hstill : w.after (.turn j) = w → w.castBy (.turn j) = [] →
      StaysTuned w (w.after (.turn j)) i log fun n => n.overhears (w.castBy (.turn j)) := by
    intro hafter hcast
    rw [hafter, hcast]
    exact ht.stays rfl (Nat.le_refl _)
  cases hx : w.nodes[j]? with
  | none => exact hstill (by simp [after, onNode, hx]) (by simp [castBy, hx])
  | some x =>
    cases hcurrent : x.current with
    | some c =>
      exact hstill (by simp [after, onNode, hx, moveQueue, hcurrent])
        (by simp [castBy, hx, hcurrent])
    | none =>
      cases hqueue : x.queue with
      | nil =>
        exact hstill (by simp [after, onNode, hx, moveQueue, hcurrent, hqueue])
          (by simp [castBy, hx, hcurrent, hqueue])
      | cons c rest =>
        obtain ⟨number, request⟩ := c
        have hcast : w.castBy (.turn j) = w.casting x request := by
          simp [castBy, hx, hcurrent, hqueue]
        have hdequeued := ht.requeue j List.tail
        have hheld := hl.held_of_turn hx hcurrent hqueue
        rw [after_turn hx hcurrent hqueue, hcast]
        intro m hm
        obtain ⟨y, hy, htuned, hattends⟩ := tuned_perform hheld.node hheld.living.fits hcurrent
          (hheld.closed_of_close hnumbers) hdequeued.silent m hm
        unfold dequeue at hy
        rw [getElem?_modifyNode] at hy
        split at hy
        · obtain ⟨n, hn, rfl⟩ := Option.map_eq_some_iff.mp hy
          exact ⟨n, hn, htuned, hattends⟩
        · exact ⟨y, hy, htuned, hattends⟩

/-- A greeting that cannot go on has nothing to read. -/
theorem unread_of_greeting_stuck {target : String} {connection deadline : Nat} {received : Bytes}
    (h : w.moveGreeting i number n target connection received deadline = none) :
    (w.incoming connection .dialer).unread = [] := by
  apply Decidable.byContradiction
  intro hne
  unfold moveGreeting at h
  dsimp only at h
  rw [if_pos hne] at h
  split at h <;> cases h

/-- A call that cannot go on reads nothing of an answer. -/
theorem tuned_of_stuck {last : Nat} (hstuck : w.moveCall i n = none) (ht : n.Tuned log last) :
    n.Tuned (log ++ w.answering (n.current.map Prod.snd)) last := by
  have hnothing : w.answering (n.current.map Prod.snd) = [] →
      n.Tuned (log ++ w.answering (n.current.map Prod.snd)) last := by
    intro h
    rw [h, List.append_nil]
    exact ht
  unfold moveCall at hstuck
  cases hcurrent : n.current with
  | none => exact hcurrent ▸ hnothing (by rw [hcurrent]; rfl)
  | some c =>
    obtain ⟨number, work⟩ := c
    rw [hcurrent] at hstuck hnothing
    cases work with
    | greeting target connection received deadline =>
      have hgreeted : w.greeted connection received = [] := by
        unfold greeted
        rw [unread_of_greeting_stuck hstuck, List.take_nil]
      change n.Tuned (log ++ [.welcome connection (w.greeted connection received)]) last
      rw [hgreeted]
      refine ht.silent (ht.greeting _ _ _ _ _ hcurrent).1 (fun _ => rfl) (fun other => ?_) rfl
      exact ite_self []
    | _ => exact hnothing rfl

theorem Lived.tuned_proceed (hl : Lived hs w) (ht : w.Tuned i log) (j : Nat) :
    StaysTuned w (w.after (.proceed j)) i log fun n => w.heardBy i n (.proceed j) := by
  have hstill : w.after (.proceed j) = w →
      (∀ x, w.nodes[j]? = some x → w.moveCall j x = none) →
      StaysTuned w (w.after (.proceed j)) i log fun n => w.heardBy i n (.proceed j) := by
    intro hafter hstuck m hm
    rw [hafter] at hm ⊢
    refine ⟨m, hm, ?_, .refl m.life⟩
    unfold heardBy
    dsimp only
    split
    · next hij => exact tuned_of_stuck (hstuck m (hij ▸ hm)) (ht m hm)
    · rw [List.append_nil]
      exact ht m hm
  cases hx : w.nodes[j]? with
  | none => exact hstill (by simp [after, onNode, hx]) (by simp [hx])
  | some x =>
    cases hv : w.moveCall j x with
    | none =>
      refine hstill (by simp [after, onNode, hx, hv]) fun y hy => ?_
      rw [hx] at hy
      cases hy
      exact hv
    | some v =>
      have hafter : w.after (.proceed j) = v := by simp [after, onNode, hx, hv]
      rw [hafter]
      have hliving := (hl.nodes j x hx).living
      cases hcurrent : x.current with
      | none => simp [moveCall, hcurrent] at hv
      | some c =>
        obtain ⟨number, work⟩ := c
        have hb := becomes_moveCall hx hliving.fits hcurrent hv
        have h := hb.tuned hx hcurrent (fun _ hw => by cases hw; rfl)
          (fun _ hw hstart => by cases hw; exact hliving.fits.unlinked _ _ hcurrent hstart)
          (fun htask => absurd htask work.task_ne_close) ht
        intro m hm
        obtain ⟨n, hn, htuned, hattends⟩ := h m hm
        refine ⟨n, hn, ?_, hattends⟩
        have hsounds : w.heardBy i n (.proceed j) =
            n.overhears [] ++ if j = i then w.answering (some work) else [] := by
          unfold heardBy
          by_cases hij : j = i
          · subst hij
            rw [hx] at hn
            cases hn
            simp [Node.overhears, hcurrent]
          · simp [Node.overhears, hij]
        dsimp only
        rw [hsounds]
        exact htuned

end World

end EvictionBus.Net
