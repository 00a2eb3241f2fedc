import Mathlib.Data.List.Forall2
import EvictionBus.Proofs.Broker.Links

/-!
# What holds of a cluster at any time

Every node has sessions of its own, and what it has taken in, followed by what waits for it, belongs
to messages in the order in which these were published.  An outage leaves that alone: the session
that a node goes on reading is over, the one that it finds next starts with an empty queue, and a
node reads no session again that it has left.
-/

namespace EvictionBus.Broker

/-! ## Deliveries of messages -/

section Carried

variable {α β : Type} {R : α → β → Prop} {as as' : List α} {bs : List β} {a : α} {b : β}

theorem carried_of_sublist (h : List.SublistForall₂ R as bs) (hs : as'.Sublist as) :
    List.SublistForall₂ R as' bs := by
  induction h generalizing as' with
  | nil =>
    rw [List.sublist_nil.1 hs]
    exact .nil
  | cons hr _ ih =>
    cases hs with
    | cons _ hs => exact .cons_right (ih hs)
    | cons_cons _ hs => exact .cons hr (ih hs)
  | cons_right _ ih => exact .cons_right (ih hs)

theorem carried_concat_right (h : List.SublistForall₂ R as bs) (b : β) :
    List.SublistForall₂ R as (bs ++ [b]) := by
  induction h with
  | nil => exact .nil
  | cons hr _ ih => exact .cons hr ih
  | cons_right _ ih => exact .cons_right ih

theorem carried_concat (h : List.SublistForall₂ R as bs) (hr : R a b) :
    List.SublistForall₂ R (as ++ [a]) (bs ++ [b]) := by
  induction h with
  -- Nothing has been carried so far, and the new pair comes after all the rest.
  | @nil bs =>
    induction bs with
    | nil => exact .cons hr .nil
    | cons _ _ ih => exact .cons_right ih
  | cons hr' _ ih => exact .cons hr' ih
  | cons_right _ ih => exact .cons_right ih

theorem carried_filter {p : β → Bool} (h : List.SublistForall₂ R as bs)
    (hp : ∀ a ∈ as, ∀ b, R a b → p b = true) : List.SublistForall₂ R as (bs.filter p) := by
  induction h with
  | nil => exact .nil
  | cons hr _ ih =>
    rw [List.filter_cons_of_pos (hp _ List.mem_cons_self _ hr)]
    exact .cons hr (ih fun a ha => hp a (List.mem_cons_of_mem _ ha))
  | @cons_right b _ _ _ ih =>
    by_cases hb : p b = true
    · rw [List.filter_cons_of_pos hb]
      exact .cons_right (ih hp)
    · rw [List.filter_cons_of_neg hb]
      exact ih hp

theorem exists_carrier (h : List.SublistForall₂ R as bs) (ha : a ∈ as) : ∃ b ∈ bs, R a b := by
  induction h with
  | nil => cases ha
  | cons hr _ ih =>
    rcases List.mem_cons.1 ha with rfl | ha
    · exact ⟨_, List.mem_cons_self, hr⟩
    · obtain ⟨b, hb, hr⟩ := ih ha
      exact ⟨b, List.mem_cons_of_mem _ hb, hr⟩
  | cons_right _ ih =>
    obtain ⟨b, hb, hr⟩ := ih ha
    exact ⟨b, List.mem_cons_of_mem _ hb, hr⟩

end Carried

/-! ## Nodes -/

namespace Node

variable {x : Node} {m : Member} {b b' : Memory} {now : Nat}

/-- What holds of a node at any time. -/
structure Sound (x : Node) (m : Member) (b : Memory) (now : Nat) : Prop where
  link : ∀ l, x.life.link = some l → l.Sound m.binding b now
  starting : x.call = some .starting → x.life.link = none
  sending : ∀ n payload, x.call = some (.sending n payload) → b.binding? n = some m.binding
  delivered : x.life.traffic.delivered = (x.handed m).map Delivery.payload

theorem sound_fresh (m : Member) (b : Memory) (now : Nat) : fresh.Sound m b now :=
  ⟨nofun, nofun, nofun, rfl⟩

theorem Sound.of_within {other : Binding} (h : x.Sound m b now) (hb : b.Within other b')
    (hne : m.binding ≠ other) : x.Sound m b' now where
  link l hl := (h.link l hl).of_within hb hne
  starting := h.starting
  sending n payload hn := hb.binding _ _ (h.sending n payload hn)
  delivered := h.delivered

theorem Sound.congr (h : x.Sound m b now) (hbinding : ∀ n, b'.binding? n = b.binding? n)
    (hreader : ∀ n, b'.hasReader n = b.hasReader n) : x.Sound m b' now where
  link l hl := (h.link l hl).congr hbinding hreader
  starting := h.starting
  sending n payload hn := by rw [hbinding, h.sending n payload hn]
  delivered := h.delivered

theorem Sound.later {now' : Nat} (h : x.Sound m b now) (hle : now ≤ now') : x.Sound m b now' where
  link l hl := (h.link l hl).later hle
  starting := h.starting
  sending := h.sending
  delivered := h.delivered

theorem Sound.waiting_of_within {other : Binding} (h : x.Sound m b now) (hb : b.Within other b')
    (hne : m.binding ≠ other) : x.waiting b' = x.waiting b := by
  unfold waiting
  cases hl : x.life.link with
  | none => rfl
  | some l => exact (h.link l hl).waiting_of_within hb hne

theorem send_eq_ok {payload : Bytes} {session : Nat} (h : x.send m payload = .ok session) :
    ∃ l, x.life.link = some l ∧ l.publisher = some session := by
  unfold Node.send at h
  cases hcheck : Lifecycle.checkPayload m.config.effectiveMaxMessageSize payload.length with
  | error e =>
    rw [hcheck] at h
    cases h
  | ok _ =>
    cases hactive : x.life.active with
    | error e =>
      rw [hcheck, hactive] at h
      cases h
    | ok l =>
      rw [hcheck, hactive] at h
      change l.publishing = .ok session at h
      refine ⟨l, Lifecycle.link_of_active hactive, ?_⟩
      unfold BrokerLink.publishing at h
      cases hp : l.publisher with
      | none =>
        rw [hp] at h
        cases h
      | some n =>
        rw [hp] at h
        cases h
        rfl

theorem Sound.send {payload : Bytes} {session : Nat} (h : x.Sound m b now)
    (hs : x.send m payload = .ok session) :
    ({ x with call := some (.sending session payload) } : Node).Sound m b now := by
  obtain ⟨l, hl, hpublisher⟩ := send_eq_ok hs
  refine ⟨h.link, nofun, ?_, h.delivered⟩
  intro n p hn
  cases hn
  exact (h.link l hl).publisher _ hpublisher

theorem Sound.move {l l' : BrokerLink} {t' : Traffic} {taken : Option Delivery}
    (h : x.Sound m b now) (hl : x.life.link = some l)
    (hm : BrokerLink.Moved now l x.life.traffic b taken l' t' b') :
    ({ x with
      life := { x.life with link := some l', traffic := t' }
      taken := x.taken ++ taken.toList } : Node).Sound m b' now := by
  have hsound := h.link l hl
  have hb := hm.within (by rw [hsound.binding_eq]; exact hsound.session)
  rw [hsound.binding_eq] at hb
  refine ⟨fun k hk => ?_, fun hs => ?_, fun n payload hn => hb.binding _ _ (h.sending n payload hn),
    ?_⟩
  · cases hk
    exact hm.sound hsound
  · have hnone := h.starting hs
    rw [hl] at hnone
    cases hnone
  · show t'.delivered = ((x.taken ++ taken.toList).filter _).map _
    rw [hm.traffic_eq, List.filter_append, List.map_append]
    -- A delivery counts as handed on when its routing key is another one, and then `takeIn` keeps
    -- its payload.
    have hdelivered : x.life.traffic.delivered = (x.taken.filter _).map _ := h.delivered
    cases taken with
    | none =>
      rw [Option.map_none, Option.getD_none, hdelivered]
      exact (List.append_nil _).symm
    | some d =>
      rw [Option.map_some, Option.getD_some, BrokerLink.takeIn, hsound.binding_eq]
      by_cases hown : d.routingKey = m.binding.routingKey
      · rw [if_pos hown, Option.toList_some, List.filter_cons_of_neg (by simpa using hown)]
        exact hdelivered.trans (List.append_nil _).symm
      · rw [if_neg hown, Option.toList_some, List.filter_cons_of_pos (by simpa using hown)]
        exact congrArg (· ++ [d.payload]) hdelivered

end Node

/-! ## Clusters -/

namespace Cluster

variable {ι : Type} {u : Setup ι} {c : Cluster ι}

/-- What holds of a cluster at any time. -/
structure Coherent (u : Setup ι) (c : Cluster ι) : Prop where
  broker : c.broker.Sound
  node : ∀ i, (c.node i).Sound (u i) c.broker c.now
  /-- What a node has taken in and what waits for it belongs to messages in their order. -/
  carried : ∀ i, List.SublistForall₂ (fun d m => m.Carries u d)
    ((c.node i).taken ++ (c.node i).waiting c.broker) c.sends
  queued : ∀ n, ∀ d ∈ c.broker.waiting n, ∃ m ∈ c.sends, m.Carries u d
  ordered : c.sends.Pairwise fun m m' => m.last ≤ m'.first
  bounded : ∀ m ∈ c.sends, m.last ≤ c.broker.lastTag
  published : c.broker.published = c.sends.length

theorem coherent_initial (u : Setup ι) : (initial : Cluster ι).Coherent u where
  broker := Memory.sound_start
  node i := Node.sound_fresh _ _ _
  carried i := .nil
  queued n d hd := by
    have hnone : Memory.start.waiting n = [] := rfl
    change d ∈ Memory.start.waiting n at hd
    rw [hnone] at hd
    cases hd
  ordered := .nil
  bounded m hm := by cases hm
  published := rfl

variable {i : ι} {x : Node} {b : Memory}

theorem Coherent.setReachable (h : c.Coherent u) (value : Bool) :
    ({ c with broker := c.broker.setReachable value } : Cluster ι).Coherent u := by
  have hsame := c.broker.observed_setReachable value
  have hcounts : (c.broker.setReachable value).lastTag = c.broker.lastTag ∧
      (c.broker.setReachable value).published = c.broker.published := by
    unfold Memory.setReachable
    split <;> exact ⟨rfl, rfl⟩
  -- Going offline unbinds the sessions and begins a new time; their owners and queues stay.
  refine ⟨h.broker.setReachable value, fun j => ?_, fun j => ?_, fun n d hd => ?_, h.ordered,
    fun m hm => ?_, hcounts.2.trans h.published⟩
  · exact (h.node j).congr (fun n => (hsame n).1) fun n => (hsame n).2.2
  · have hwaiting : (c.node j).waiting (c.broker.setReachable value) =
        (c.node j).waiting c.broker := by
      unfold Node.waiting BrokerLink.waiting
      rw [show (c.broker.setReachable value).waiting = c.broker.waiting from
        funext fun n => (hsame n).2.1]
    show List.SublistForall₂ _ ((c.node j).taken ++ _) c.sends
    rw [hwaiting]
    exact h.carried j
  · change d ∈ (c.broker.setReachable value).waiting n at hd
    rw [(hsame n).2.1] at hd
    exact h.queued n d hd
  · show m.last ≤ (c.broker.setReachable value).lastTag
    rw [hcounts.1]
    exact h.bounded m hm

/-- A message gets into a queue at most once, and behind what is there. -/
theorem waiting_published {session : Nat} {payload : Bytes}
    (hsession : c.broker.binding? session = some (u i).binding)
    (hp : c.broker.publish session payload = some (.ok b)) (n : Nat) :
    b.waiting n = c.broker.waiting n ∨
      ∃ d, (c.message i payload b).Carries u d ∧
        b.waiting n = c.broker.waiting n ++ [d] := by
  obtain ⟨sender, hsender, -, -, hsessions⟩ := Memory.observed_publish hp
  rw [hsession] at hsender
  cases hsender
  obtain ⟨-, -, hsame | ⟨tag, hfirst, hlast, hqueued⟩⟩ := hsessions n
  · exact .inl hsame
  · exact .inr ⟨⟨tag, (u i).binding.routingKey, payload⟩, ⟨hfirst, hlast, rfl, rfl⟩, hqueued⟩

/-- A node that takes nothing in while a message is published. -/
theorem carried_published {session : Nat} {payload : Bytes}
    (hsession : c.broker.binding? session = some (u i).binding)
    (hp : c.broker.publish session payload = some (.ok b))
    (h : List.SublistForall₂ (fun d m => m.Carries u d) (x.taken ++ x.waiting c.broker) c.sends) :
    List.SublistForall₂ (fun d m => m.Carries u d) (x.taken ++ x.waiting b)
      (c.sends ++ [c.message i payload b]) := by
  unfold Node.waiting BrokerLink.waiting at h ⊢
  cases hl : x.life.link with
  | none =>
    rw [hl] at h
    exact carried_concat_right h _
  | some l =>
    rw [hl, Option.map_some, Option.getD_some] at h
    rw [Option.map_some, Option.getD_some]
    cases hn : l.current? with
    | none =>
      rw [hn] at h
      exact carried_concat_right h _
    | some n =>
      rw [hn, Option.map_some, Option.getD_some] at h
      rw [Option.map_some, Option.getD_some]
      -- The message is the last one, so a delivery of it goes behind everything else.
      rcases waiting_published hsession hp n with hn | ⟨d, hd, hn⟩
      · rw [hn]
        exact carried_concat_right h _
      · rw [hn, ← List.append_assoc]
        exact carried_concat h hd

theorem Coherent.queued_published (h : c.Coherent u) {session n : Nat} {payload : Bytes}
    {d : Delivery} (hsession : c.broker.binding? session = some (u i).binding)
    (hp : c.broker.publish session payload = some (.ok b)) (hd : d ∈ b.waiting n) :
    ∃ m ∈ c.sends ++ [c.message i payload b], m.Carries u d := by
  have hold : d ∈ c.broker.waiting n → ∃ m ∈ c.sends ++ [c.message i payload b],
      m.Carries u d := fun hd => by
    obtain ⟨m, hm, hcarries⟩ := h.queued n d hd
    exact ⟨m, List.mem_append_left _ hm, hcarries⟩
  rcases waiting_published hsession hp n with hn | ⟨d', hd', hn⟩
  · rw [hn] at hd
    exact hold hd
  · rw [hn] at hd
    rcases List.mem_append.1 hd with hd | hd
    · exact hold hd
    · rw [List.mem_singleton.1 hd]
      exact ⟨_, List.mem_append_right _ (List.mem_singleton.2 rfl), hd'⟩

variable [DecidableEq ι]

theorem node_setNode_self (c : Cluster ι) (i : ι) (x : Node) : (c.setNode i x).node i = x := by
  unfold Cluster.setNode
  simp only [Function.update_self]

theorem node_setNode_of_ne (c : Cluster ι) {j : ι} (hj : j ≠ i) (x : Node) :
    (c.setNode i x).node j = c.node j := by
  unfold Cluster.setNode
  simp only [Function.update_of_ne hj]

/-- What holds of the new node and held of the other ones holds of all of them. -/
theorem forall_setNode {P : ι → Node → Prop} (hnew : P i x)
    (hother : ∀ j, j ≠ i → P j (c.node j)) (j : ι) : P j ((c.setNode i x).node j) := by
  by_cases hj : j = i
  · subst hj
    rw [node_setNode_self]
    exact hnew
  · rw [node_setNode_of_ne c hj]
    exact hother j hj

/-- A node does something by itself: what it has not taken in or kept waiting is lost to it. -/
theorem Coherent.setNode (h : c.Coherent u) (hdistinct : Function.Injective fun i => (u i).binding)
    (hb : c.broker.Within (u i).binding b) (hx : x.Sound (u i) b c.now)
    (hw : (x.taken ++ x.waiting b).Sublist ((c.node i).taken ++ (c.node i).waiting c.broker)) :
    ({ c with broker := b }.setNode i x).Coherent u where
  broker := hb.sound h.broker
  node :=
    -- Another node has another binding, so nothing has been done with its sessions.
    forall_setNode (P := fun j x => x.Sound (u j) b c.now) hx fun j hj =>
      (h.node j).of_within hb fun heq => hj (hdistinct heq)
  carried := by
    refine forall_setNode (P := fun (_ : ι) x => List.SublistForall₂ (fun d m => m.Carries u d)
      (x.taken ++ x.waiting b) c.sends) (carried_of_sublist (h.carried i) hw) fun j hj => ?_
    rw [(h.node j).waiting_of_within hb fun heq => hj (hdistinct heq)]
    exact h.carried j
  queued n d hd := h.queued n d ((hb.shrinks n).subset hd)
  ordered := h.ordered
  bounded m hm := by
    show m.last ≤ b.lastTag
    rw [hb.lastTag_eq]
    exact h.bounded m hm
  published := hb.published_eq.trans h.published

/-! ## Publishing -/

theorem Coherent.accept (h : c.Coherent u) {session : Nat} {payload : Bytes}
    (hsession : c.broker.binding? session = some (u i).binding)
    (hp : c.broker.publish session payload = some (.ok b)) :
    (c.accept i payload b).Coherent u := by
  obtain ⟨sender, -, hle, hpublished, hsessions⟩ := Memory.observed_publish hp
  constructor
  case broker => exact h.broker.publish hp
  case node =>
    have hsound : ∀ j, (c.node j).Sound (u j) b c.now := fun j =>
      (h.node j).congr (fun n => (hsessions n).1) fun n => (hsessions n).2.1
    refine forall_setNode (P := fun j x => x.Sound (u j) b c.now) ?_ fun j _ => hsound j
    -- Its call is over, and the rest of the node is what it was.
    exact ⟨(hsound i).link, nofun, nofun, (hsound i).delivered⟩
  case carried =>
    refine forall_setNode (P := fun (_ : ι) x => List.SublistForall₂ (fun d m => m.Carries u d)
      (x.taken ++ x.waiting b) (c.sends ++ [c.message i payload b])) ?_ fun j _ =>
        carried_published hsession hp (h.carried j)
    exact carried_published hsession hp (h.carried i)
  case queued => exact fun n d hd => h.queued_published hsession hp hd
  case ordered =>
    -- The tags of the message are above those that the broker has given out before.
    refine List.pairwise_append.2 ⟨h.ordered, List.pairwise_singleton _ _, ?_⟩
    intro m hm m' hm'
    rw [List.mem_singleton.1 hm']
    exact h.bounded m hm
  case bounded =>
    intro m hm
    show m.last ≤ b.lastTag
    rcases List.mem_append.1 hm with hm | hm
    · exact (h.bounded m hm).trans hle
    · rw [List.mem_singleton.1 hm]
      exact Nat.le_refl _
  case published =>
    show b.published = (c.sends ++ [_]).length
    rw [hpublished, h.published, List.length_append, List.length_singleton]

/-! ## Steps and runs -/

/-- Everything that a step can do to a coherent cluster. -/
inductive Stepped (u : Setup ι) (c : Cluster ι) : Step ι → Cluster ι → Prop where
  | idle (s : Step ι) : Stepped u c s c
  /-- A call goes on, and nothing else changes. -/
  | call {s : Step ι} {i : ι} {x : Node} (hx : x.Sound (u i) c.broker c.now)
      (hlink : x.life.link = (c.node i).life.link) (htaken : x.taken = (c.node i).taken) :
      Stepped u c s (c.setNode i x)
  /-- A node works on its sessions. -/
  | work {s : Step ι} {i : ι} {x : Node} {b : Memory}
      (hs : s = .connect i ∧ (c.node i).life.link = none ∨ s = .move i ∨ s = .release i)
      (hb : c.broker.Within (u i).binding b) (hx : x.Sound (u i) b c.now)
      (hw : (x.taken ++ x.waiting b).Sublist ((c.node i).taken ++ (c.node i).waiting c.broker)) :
      Stepped u c s ({ c with broker := b }.setNode i x)
  | accept {i : ι} {session : Nat} {payload : Bytes} {b : Memory}
      (hsession : c.broker.binding? session = some (u i).binding)
      (hp : c.broker.publish session payload = some (.ok b)) :
      Stepped u c (.publish i) (c.accept i payload b)
  | reachable (value : Bool) :
      Stepped u c (.reachable value) { c with broker := c.broker.setReachable value }
  | pass (millis : Nat) : Stepped u c (.pass millis) { c with now := c.now + millis }

theorem Coherent.connect (h : c.Coherent u) (hcall : (c.node i).call = some .starting) :
    Stepped u c (.connect i) (c.connect u i) := by
  have hx := h.node i
  have hlink := hx.starting hcall
  unfold Cluster.connect
  split
  case h_1 session b hconnect =>
    obtain ⟨hbinding, hnone, hreader, -⟩ := Memory.observed_connect_new hconnect
    refine .work (.inl ⟨rfl, hlink⟩) (Memory.within_connect hconnect)
      ⟨fun l hl => ?_, nofun, nofun, hx.delivered⟩ ?_
    · cases hl
      refine ⟨rfl, hbinding, ?_, ?_, nofun⟩
      · intro n hn
        cases hn
        exact hbinding
      · intro n hn
        cases hn
        exact ⟨hbinding, hreader⟩
    · -- Nothing waits in the queue of a new session.
      show ((c.node i).taken ++ b.waiting session).Sublist _
      rw [hnone, List.append_nil]
      exact List.sublist_append_left _ _
  case h_2 => exact .call ⟨hx.link, nofun, nofun, hx.delivered⟩ rfl rfl

theorem exists_publish {session : Nat} {own : Binding} (h : b.binding? session = some own)
    (payload : Bytes) : ∃ r, b.publish session payload = some r := by
  obtain ⟨s, hs, -⟩ := Option.map_eq_some_iff.1 h
  unfold Memory.publish
  rw [hs]
  exact ⟨_, rfl⟩

theorem Coherent.publish (h : c.Coherent u) {session : Nat} {payload : Bytes}
    (hcall : (c.node i).call = some (.sending session payload)) :
    Stepped u c (.publish i) (c.publish i session payload) := by
  have hx := h.node i
  have hsession := hx.sending session payload hcall
  obtain ⟨r, hr⟩ := exists_publish hsession payload
  unfold Cluster.publish
  simp only [Backend.publish, hr]
  cases r with
  | ok b => exact .accept hsession hr
  | error e => exact .call ⟨hx.link, nofun, nofun, hx.delivered⟩ rfl rfl

theorem waiting_of_link {l : BrokerLink} (hl : x.life.link = some l) (b : Memory) :
    x.waiting b = l.waiting b := by
  rw [Node.waiting, hl]
  rfl

theorem Coherent.move (h : c.Coherent u) {l : BrokerLink} (hl : (c.node i).life.link = some l) :
    Stepped u c (.move i) (c.move u i l) := by
  have hx := h.node i
  have hlink := hx.link l hl
  unfold Cluster.move
  cases hmove : l.move (u i).config.reconnect c.now (c.node i).life.traffic
      (Backend.memory c.broker) with
  | none =>
    simp only [hmove]
    exact .idle _
  | some p =>
    obtain ⟨l', t', r⟩ := p
    obtain ⟨b, rfl, hm⟩ := BrokerLink.moved_of_move hmove
    have hb := hm.within (by rw [hlink.binding_eq]; exact hlink.session)
    rw [hlink.binding_eq] at hb
    simp only [hmove]
    refine .work (.inr (.inl rfl)) hb (hx.move hl hm) ?_
    rw [waiting_of_link hl]
    show ((_ ++ _) ++ l'.waiting b).Sublist _
    -- What is taken in was the first thing waiting, so both lists together do not grow.
    rw [List.append_assoc]
    exact (List.Sublist.refl _).append (hm.waiting hlink)

theorem Coherent.release (h : c.Coherent u) {l : BrokerLink}
    (hl : (c.node i).life.link = some l) : Stepped u c (.release i) (c.release i l) := by
  have hx := h.node i
  have hlink := hx.link l hl
  -- A session found by a call under way is the node's own, so it may be closed too.
  obtain ⟨b, hclose, hb⟩ := BrokerLink.within_close (l := l) (b := c.broker)
    (by rw [hlink.binding_eq]; exact hlink.session) fun call due session hs => by
      rw [hlink.binding_eq]
      exact (hlink.current session (by rw [BrokerLink.current?, hs])).1
  rw [hlink.binding_eq] at hb
  unfold Cluster.release
  simp only [hclose]
  refine .work (.inr (.inr rfl)) hb
    ⟨fun l hnone => ?_, fun _ => rfl, fun n payload hn => ?_, hx.delivered⟩ ?_
  · cases hnone
  · exact hb.binding _ _ (hx.sending n payload hn)
  · exact (List.Sublist.refl _).append (List.nil_sublist _)

theorem Coherent.stepped (h : c.Coherent u) (s : Step ι) : Stepped u c s (c.step u s) := by
  -- A step whose conditions do not hold leaves the cluster as it is.
  cases s with
  | start i =>
    have hx := h.node i
    simp only [step]
    split
    case h_1 hcall hstart =>
      have hlink := (Lifecycle.mayStart_eq_ok hstart).2
      exact .call ⟨hx.link, fun _ => hlink, nofun, hx.delivered⟩ rfl rfl
    case h_2 => exact .idle _
  | connect i =>
    simp only [step]
    split
    case h_1 hcall => exact h.connect hcall
    case h_2 => exact .idle _
  | send i payload =>
    simp only [step]
    split
    case h_1 session hcall hsend => exact .call ((h.node i).send hsend) rfl rfl
    case h_2 => exact .idle _
  | publish i =>
    simp only [step]
    split
    case h_1 session payload hcall => exact h.publish hcall
    case h_2 => exact .idle _
  | move i =>
    simp only [step]
    split
    case h_1 l hl => exact h.move hl
    case h_2 => exact .idle _
  | close i =>
    have hx := h.node i
    exact .call ⟨hx.link, hx.starting, hx.sending, hx.delivered⟩ rfl rfl
  | release i =>
    simp only [step]
    split
    case h_1 l hcall hclosed hl => exact h.release hl
    case h_2 => exact .idle _
  | reachable value => exact .reachable value
  | pass millis => exact .pass millis

theorem Stepped.coherent {s : Step ι} {c' : Cluster ι} (hs : Stepped u c s c') (h : c.Coherent u)
    (hdistinct : Function.Injective fun i => (u i).binding) : c'.Coherent u := by
  cases hs with
  | idle => exact h
  | call hx hlink htaken =>
    refine h.setNode hdistinct (.refl _ _) hx ?_
    rw [htaken, Node.waiting, hlink]
    exact List.Sublist.refl _
  | work hs hb hx hw => exact h.setNode hdistinct hb hx hw
  | accept hsession hp => exact h.accept hsession hp
  | reachable value => exact h.setReachable value
  | pass millis =>
    exact ⟨h.broker, fun j => (h.node j).later (Nat.le_add_right _ _), h.carried, h.queued,
      h.ordered, h.bounded, h.published⟩

theorem coherent_run (h : c.Coherent u) (hdistinct : Function.Injective fun i => (u i).binding)
    (steps : List (Step ι)) : (c.run u steps).Coherent u := by
  -- Every step keeps the cluster coherent, whoever makes it.
  induction steps generalizing c with
  | nil => exact h
  | cons s steps ih => exact ih ((h.stepped s).coherent h hdistinct)

end Cluster

end EvictionBus.Broker
