import EvictionBus.Proofs.Broker.Coherence

/-!
# Nodes that go on reading

As long as its session is live, a supervisor never searches for another one: it takes in one
delivery after the other and acknowledges each.  So everything that waits for a node is taken in
after twice as many moves, whatever else happens in the meantime, unless the broker goes offline or
the node is released.
-/

namespace EvictionBus

namespace BrokerLink

open Broker

variable {l : BrokerLink} {b : Memory} {own : Binding} {now n : Nat}

/-- A link whose session can be used. -/
def Live (l : BrokerLink) (b : Memory) : Prop :=
  ∃ n, l.current? = some n ∧ b.Live n

/-- The number of moves before the next delivery is read. -/
def behind (l : BrokerLink) : Nat :=
  match l.supervisor with
  | .consuming => 0
  | _ => 1

/-- The next move of a link takes in a delivery or makes it ready for the next one, and nothing is
lost. -/
def Advances (l : BrokerLink) (backoff : Backoff) (now : Nat) (t : Traffic) (b : Memory) : Prop :=
  ∃ l' t' b', l.move backoff now t (Backend.memory b) = some (l', t', .memory b') ∧ l'.Live b' ∧
    l.waiting b = (l.delivery? (Backend.memory b)).toList ++ l'.waiting b' ∧
    l'.behind + l.behind = 1 ∧ (l.delivery? (Backend.memory b)).toList.length = l'.behind

variable (backoff : Backoff) (t : Traffic)

theorem advances_reading {d : Delivery} {rest : List Delivery} (hs : l.supervisor = .consuming)
    (hreader : b.hasReader l.session = true) (hlive : b.Live l.session)
    (hw : b.waiting l.session = d :: rest) : l.Advances backoff now t b := by
  have hnext := Memory.next_of_waiting hreader hw
  obtain ⟨s, hget, -⟩ := Memory.hasReader_eq_true_iff.1 hreader
  have hdelivery : l.delivery? (Backend.memory b) = some d := by
    simp only [delivery?, hs, Connector.next, Backend.next, hnext]
  have hlive' := (Memory.live_modify (m := l.session) (f := fun s => { s with queue := rest })
    fun _ => rfl).2 hlive
  refine ⟨{ l with supervisor := .acknowledging d.tag }, l.takeIn t d, _, ?_, ⟨_, rfl, hlive'⟩,
    ?_, ?_, ?_⟩
  · simp only [move, hs, Connector.next, Backend.next, hnext]
  · rw [hdelivery, waiting, current?, hs]
    show b.waiting l.session = d :: Memory.waiting _ l.session
    rw [Memory.waiting_modify_queue hget, hw]
  · simp only [behind, hs]
  · rw [hdelivery]
    rfl

theorem advances_acknowledging {tag : Nat} (hs : l.supervisor = .acknowledging tag)
    (hreader : b.hasReader l.session = true) (hlive : b.Live l.session) :
    l.Advances backoff now t b := by
  have hok := Memory.acknowledge_of_live hreader hlive
  have hdelivery : l.delivery? (Backend.memory b) = none := by simp only [delivery?, hs]
  refine ⟨{ l with supervisor := .consuming }, t, { b with acknowledged := b.acknowledged + 1 }, ?_,
    ⟨_, rfl, hlive⟩, ?_, ?_, ?_⟩
  · simp only [move, hs, Connector.acknowledge, Backend.acknowledge, hok, Except.map]
  · rw [hdelivery, waiting, current?, hs]
    rfl
  · simp only [behind, hs]
  · rw [hdelivery]
    rfl

theorem advances_calling {call due : Nat} (hs : l.supervisor = .calling call due (.ok n))
    (hdue : due ≤ now) (hne : n ≠ l.session) (hlive : b.Live n) : l.Advances backoff now t b := by
  have hdelivery : l.delivery? (Backend.memory b) = none := by simp only [delivery?, hs]
  have hlive' := (Memory.live_modify (m := l.session)
    (f := fun s => { s with queue := [], reading := false }) fun _ => rfl).2 hlive
  refine ⟨⟨l.binding, n, some n, .consuming⟩, t, b.dropReader l.session, ?_, ⟨n, rfl, hlive'⟩,
    ?_, ?_, ?_⟩
  · simp only [move, hs, if_pos hdue, replaceSession, adopt]
    cases l.publisher <;> rfl
  · rw [hdelivery, waiting, current?, hs]
    show b.waiting n = Memory.waiting _ n
    exact (Memory.observed_modify (Ne.symm hne)).2.1.symm
  · simp only [behind, hs]
  · rw [hdelivery]
    rfl

/-- A live link moves unless it has nothing to read. -/
theorem advances_of_live (h : l.Sound own b now) (hb : b.Sound) (hlive : l.Live b) :
    l.Advances backoff now t b ∨
      l.behind = 0 ∧ l.waiting b = [] ∧ l.move backoff now t (Backend.memory b) = none := by
  obtain ⟨n, hn, hlive⟩ := hlive
  have hreader := (h.current n hn).2
  -- A live link has a current session, so it is reading, acknowledging or about to change over.
  cases hs : l.supervisor with
  | consuming =>
    rw [current?, hs] at hn
    cases hn
    cases hw : b.waiting l.session with
    | nil =>
      have hnext := hb.next_of_empty hreader hlive hw
      refine .inr ⟨by rw [behind, hs], ?_, ?_⟩
      · rw [waiting, current?, hs]
        exact hw
      · simp only [move, hs, Connector.next, Backend.next, hnext]
    | cons d rest => exact .inl (advances_reading backoff t hs hreader hlive hw)
  | acknowledging tag =>
    rw [current?, hs] at hn
    cases hn
    exact .inl (advances_acknowledging backoff t hs hreader hlive)
  | calling call due result =>
    cases result with
    | error e =>
      rw [current?, hs] at hn
      cases hn
    | ok session =>
      rw [current?, hs] at hn
      cases hn
      obtain ⟨hne, hdue⟩ := h.renews _ _ _ hs
      exact .inl (advances_calling backoff t hs hdue hne hlive)
  | waiting call due =>
    rw [current?, hs] at hn
    cases hn
  | gaveUp =>
    rw [current?, hs] at hn
    cases hn
  | stopped =>
    rw [current?, hs] at hn
    cases hn

end BrokerLink

namespace Broker

namespace Node

/-- A node whose session can be used. -/
def Live (x : Node) (b : Memory) : Prop :=
  ∃ l, x.life.link = some l ∧ l.Live b

/-- The number of moves after which a node has taken in `k` deliveries. -/
def lag (x : Node) (k : Nat) : Nat :=
  if k ≤ x.taken.length then 0
  else 2 * (k - x.taken.length) - 1 + (x.life.link.map BrokerLink.behind).getD 0

end Node

/-- Whether a step is a move of a node. -/
def Step.isMove {ι : Type} [DecidableEq ι] (j : ι) : Step ι → Bool
  | .move i => i = j
  | _ => false

/-- Whether a step keeps a node from reading: an outage, or the release of the node. -/
def Step.interrupts {ι : Type} [DecidableEq ι] (j : ι) : Step ι → Bool
  | .reachable value => !value
  | .release i => i = j
  | _ => false

namespace Cluster

variable {ι : Type} {u : Setup ι} {c c' c'' : Cluster ι} {i j : ι} {k spent more : Nat}

/-- A node goes on reading, and is `spent` moves nearer to its `k`th delivery. -/
structure GoesOn (j : ι) (k spent : Nat) (c c' : Cluster ι) : Prop where
  live : (c'.node j).Live c'.broker
  kept : (c.node j).taken ++ (c.node j).waiting c.broker <+:
    (c'.node j).taken ++ (c'.node j).waiting c'.broker
  lag_le : (c'.node j).lag k ≤ (c.node j).lag k - spent

theorem GoesOn.trans (h : GoesOn j k spent c c') (h' : GoesOn j k more c' c'') :
    GoesOn j k (spent + more) c c'' where
  live := h'.live
  kept := h.kept.trans h'.kept
  lag_le := by
    have := h.lag_le
    have := h'.lag_le
    omega

theorem Coherent.goesOn_of_same (h : c.Coherent u) (hlive : (c.node j).Live c.broker)
    (hlink : (c'.node j).life.link = (c.node j).life.link)
    (htaken : (c'.node j).taken = (c.node j).taken)
    (hb : ∀ n, c.broker.binding? n = some (u j).binding → c.broker.Live n →
      c'.broker.Live n ∧ c.broker.waiting n <+: c'.broker.waiting n) : GoesOn j k 0 c c' := by
  obtain ⟨l, hl, n, hn, hlive⟩ := hlive
  -- What the link reads from is a session of its own, so `hb` speaks of it.
  have hbinding := (((h.node j).link l hl).current n hn).1
  obtain ⟨hlive', hwaiting⟩ := hb n hbinding hlive
  refine ⟨⟨l, by rw [hlink, hl], n, hn, hlive'⟩, ?_, ?_⟩
  · rw [waiting_of_link hl, waiting_of_link (by rw [hlink, hl]), htaken]
    unfold BrokerLink.waiting
    rw [hn]
    exact (List.prefix_append_right_inj _).2 hwaiting
  · unfold Node.lag
    rw [hlink, htaken]
    exact Nat.le_refl _

variable [DecidableEq ι]

theorem Coherent.goesOn_move (h : c.Coherent u) (hlive : (c.node j).Live c.broker)
    (hk : k ≤ ((c.node j).taken ++ (c.node j).waiting c.broker).length) :
    GoesOn j k 1 c (c.step u (.move j)) := by
  obtain ⟨l, hl, hlive⟩ := hlive
  have hadvances := BrokerLink.advances_of_live (u j).config.reconnect (c.node j).life.traffic
    ((h.node j).link l hl) h.broker hlive
  rw [waiting_of_link hl, List.length_append] at hk
  simp only [step, hl, Cluster.move]
  rcases hadvances with ⟨l', t', b', hmove, hlive', hwaiting, hbehind, htaken⟩ |
    ⟨hbehind, hnone, hmove⟩
  · simp only [hmove]
    refine ⟨?_, ?_, ?_⟩
    · rw [node_setNode_self]
      exact ⟨l', rfl, hlive'⟩
    · rw [node_setNode_self, waiting_of_link hl, waiting_of_link (l := l') rfl, hwaiting,
        List.append_assoc]
      exact List.prefix_refl _
    · rw [node_setNode_self]
      unfold Node.lag
      simp only [hl, Option.map_some, Option.getD_some, List.length_append, htaken]
      -- Every second move takes in one delivery, and the others make the link ready for one.
      split <;> split <;> omega
  · -- There is nothing to read.
    simp only [hmove]
    rw [hnone, List.length_nil, Nat.add_zero] at hk
    refine ⟨⟨l, hl, hlive⟩, List.prefix_refl _, ?_⟩
    simp only [Node.lag, if_pos hk]
    exact Nat.zero_le _

theorem kept_setNode (c : Cluster ι) {x : Node} (hlink : x.life.link = (c.node i).life.link)
    (htaken : x.taken = (c.node i).taken) (j : ι) :
    ((c.setNode i x).node j).life.link = (c.node j).life.link ∧
      ((c.setNode i x).node j).taken = (c.node j).taken := by
  exact forall_setNode (P := fun j y => y.life.link = (c.node j).life.link ∧
    y.taken = (c.node j).taken) ⟨hlink, htaken⟩ (fun _ _ => ⟨rfl, rfl⟩) j

theorem Coherent.goesOn_of_work (h : c.Coherent u)
    (hdistinct : Function.Injective fun i => (u i).binding) (hlive : (c.node j).Live c.broker)
    {x : Node} {b : Memory} (hb : c.broker.Within (u i).binding b) (hij : i ≠ j) :
    GoesOn j k 0 c ({ c with broker := b }.setNode i x) := by
  have hsame : ({ c with broker := b }.setNode i x).node j = c.node j :=
    node_setNode_of_ne _ (Ne.symm hij) x
  refine h.goesOn_of_same hlive (by rw [hsame]) (by rw [hsame]) fun n hbinding hn => ?_
  refine ⟨hb.live n hn, ?_⟩
  show c.broker.waiting n <+: b.waiting n
  rw [hb.waiting n _ hbinding fun heq => hij (hdistinct heq).symm]

theorem Coherent.goesOn_step (h : c.Coherent u)
    (hdistinct : Function.Injective fun i => (u i).binding) (hlive : (c.node j).Live c.broker)
    (hk : k ≤ ((c.node j).taken ++ (c.node j).waiting c.broker).length) {s : Step ι}
    (hs : s.interrupts j = false) : GoesOn j k (if s.isMove j then 1 else 0) c (c.step u s) := by
  by_cases hmove : s.isMove j = true
  · obtain rfl : s = .move j := by
      cases s <;> simp [Step.isMove] at hmove
      rw [hmove]
    rw [if_pos hmove]
    exact h.goesOn_move hlive hk
  rw [if_neg hmove]
  -- Any other step leaves the node and its session alone, up to what is queued behind.
  have hstay : ∀ n, c.broker.binding? n = some (u j).binding → c.broker.Live n →
      c.broker.Live n ∧ c.broker.waiting n <+: c.broker.waiting n := fun n _ hn =>
    ⟨hn, List.prefix_refl _⟩
  have hstepped := h.stepped s
  generalize c.step u s = c' at hstepped ⊢
  cases hstepped with
  | idle => exact h.goesOn_of_same hlive rfl rfl hstay
  | @call _ i x hx hlink htaken =>
    have hsame := kept_setNode c hlink htaken j
    exact h.goesOn_of_same hlive hsame.1 hsame.2 hstay
  | @work _ i x b hworks hb hx hw =>
    refine h.goesOn_of_work hdistinct hlive hb ?_
    rintro rfl
    rcases hworks with ⟨rfl, hnone⟩ | rfl | rfl
    -- A node that starts has no link yet, and what else works on the sessions of `j` is excluded.
    · obtain ⟨l, hl, -⟩ := hlive
      rw [hl] at hnone
      cases hnone
    · simp [Step.isMove] at hmove
    · simp [Step.interrupts] at hs
  | @accept i session payload b hsession hp =>
    have hsame : ((c.accept i payload b).node j).life.link = (c.node j).life.link ∧
        ((c.accept i payload b).node j).taken = (c.node j).taken :=
      kept_setNode c (x := { c.node i with life := (c.node i).life.countSent, call := none })
        rfl rfl j
    refine h.goesOn_of_same hlive hsame.1 hsame.2 fun n _ hn => ⟨Memory.live_publish hp hn, ?_⟩
    show c.broker.waiting n <+: b.waiting n
    rcases waiting_published hsession hp n with hn | ⟨d, -, hn⟩
    · rw [hn]
    · rw [hn]
      exact List.prefix_append _ _
  | reachable value =>
    obtain rfl : value = true := by simpa [Step.interrupts] using hs
    -- A session is live only while the broker is reachable, so nothing changes.
    have hsame : c.broker.setReachable true = c.broker := by
      obtain ⟨l, -, n, -, hn⟩ := hlive
      exact Memory.setReachable_of_live hn
    rw [hsame]
    exact h.goesOn_of_same hlive rfl rfl hstay
  | pass => exact h.goesOn_of_same hlive rfl rfl hstay

/-- Whatever happens in the meantime, every move of a node counts. -/
theorem Coherent.goesOn_run (h : c.Coherent u)
    (hdistinct : Function.Injective fun i => (u i).binding) (hlive : (c.node j).Live c.broker)
    (hk : k ≤ ((c.node j).taken ++ (c.node j).waiting c.broker).length) {steps : List (Step ι)}
    (hsteps : ∀ s ∈ steps, s.interrupts j = false) :
    GoesOn j k (steps.countP (Step.isMove j)) c (c.run u steps) := by
  -- The lag of a step adds up, because what waits only gets more behind what is there.
  induction steps generalizing c with
  | nil => exact ⟨hlive, List.prefix_refl _, Nat.le_refl _⟩
  | cons s steps ih =>
    have hfirst := h.goesOn_step hdistinct hlive hk (hsteps s List.mem_cons_self)
    have hrest := ih ((h.stepped s).coherent h hdistinct) hfirst.live
      (hk.trans hfirst.kept.length_le) fun s hs => hsteps s (List.mem_cons_of_mem _ hs)
    rw [List.countP_cons, Nat.add_comm]
    exact hfirst.trans hrest

/-- What waits for a node has been taken in after twice as many moves. -/
theorem Coherent.taken_of_moves (h : c.Coherent u)
    (hdistinct : Function.Injective fun i => (u i).binding) (hlive : (c.node j).Live c.broker)
    {steps : List (Step ι)} (hsteps : ∀ s ∈ steps, s.interrupts j = false)
    (hmoves : 2 * ((c.node j).waiting c.broker).length ≤ steps.countP (Step.isMove j)) :
    (c.node j).taken ++ (c.node j).waiting c.broker <+: ((c.run u steps).node j).taken := by
  have hrun := h.goesOn_run hdistinct hlive (Nat.le_refl _) hsteps
  have hlag := hrun.lag_le
  rw [List.length_append] at hlag
  -- A link is at most one move behind.
  have hbehind : ((c.node j).life.link.map BrokerLink.behind).getD 0 ≤ 1 := by
    cases (c.node j).life.link with
    | none => exact Nat.zero_le _
    | some l =>
      show l.behind ≤ 1
      unfold BrokerLink.behind
      split <;> omega
  refine List.prefix_of_prefix_length_le hrun.kept (List.prefix_append _ _) ?_
  rw [List.length_append]
  unfold Node.lag at hlag
  split at hlag
  case isTrue hle => exact hle
  case isFalse hle =>
    split at hlag <;> omega

end Cluster

end Broker

end EvictionBus
