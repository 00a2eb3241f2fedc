import EvictionBus.Proofs.Broker.Progress

/-!
# What the nodes at a broker hand to their owners

However the nodes and the broker move, and however often the broker goes offline: a node hands to
its owner messages of the other nodes only, in the order in which they were published, and none of
them twice.  What is published while its session is live it hands out exactly once, if it goes on
reading.
-/

namespace EvictionBus.Broker

/-! ## One delivery of each message -/

section Once

variable {α β : Type} {R : α → β → Prop} {as : List α} {bs : List β} {b : β}

/-- If nothing belongs to two of the `bs`, at most one of the `as` belongs to each. -/
theorem countP_carried_le_one [∀ b, DecidablePred fun a => R a b]
    (h : List.SublistForall₂ R as bs)
    (hbs : bs.Pairwise fun b b' => ∀ a, R a b → ¬ R a b') (hb : b ∈ bs) :
    as.countP (fun a => R a b) ≤ 1 := by
  -- What belongs to a later message does not belong to this one.
  have hnone : ∀ {as' bs' b'}, List.SublistForall₂ R as' bs' →
      (∀ b ∈ bs', ∀ a, R a b' → ¬ R a b) → as'.countP (fun a => R a b') = 0 := by
    intro as' bs' b' h' hapart
    refine List.countP_eq_zero.2 fun a ha hr => ?_
    obtain ⟨b, hb, hr'⟩ := exists_carrier h' ha
    exact hapart b hb a (of_decide_eq_true hr) hr'
  -- By induction on the messages: either this is the first one, or it comes later.
  induction h with
  | nil => exact Nat.zero_le _
  | @cons a b₁ _ _ hr hrest ih =>
    obtain ⟨hfirst, hbs⟩ := List.pairwise_cons.1 hbs
    rw [List.countP_cons]
    rcases List.mem_cons.1 hb with rfl | hb
    · rw [hnone hrest hfirst]
      split <;> omega
    · rw [if_neg (by simpa using hfirst _ hb a hr)]
      exact ih hbs hb
  | @cons_right b₁ _ _ hrest ih =>
    obtain ⟨hfirst, hbs⟩ := List.pairwise_cons.1 hbs
    rcases List.mem_cons.1 hb with rfl | hb
    · rw [hnone hrest hfirst]
      exact Nat.zero_le _
    · exact ih hbs hb

end Once

namespace Cluster

variable {ι : Type} {u : Setup ι} {c : Cluster ι} {i j : ι} {m : Message ι} {d : Delivery}

theorem handed_sublist (u : Setup ι) (c : Cluster ι) (j : ι) : ((c.node j).handed (u j)).Sublist
    ((c.node j).taken ++ (c.node j).waiting c.broker) :=
  List.filter_sublist.trans (List.sublist_append_left _ _)

theorem Coherent.handed (h : c.Coherent u) [DecidableEq ι] (j : ι) :
    List.SublistForall₂ (fun d m => m.Carries u d) ((c.node j).handed (u j))
      (c.sends.filter fun m => m.sender ≠ j) := by
  -- The routing key of a delivery says whose message it is.
  refine carried_filter (carried_of_sublist (h.carried j) (handed_sublist u c j)) ?_
  intro d hd m hm
  have hother := (List.mem_filter.1 hd).2
  simp only [decide_eq_true_eq] at hother ⊢
  rintro rfl
  exact hother hm.2.2.1

theorem Coherent.carries_of_carries (h : c.Coherent u) :
    c.sends.Pairwise fun m m' => ∀ d, m.Carries u d → ¬ m'.Carries u d := by
  -- Each message has tags of its own.
  refine h.ordered.imp fun hle d hm hm' => ?_
  have := hm.2.1
  have := hm'.1
  omega

theorem Coherent.countP_handed_le_one (h : c.Coherent u) (j : ι) (hm : m ∈ c.sends) :
    ((c.node j).handed (u j)).countP (fun d => m.Carries u d) ≤ 1 := by
  exact countP_carried_le_one (R := fun d m => Message.Carries u m d)
    (carried_of_sublist (h.carried j) (handed_sublist u c j)) h.carries_of_carries hm

theorem countP_handed_own (u : Setup ι) (c : Cluster ι) (m : Message ι) :
    ((c.node m.sender).handed (u m.sender)).countP (fun d => m.Carries u d) = 0 := by
  refine List.countP_eq_zero.2 fun d hd hm => ?_
  have hother := (List.mem_filter.1 hd).2
  simp only [decide_eq_true_eq] at hother hm
  exact hother hm.2.2.1

variable [DecidableEq ι] {c' : Cluster ι}

/-! ## Messages that are accepted -/

theorem Stepped.sends_prefix {s : Step ι} (h : Stepped u c s c') : c.sends <+: c'.sends := by
  cases h with
  | accept => exact List.prefix_append _ _
  | _ => exact List.prefix_refl _

theorem Coherent.sends_prefix (h : c.Coherent u)
    (hdistinct : Function.Injective fun i => (u i).binding) (steps : List (Step ι)) :
    c.sends <+: (c.run u steps).sends := by
  induction steps generalizing c with
  | nil => exact List.prefix_refl _
  | cons s steps ih =>
    have hs := h.stepped s
    exact hs.sends_prefix.trans (ih (hs.coherent h hdistinct))

theorem Coherent.accept_of_answer (h : c.Coherent u)
    (ha : c.answer? u (.publish i) = some (.ok ())) :
    ∃ session payload b, (c.node i).call = some (.sending session payload) ∧
      c.broker.publish session payload = some (.ok b) ∧
      c.step u (.publish i) = c.accept i payload b := by
  cases hcall : (c.node i).call with
  | none =>
    simp only [answer?, hcall] at ha
    cases ha
  | some call =>
    cases call with
    | starting =>
      simp only [answer?, hcall] at ha
      cases ha
    | sending session payload =>
      obtain ⟨r, hr⟩ := exists_publish ((h.node i).sending session payload hcall) payload
      cases r with
      | ok b =>
        refine ⟨session, payload, b, rfl, hr, ?_⟩
        simp only [step, hcall, Cluster.publish, Backend.publish, hr, Except.map]
      | error e =>
        simp only [answer?, hcall, Backend.publish, hr, Except.map] at ha
        cases ha

/-- A call to send that fails has changed no queue and published nothing. -/
theorem broker_of_answer_error {s : Step ι} {e : TransportError}
    (ha : c.answer? u s = some (.error e)) :
    (c.step u s).broker = c.broker ∧ (c.step u s).sends = c.sends := by
  -- Only these two steps answer a call to send, and both leave the broker when they fail.
  cases s with
  | send i payload =>
    simp only [answer?] at ha
    split at ha
    case h_1 hcall hsend =>
      have hstep : c.step u (.send i payload) = c := by simp only [step, hcall, hsend]
      rw [hstep]
      exact ⟨rfl, rfl⟩
    case h_2 => cases ha
  | publish i =>
    simp only [answer?] at ha
    split at ha
    case h_1 session payload hcall =>
      cases hp : (Backend.memory c.broker).publish session payload with
      | ok b =>
        rw [hp] at ha
        cases ha
      | error e =>
        simp only [step, hcall, Cluster.publish, hp]
        exact ⟨rfl, rfl⟩
    case h_2 => cases ha
  | _ => cases ha

theorem Coherent.waiting_accept (h : c.Coherent u)
    (hexchange : ∀ i j, (u i).binding.exchange = (u j).binding.exchange) {session : Nat}
    {payload : Bytes} {b : Memory} (hcall : (c.node i).call = some (.sending session payload))
    (hp : c.broker.publish session payload = some (.ok b)) (hij : j ≠ i)
    (hlive : (c.node j).Live c.broker) :
    ∃ d, (c.message i payload b).Carries u d ∧ d ∈ ((c.accept i payload b).node j).waiting b := by
  obtain ⟨l, hl, n, hn, hlive⟩ := hlive
  obtain ⟨hbinding, hreader⟩ := ((h.node j).link l hl).current n hn
  have hsession := (h.node i).sending session payload hcall
  obtain ⟨tag, hfirst, hlast, hw⟩ :=
    h.broker.waiting_publish hp hsession hbinding (hexchange j i) hreader hlive
  have hsame : (c.accept i payload b).node j = c.node j := node_setNode_of_ne _ hij _
  refine ⟨⟨tag, (u i).binding.routingKey, payload⟩, ⟨hfirst, hlast, rfl, rfl⟩, ?_⟩
  rw [hsame, waiting_of_link hl, BrokerLink.waiting, hn, Option.map_some, Option.getD_some, hw]
  exact List.mem_append_right _ (List.mem_singleton.2 rfl)

/-- A node whose session is live hands out exactly one delivery of a message, after enough moves. -/
theorem Coherent.delivers (h : c.Coherent u)
    (hdistinct : ∀ i j, (u i).binding.routingKey = (u j).binding.routingKey → i = j)
    (hexchange : ∀ i j, (u i).binding.exchange = (u j).binding.exchange) {session : Nat}
    {payload : Bytes} {b : Memory} (hcall : (c.node i).call = some (.sending session payload))
    (hp : c.broker.publish session payload = some (.ok b))
    (hstep : c.step u (.publish i) = c.accept i payload b) (hij : j ≠ i)
    (hlive : (c.node j).Live c.broker) {later : List (Step ι)}
    (hlater : ∀ s ∈ later, s.interrupts j = false)
    (hmoves : 2 * ((((c.step u (.publish i)).node j).waiting
      (c.step u (.publish i)).broker).length) ≤ later.countP (Step.isMove j)) :
    ((((c.step u (.publish i)).run u later).node j).handed (u j)).countP
      (fun d => (c.message i payload b).Carries u d) = 1 := by
  have hinjective : Function.Injective fun i => (u i).binding := fun i j heq =>
    hdistinct i j (congrArg Binding.routingKey heq)
  have hgoes := h.goesOn_step (k := 0) hinjective hlive (Nat.zero_le _)
    (s := .publish i) rfl
  have hnext := (h.stepped (.publish i)).coherent h hinjective
  have hlast := coherent_run hnext hinjective later
  obtain ⟨d, hd, hwaiting⟩ := h.waiting_accept hexchange hcall hp hij hlive
  have htaken := hnext.taken_of_moves hinjective hgoes.live hlater hmoves
  rw [hstep] at hnext hlast htaken ⊢
  -- It waits right after the message has been published, and all of that is taken in.
  have hmem : d ∈ (((c.accept i payload b).run u later).node j).taken :=
    htaken.subset (List.mem_append_right _ hwaiting)
  have hhanded : d ∈ (((c.accept i payload b).run u later).node j).handed (u j) := by
    refine List.mem_filter.2 ⟨hmem, ?_⟩
    rw [hd.2.2.1]
    exact decide_eq_true fun heq => hij (hdistinct i j heq).symm
  have hpublished : c.message i payload b ∈ ((c.accept i payload b).run u later).sends :=
    (hnext.sends_prefix hinjective later).subset
      (List.mem_append_right _ (List.mem_singleton.2 rfl))
  -- At least one delivery of it has been handed on, and never more than one.
  have hone := hlast.countP_handed_le_one j hpublished
  have hpos := List.countP_pos_iff (p := fun d => (c.message i payload b).Carries u d).2
    ⟨d, hhanded, decide_eq_true hd⟩
  omega

/-! ## Runs -/

/-- How the messages of a cluster have been handed out so far. -/
structure Orderly (u : Setup ι) (c : Cluster ι) : Prop where
  /-- The owner of a node is handed the payloads of the deliveries of others, -/
  payloads : ∀ j, (c.node j).life.traffic.delivered =
    ((c.node j).handed (u j)).map Delivery.payload
  /-- which belong to a subsequence of the messages of others -/
  inOrder : ∀ j, List.SublistForall₂ (fun d m => m.Carries u d) ((c.node j).handed (u j))
    (c.sends.filter fun m => m.sender ≠ j)
  /-- and at most one to each message, -/
  once : ∀ j, ∀ m ∈ c.sends, ((c.node j).handed (u j)).countP (fun d => m.Carries u d) ≤ 1
  /-- but none to a message of the node's own. -/
  own : ∀ m : Message ι, ((c.node m.sender).handed (u m.sender)).countP (fun d => m.Carries u d) = 0
  /-- There is nothing in a queue that is not of a message. -/
  queued : ∀ n, ∀ d ∈ c.broker.waiting n, ∃ m ∈ c.sends, m.Carries u d
  counted : c.broker.published = c.sends.length

/-- How the messages of a run are handed out. -/
structure FansOut (u : Setup ι) (steps : List (Step ι)) : Prop where
  orderly : (initial.run u steps).Orderly u
  /-- A call to send that succeeds has published its payload.  Every other node whose session is
  live at that time hands it out exactly once, when it has made two moves for each delivery that
  waits for it, unless the broker goes offline or the node is released before. -/
  accepted : ∀ earlier i later, steps = earlier ++ .publish i :: later →
    (initial.run u earlier).answer? u (.publish i) = some (.ok ()) →
    ∃ session m, ((initial.run u earlier).node i).call = some (.sending session m.payload) ∧
      m.sender = i ∧
      ((initial.run u earlier).step u (.publish i)).sends = (initial.run u earlier).sends ++ [m] ∧
      ∀ j, j ≠ i → ((initial.run u earlier).node j).Live (initial.run u earlier).broker →
        (∀ s ∈ later, s.interrupts j = false) →
        2 * ((((initial.run u earlier).step u (.publish i)).node j).waiting
          ((initial.run u earlier).step u (.publish i)).broker).length ≤
            later.countP (Step.isMove j) →
        (((initial.run u steps).node j).handed (u j)).countP (fun d => m.Carries u d) = 1
  /-- A call to send that fails has changed no queue and published nothing. -/
  refused : ∀ earlier s later e, steps = earlier ++ s :: later →
    (initial.run u earlier).answer? u s = some (.error e) →
    ((initial.run u earlier).step u s).broker = (initial.run u earlier).broker ∧
      ((initial.run u earlier).step u s).sends = (initial.run u earlier).sends

/-- However nodes with distinct identities and one exchange move, and however often the broker goes
offline, their messages are handed out in order and at most once, and exactly once to those who go
on reading. -/
theorem fansOut_run (u : Setup ι) (hidentity : ∀ i j, (u i).identity = (u j).identity → i = j)
    (hexchange : ∀ i j, (u i).config.exchangeName = (u j).config.exchangeName)
    (steps : List (Step ι)) : FansOut u steps := by
  have hdistinct : ∀ i j, (u i).binding.routingKey = (u j).binding.routingKey → i = j :=
    fun i j heq => hidentity i j (Identity.text_inj heq)
  have hinjective : Function.Injective fun i => (u i).binding := fun i j heq =>
    hdistinct i j (congrArg Binding.routingKey heq)
  have hcoherent : ∀ steps, (initial.run u steps).Coherent u :=
    coherent_run (coherent_initial u) hinjective
  have h := hcoherent steps
  constructor
  case orderly =>
    exact ⟨fun j => (h.node j).delivered, h.handed, fun j m hm => h.countP_handed_le_one j hm,
      countP_handed_own u _, h.queued, h.published⟩
  case accepted =>
    rintro earlier i later rfl ha
    obtain ⟨session, payload, b, hcall, hp, hstep⟩ := (hcoherent earlier).accept_of_answer ha
    refine ⟨session, (initial.run u earlier).message i payload b, hcall, rfl, ?_, ?_⟩
    · rw [hstep]
      rfl
    intro j hij hlive hlater hmoves
    rw [run_append]
    exact (hcoherent earlier).delivers hdistinct hexchange hcall hp hstep hij hlive hlater hmoves
  case refused => exact fun earlier s later e _ ha => broker_of_answer_error ha

/-- Two nodes with the identities of ones and of twos. -/
def two : Setup Bool := fun i =>
  ⟨TransportConfig.ofKind .broker, ⟨List.replicate 16 (if i then 2 else 1), List.length_replicate⟩⟩

/-- Two nodes start.  The first one publishes a payload, which the second one reads after an outage;
its next payload gets through when both have found a new session. -/
def outage : List (Step Bool) :=
  [.start false, .connect false, .start true, .connect true, .send false [7], .publish false,
    .reachable false, .send false [8], .publish false, .reachable true, .move true, .move true,
    .move true, .move false, .move false, .move false, .send false [9], .publish false, .move true,
    .move true]

theorem fansOut_outage : (∀ i j, (two i).identity = (two j).identity → i = j) ∧ FansOut two outage ∧
    ((initial.run two outage).node true).life.traffic.delivered = [[7], [9]] := by
  have hidentity : ∀ i j, (two i).identity = (two j).identity → i = j := by decide
  refine ⟨hidentity, fansOut_run two hidentity (fun _ _ => rfl) outage, ?_⟩
  decide +kernel

end Cluster

end EvictionBus.Broker
