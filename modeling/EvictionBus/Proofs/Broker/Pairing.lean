import Mathlib.Data.List.Nodup
import EvictionBus.Proofs.Broker.Solo

/-!
# Publishers and deliveries

A link reads the deliveries of one session and sends through the publisher of one session.  The two
are changed one after the other while calls to send go on, and a search may be given up or cut off
by closing.  `Paired` says how they belong together at any time, and what has become of the
publishers before.
-/

namespace EvictionBus.Broker

variable {l l' : BrokerLink} {b b' : Custom} {t t' : Traffic} {now : Nat} {backoff : Backoff}

/-- The sessions of a link, the publishers that have been closed, and the session whose publisher is
in its place while the one before is being closed. -/
inductive Paired (l : BrokerLink) (b : Custom) : Option Nat → Prop where
  /-- Deliveries are read, or nothing has been found yet. -/
  | steady (hfound : ∀ call due n, l.supervisor ≠ .calling call due (.ok n))
      (hnotGivenUp : l.supervisor ≠ .gaveUp) (hnotStopped : l.supervisor ≠ .stopped)
      (publisher : l.publisher = some l.session) (opened : b.opened = l.session + 1)
      (closed : b.closed = List.range l.session) : Paired l b none
  | found {call due : Nat} (supervisor : l.supervisor = .calling call due (.ok (l.session + 1)))
      (publisher : l.publisher = some l.session) (opened : b.opened = l.session + 2)
      (closed : b.closed = List.range l.session) : Paired l b none
  | adopted {call due : Nat} (supervisor : l.supervisor = .calling call due (.ok (l.session + 1)))
      (publisher : l.publisher = some (l.session + 1)) (opened : b.opened = l.session + 2)
      (closed : b.closed = List.range (l.session + 1)) : Paired l b (some (l.session + 1))
  | gaveUp (supervisor : l.supervisor = .gaveUp) (publisher : l.publisher = none) : Paired l b none

/-! ## The supervisor -/

theorem connect_eq (b : Custom) (now : Nat) (binding : Binding) :
    (∃ e, Connector.connect now binding b = (b.answers.takes, .error e, b)) ∨
      Connector.connect now binding b =
        (b.answers.takes, .ok b.opened, { b with opened := b.opened + 1 }) := by
  cases hr : b.answers.refusal with
  | some e => exact .inl ⟨e, by simp only [Connector.connect, hr]⟩
  | none => exact .inr (by simp only [Connector.connect, hr])

theorem grant_eq_ok {refusal : Option TransportError} (h : Custom.grant refusal b = .ok b') :
    b' = b := by
  unfold Custom.grant at h
  split at h
  · cases h
  · cases h
    rfl

theorem paired_call (hpublisher : l.publisher = some l.session)
    (hopened : b.opened = l.session + 1) (hclosed : b.closed = List.range l.session)
    (now number : Nat) : Paired (l.call now b number).1 (l.call now b number).2 none ∧
      b.opened ≤ (l.call now b number).2.opened := by
  unfold BrokerLink.call
  -- No session is opened, or one behind all the others.
  rcases connect_eq b now l.binding with ⟨e, he⟩ | hok
  · rw [he]
    exact ⟨.steady nofun nofun nofun hpublisher hopened hclosed, Nat.le_refl _⟩
  · rw [hok, hopened]
    exact ⟨.found rfl hpublisher rfl hclosed, Nat.le_succ _⟩

theorem paired_move (h : Paired l b none) (hnone : l.found? now = none)
    (hmove : l.move backoff now t b = some (l', t', b')) :
    Paired l' b' none ∧ b.opened ≤ b'.opened := by
  unfold BrokerLink.move at hmove
  cases h with
  | gaveUp hs =>
    simp only [hs] at hmove
    cases hmove
  | found hs =>
    -- What has been found waits for the end of its call.
    unfold BrokerLink.found? at hnone
    simp only [hs] at hnone hmove
    split at hmove
    next hdue =>
      rw [if_pos hdue] at hnone
      cases hnone
    · cases hmove
  | steady hfound hnotGivenUp hnotStopped hpublisher hopened hclosed =>
    cases hs : l.supervisor with
    | consuming =>
      simp only [hs, Connector.next] at hmove
      cases hn : b.answers.next with
      | delivery d =>
        simp only [hn] at hmove
        cases hmove
        exact ⟨.steady nofun nofun nofun hpublisher hopened hclosed, Nat.le_refl _⟩
      | pending =>
        simp only [hn] at hmove
        cases hmove
      | ended =>
        simp only [hn] at hmove
        cases hmove
        exact paired_call hpublisher hopened hclosed now 1
      | failed e =>
        simp only [hn] at hmove
        cases hmove
        exact paired_call hpublisher hopened hclosed now 1
    | acknowledging tag =>
      simp only [hs] at hmove
      split at hmove
      next b₁ hb =>
        cases hmove
        rw [grant_eq_ok hb]
        exact ⟨.steady nofun nofun nofun hpublisher hopened hclosed, Nat.le_refl _⟩
      · cases hmove
        exact paired_call hpublisher hopened hclosed now 1
    | calling call due result =>
      simp only [hs] at hmove
      split at hmove
      next hdue =>
        cases result with
        | ok n => exact absurd hs (hfound call due n)
        | error e =>
          -- The search goes on after a while, or it has failed for good.
          simp only at hmove
          split at hmove
          · cases hmove
            exact ⟨.steady nofun nofun nofun hpublisher hopened hclosed, Nat.le_refl _⟩
          · cases hmove
            exact ⟨.gaveUp rfl rfl, Nat.le_refl _⟩
      · cases hmove
    | waiting call due =>
      simp only [hs] at hmove
      split at hmove
      · cases hmove
        exact paired_call hpublisher hopened hclosed now (call + 1)
      · cases hmove
    | gaveUp => exact absurd hs hnotGivenUp
    | stopped => exact absurd hs hnotStopped

/-- A session that has been found is the next one, and the publisher before it is closed. -/
theorem paired_adopt {session : Nat} (h : Paired l b none) (hfound : l.found? now = some session) :
    Paired (l.adopt b session).1 (l.adopt b session).2 (some session) := by
  obtain ⟨call, due, hs, -⟩ := BrokerLink.supervisor_of_found hfound
  cases h with
  | steady hnone => exact absurd hs (hnone call due session)
  | gaveUp hgaveUp =>
    rw [hs] at hgaveUp
    cases hgaveUp
  | found hs' hpublisher hopened hclosed =>
    rw [hs] at hs'
    cases hs'
    unfold BrokerLink.adopt
    simp only [hpublisher]
    refine .adopted hs rfl hopened ?_
    show b.closed ++ [l.session] = _
    rw [hclosed, List.range_succ]

theorem paired_resume {session : Nat} (h : Paired l b (some session)) :
    Paired (l.resume b session).1 (l.resume b session).2 none := by
  cases h with
  | adopted _ hpublisher hopened hclosed =>
    exact .steady nofun nofun nofun hpublisher hopened hclosed

theorem Paired.of_broker {adopted : Option Nat} (h : Paired l b adopted)
    (hopened : b'.opened = b.opened) (hclosed : b'.closed = b.closed) : Paired l b' adopted := by
  cases h with
  | steady hfound hnotGivenUp hnotStopped hpublisher ho hc =>
    exact .steady hfound hnotGivenUp hnotStopped hpublisher (hopened.trans ho) (hclosed.trans hc)
  | found hs hpublisher ho hc => exact .found hs hpublisher (hopened.trans ho) (hclosed.trans hc)
  | adopted hs hpublisher ho hc =>
    exact .adopted hs hpublisher (hopened.trans ho) (hclosed.trans hc)
  | gaveUp hs hpublisher => exact .gaveUp hs hpublisher

theorem Paired.not_gaveUp {session : Nat} (h : Paired l b (some session)) :
    l.supervisor ≠ .gaveUp := by
  cases h with
  | adopted hs =>
    rw [hs]
    nofun

theorem Paired.lt_opened {adopted : Option Nat} {p : Nat} (h : Paired l b adopted)
    (hp : l.publisher = some p) : p < b.opened := by
  cases h with
  | steady _ _ _ hpublisher hopened =>
    rw [hp] at hpublisher
    cases hpublisher
    omega
  | found _ hpublisher hopened =>
    rw [hp] at hpublisher
    cases hpublisher
    omega
  | adopted _ hpublisher hopened =>
    rw [hp] at hpublisher
    cases hpublisher
    omega
  | gaveUp _ hpublisher =>
    rw [hp] at hpublisher
    cases hpublisher

/-- Where deliveries are read, publisher and deliveries are those of one session. -/
theorem Paired.of_consumes {adopted : Option Nat} (h : Paired l b adopted)
    (hconsumes : l.consumes = true) : l.publisher = some l.session ∧ b.opened = l.session + 1 ∧
      b.closed = List.range l.session := by
  cases h with
  | steady _ _ _ hpublisher hopened hclosed => exact ⟨hpublisher, hopened, hclosed⟩
  | found hs =>
    simp only [BrokerLink.consumes, hs] at hconsumes
    cases hconsumes
  | adopted hs =>
    simp only [BrokerLink.consumes, hs] at hconsumes
    cases hconsumes
  | gaveUp hs =>
    simp only [BrokerLink.consumes, hs] at hconsumes
    cases hconsumes

theorem Paired.of_gaveUp {adopted : Option Nat} (h : Paired l b adopted)
    (hgaveUp : l.supervisor = .gaveUp) : l.publisher = none := by
  cases h with
  | steady _ hnot => exact absurd hgaveUp hnot
  | found hs =>
    rw [hs] at hgaveUp
    cases hgaveUp
  | adopted hs =>
    rw [hs] at hgaveUp
    cases hgaveUp
  | gaveUp _ hpublisher => exact hpublisher

/-! ## The node -/

namespace Solo

variable {m : Member} {c d e : Solo}

/-- The link of a node, if there is one, is paired; a node without a link that may still be started
has not opened any session. -/
structure Sound (c : Solo) : Prop where
  paired : ∀ l, c.node.life.link = some l → Paired l c.broker c.adopted
  unlinked : c.node.life.link = none → c.adopted = none ∧
    (c.node.life.closed = false → c.broker.opened = 0 ∧ c.broker.closed = [])
  starting : c.node.call = some .starting →
    c.node.life.link = none ∧ c.broker.opened = 0 ∧ c.broker.closed = []

/-- `d` comes from `c`: sessions are only added, and what has been closed or given up stays so. -/
structure Onward (c d : Solo) : Prop where
  sound : d.Sound
  opened_le : c.broker.opened ≤ d.broker.opened
  closed : c.node.life.closed = true → d.node.life.closed = true
  gaveUp : ∀ l, c.node.life.link = some l → l.supervisor = .gaveUp →
    d.node.life.closed = false → d.node.life.link = some l

theorem Onward.refl (h : c.Sound) : c.Onward c :=
  ⟨h, Nat.le_refl _, fun h => h, fun _ hl _ _ => hl⟩

theorem Onward.trans (h : c.Onward d) (h' : d.Onward e) : c.Onward e where
  sound := h'.sound
  opened_le := Nat.le_trans h.opened_le h'.opened_le
  closed hc := h'.closed (h.closed hc)
  gaveUp l hl hs hopen := by
    have hd : d.node.life.closed = false := by
      cases hd : d.node.life.closed with
      | false => rfl
      | true => exact absurd (h'.closed hd) (by rw [hopen]; decide)
    exact h'.gaveUp l (h.gaveUp l hl hs hd) hs hopen

/-- What does not change the link, the sessions or the publishers closed is all the same. -/
theorem onward_of_same (h : c.Sound) (hlink : d.node.life.link = c.node.life.link)
    (hadopted : d.adopted = c.adopted) (hopened : d.broker.opened = c.broker.opened)
    (hclosed : d.broker.closed = c.broker.closed)
    (hmark : c.node.life.closed = true → d.node.life.closed = true)
    (hcall : d.node.call = some .starting → c.node.call = some .starting) : c.Onward d where
  sound := {
    paired := fun l hl => by
      rw [hadopted]
      exact (h.paired l (hlink ▸ hl)).of_broker hopened hclosed
    unlinked := fun hnone => by
      obtain ⟨hadopted', hzero⟩ := h.unlinked (hlink ▸ hnone)
      refine ⟨hadopted.trans hadopted', fun hopen => ?_⟩
      rw [hopened, hclosed]
      apply hzero
      cases hc : c.node.life.closed with
      | false => rfl
      | true => exact absurd (hmark hc) (by rw [hopen]; decide)
    starting := fun hs => by
      rw [hlink, hopened, hclosed]
      exact h.starting (hcall hs) }
  opened_le := Nat.le_of_eq hopened.symm
  closed := hmark
  gaveUp l hl _ _ := hlink.trans hl

/-- The supervisor of a link that is there has moved it on. -/
theorem onward_of_link (h : c.Sound) (hl : c.node.life.link = some l)
    (hl' : d.node.life.link = some l') (hpaired : Paired l' d.broker d.adopted)
    (hopened : c.broker.opened ≤ d.broker.opened)
    (hmark : d.node.life.closed = c.node.life.closed) (hcall : d.node.call = c.node.call)
    (hgaveUp : l.supervisor ≠ .gaveUp) : c.Onward d where
  sound := {
    paired := fun k hk => by
      rw [hl'] at hk
      cases hk
      exact hpaired
    unlinked := fun hnone => by
      rw [hl'] at hnone
      cases hnone
    starting := fun hs => by
      rw [hcall] at hs
      rw [(h.starting hs).1] at hl
      cases hl }
  opened_le := hopened
  closed hc := hmark.trans hc
  gaveUp k hk hs _ := by
    rw [hl] at hk
    cases hk
    exact absurd hs hgaveUp

theorem onward_connect (h : c.Sound) (hcall : c.node.call = some .starting) :
    c.Onward (c.connect m) := by
  obtain ⟨hlink, hopened, hclosed⟩ := h.starting hcall
  unfold connect
  rcases connect_eq c.broker c.now m.binding with ⟨e, he⟩ | hok
  · rw [he]
    exact onward_of_same h rfl rfl rfl rfl (fun hc => hc) nofun
  · rw [hok, hopened]
    -- The first session of the node.
    have hpaired : Paired (.ofSession m.binding 0) { c.broker with opened := 1 } c.adopted := by
      rw [(h.unlinked hlink).1]
      exact .steady nofun nofun nofun rfl rfl hclosed
    refine ⟨⟨fun l hl => ?_, nofun, nofun⟩, ?_, fun hc => hc, fun l hl => ?_⟩
    · cases hl
      exact hpaired
    · rw [hopened]
      exact Nat.zero_le 1
    · rw [hlink] at hl
      cases hl

theorem onward_move (h : c.Sound) (hl : c.node.life.link = some l) : c.Onward (c.move m l) := by
  have hpaired := h.paired l hl
  unfold move
  -- A change of session that has been begun is made first.
  cases hadopted : c.adopted with
  | some session =>
    rw [hadopted] at hpaired
    exact onward_of_link h hl rfl (paired_resume hpaired) (Nat.le_refl _) rfl rfl hpaired.not_gaveUp
  | none =>
    rw [hadopted] at hpaired
    cases hfound : l.found? c.now with
    | some session =>
      obtain ⟨call, due, hs, -⟩ := BrokerLink.supervisor_of_found hfound
      have hopened : c.broker.opened ≤ (l.adopt c.broker session).2.opened := by
        unfold BrokerLink.adopt
        cases l.publisher <;> exact Nat.le_refl _
      exact onward_of_link h hl rfl (paired_adopt hpaired hfound) hopened rfl rfl
        (by rw [hs]; nofun)
    | none =>
      show c.Onward (c.work m l)
      unfold work
      cases hmove : l.move m.config.reconnect c.now c.node.life.traffic c.broker with
      | none => exact .refl h
      | some moved =>
        obtain ⟨l', t, b⟩ := moved
        obtain ⟨hpaired', hopened⟩ := paired_move hpaired hfound hmove
        have hgaveUp : l.supervisor ≠ .gaveUp := by
          intro hs
          unfold BrokerLink.move at hmove
          simp only [hs] at hmove
          cases hmove
        rw [← hadopted] at hpaired'
        exact onward_of_link h hl rfl hpaired' hopened rfl rfl hgaveUp

theorem onward_release (hcall : c.node.call = none)
    (hclosed : c.node.life.closed = true) (l : BrokerLink) : c.Onward (c.release l) := by
  have hopened : (l.close c.broker).2.opened = c.broker.opened := by
    unfold BrokerLink.close
    cases l.publisher <;> split <;> rfl
  have hgone : ∀ hopen : (c.release l).node.life.closed = false, False := fun hopen => by
    change c.node.life.closed = false at hopen
    rw [hclosed] at hopen
    cases hopen
  refine ⟨⟨nofun, fun _ => ⟨rfl, fun hopen => (hgone hopen).elim⟩, fun hs => ?_⟩,
    Nat.le_of_eq hopened.symm, fun hc => hc, fun _ _ _ hopen => (hgone hopen).elim⟩
  change c.node.call = _ at hs
  rw [hcall] at hs
  cases hs

theorem onward_step (h : c.Sound) (x : Step) : c.Onward (c.step m x) := by
  cases x with
  | answer answers => exact onward_of_same h rfl rfl rfl rfl (fun hc => hc) fun hs => hs
  | start =>
    simp only [step]
    split
    next hcall hmay =>
      obtain ⟨hopen, hlink⟩ := Lifecycle.mayStart_eq_ok hmay
      obtain ⟨-, hzero⟩ := h.unlinked hlink
      refine ⟨⟨h.paired, h.unlinked, fun _ => ⟨hlink, hzero hopen⟩⟩, Nat.le_refl _, fun hc => hc,
        fun _ hl _ _ => hl⟩
    · exact .refl h
  | connect =>
    simp only [step]
    split
    next hcall => exact onward_connect h hcall
    · exact .refl h
  | send payload =>
    simp only [step]
    split
    · exact onward_of_same h rfl rfl rfl rfl (fun hc => hc) nofun
    · exact .refl h
  | publish =>
    simp only [step]
    split
    next s payload hcall =>
      unfold publish
      split
      next b hb =>
        cases grant_eq_ok hb
        exact onward_of_same h rfl rfl rfl rfl (fun hc => hc) nofun
      · exact onward_of_same h rfl rfl rfl rfl (fun hc => hc) nofun
    · exact .refl h
  | move =>
    simp only [step]
    split
    next l hl => exact onward_move h hl
    · exact .refl h
  | close => exact onward_of_same h rfl rfl rfl rfl (fun _ => rfl) fun hs => hs
  | release =>
    simp only [step]
    split
    next l hcall hclosed hl => exact onward_release hcall hclosed l
    · exact .refl h
  | pass millis => exact onward_of_same h rfl rfl rfl rfl (fun hc => hc) fun hs => hs

theorem onward_run (h : c.Sound) (steps : List Step) : c.Onward (c.run m steps) := by
  induction steps generalizing c with
  | nil => exact .refl h
  | cons x steps ih =>
    have hstep := onward_step (m := m) h x
    exact hstep.trans (ih hstep.sound)

theorem sound_initial (answers : Answers) : (initial answers).Sound :=
  ⟨nofun, fun _ => ⟨rfl, fun _ => ⟨rfl, rfl⟩⟩, nofun⟩

/-! ## What a node can rely on -/

/-- The payload is not above the largest message. -/
def InLimit (m : Member) (payload : Bytes) : Prop :=
  Lifecycle.checkPayload m.config.effectiveMaxMessageSize payload.length = .ok ()

/-- A call to send answers with the error as soon as its turn has come, and nothing else happens: no
publisher is called. -/
structure Refuses (m : Member) (c : Solo) (payload : Bytes) (error : TransportError) : Prop where
  send_eq : c.node.send m payload = .error error
  answer_eq : c.node.call = none → c.answer? m (.send payload) = some error
  step_eq : c.step m (.send payload) = c

theorem refuses_of_send {payload : Bytes} {error : TransportError}
    (h : c.node.send m payload = .error error) : Refuses m c payload error where
  send_eq := h
  answer_eq hcall := by
    unfold answer?
    simp only [hcall, h]
  step_eq := by
    unfold step
    simp only [h]
    split
    next hs => cases hs
    · rfl

theorem refuses_of_closed {payload : Bytes} (hclosed : c.node.life.closed = true)
    (hlimit : InLimit m payload) : Refuses m c payload .closed := by
  apply refuses_of_send
  unfold Node.send Lifecycle.active
  rw [hlimit, hclosed]
  rfl

theorem refuses_of_empty {payload : Bytes} (hopen : c.node.life.closed = false)
    (hlink : c.node.life.link = some l) (hempty : l.publisher = none)
    (hlimit : InLimit m payload) :
    Refuses m c payload (.brokerUnreachable "no broker connection") := by
  apply refuses_of_send
  unfold Node.send Lifecycle.active
  rw [hlimit, hopen, hlink]
  show l.publishing = _
  unfold BrokerLink.publishing
  rw [hempty]

theorem closed_of_mem (h : c.Sound) {steps : List Step} (hclose : .close ∈ steps) :
    (c.run m steps).node.life.closed = true := by
  obtain ⟨first, more, rfl⟩ := List.append_of_mem hclose
  have hfirst := onward_run (m := m) h first
  have hstep := onward_step (m := m) hfirst.sound .close
  have hmore := onward_run (m := m) hstep.sound more
  rw [run, List.foldl_append, List.foldl_cons]
  exact hmore.closed rfl

/-- Whatever its broker answers, a node that reads deliveries sends through the publisher of the
same session, and each publisher that has been in its place before has been closed once.  Once the
node has given up there is no publisher, and once it is closed nothing is sent. -/
theorem paired_run (m : Member) (answers : Answers) (steps : List Step) :
    let c := (initial answers).run m steps
    (∀ l, c.node.life.link = some l → c.node.life.closed = false →
      (l.consumes = true → l.publisher = some l.session ∧ c.broker.closed = List.range l.session ∧
        ∀ first more p, steps = first ++ more → ((initial answers).run m first).slot = some p →
          p ≠ l.session → c.broker.closed.count p = 1) ∧
      (l.supervisor = .gaveUp → ∀ more, (c.run m more).node.life.closed = false →
        (c.run m more).slot = none ∧ ∀ payload, InLimit m payload →
          Refuses m (c.run m more) payload (.brokerUnreachable "no broker connection"))) ∧
    (.close ∈ steps → ∀ payload, InLimit m payload → Refuses m c payload .closed) := by
  intro c
  have hc : c.Sound := (onward_run (sound_initial answers) steps).sound
  refine ⟨fun l hl hopen => ⟨fun hconsumes => ?_, fun hgaveUp more hmore => ?_⟩, ?_⟩
  · obtain ⟨hpublisher, hopened, hclosed⟩ := (hc.paired l hl).of_consumes hconsumes
    refine ⟨hpublisher, hclosed, fun first more p hsteps hslot hne => ?_⟩
    -- An earlier publisher is of an earlier session.
    have hfirst := (onward_run (m := m) (sound_initial answers) first).sound
    have hlater : ((initial answers).run m first).Onward c := by
      have hrun : c = ((initial answers).run m first).run m more := by
        show run m _ steps = _
        rw [hsteps]
        exact List.foldl_append
      rw [hrun]
      exact onward_run hfirst more
    obtain ⟨k, hk, hp⟩ := Option.bind_eq_some_iff.1 hslot
    have hlt := (hfirst.paired k hk).lt_opened hp
    have hle := hlater.opened_le
    rw [hclosed]
    exact List.count_eq_one_of_mem List.nodup_range (List.mem_range.2 (by omega))
  · -- Only closing the node takes away a link whose supervisor has given up.
    have honward := onward_run (m := m) hc more
    have hlink := honward.gaveUp l hl hgaveUp hmore
    have hempty := (hc.paired l hl).of_gaveUp hgaveUp
    refine ⟨?_, fun payload hlimit => refuses_of_empty hmore hlink hempty hlimit⟩
    rw [slot, hlink]
    exact hempty
  · intro hclose payload hlimit
    exact refuses_of_closed (closed_of_mem (sound_initial answers) hclose) hlimit

/-- A node that gives up after one call. -/
def impatient : Member :=
  ⟨{ TransportConfig.ofKind .broker with reconnect := Backoff.standard.withMaxAttempts (some 1) },
    ⟨List.replicate 16 3, rfl⟩⟩

/-- A broker that ends every stream of deliveries. -/
def fickle : Answers :=
  ⟨0, none, .ended, none, none⟩

/-- The first session ends, and a payload is sent while the node goes over to the second one. -/
def takeover : List Step :=
  [.start, .connect, .move, .move, .send [7], .publish, .move]

/-- The second session ends as well, and no third one is to be had. -/
def failure : List Step :=
  takeover ++ [.answer { fickle with refusal := some .closed }, .move, .move]

theorem paired_run_takeover :
    (∃ l, ((initial fickle).run impatient takeover).node.life.link = some l ∧
      l.consumes = true ∧ l.publisher = some 1 ∧
      ((initial fickle).run impatient takeover).broker.closed.count 0 = 1) ∧
    (((initial fickle).run impatient failure).slot = none ∧
      Refuses impatient ((initial fickle).run impatient failure) [8]
        (.brokerUnreachable "no broker connection")) ∧
    Refuses impatient ((initial fickle).run impatient (failure ++ [.close])) [8] .closed := by
  have hlimit : InLimit impatient [8] := rfl
  have hreads : ((initial fickle).run impatient takeover).node.life.link.map
      (fun l => (l.consumes, l.session)) = some (true, 1) := by decide +kernel
  have hfailed : ((initial fickle).run impatient failure).node.life.link.map
      (fun l => l.supervisor matches .gaveUp) = some true := by decide +kernel
  refine ⟨?_, ?_, ?_⟩
  · obtain ⟨l, hl, heq⟩ := Option.map_eq_some_iff.1 hreads
    obtain ⟨hconsumes, hsession⟩ := Prod.mk.inj heq
    have hpaired := (paired_run impatient fickle takeover).1 l hl (by decide +kernel)
    obtain ⟨hpublisher, -, honce⟩ := hpaired.1 hconsumes
    rw [hsession] at hpublisher honce
    exact ⟨l, hl, hconsumes, hpublisher,
      honce [.start, .connect] [.move, .move, .send [7], .publish, .move] 0 rfl
        (by decide +kernel) (by decide)⟩
  · obtain ⟨l, hl, heq⟩ := Option.map_eq_some_iff.1 hfailed
    have hgaveUp : l.supervisor = .gaveUp := by
      split at heq
      next hs => exact hs
      · cases heq
    have hpaired := (paired_run impatient fickle failure).1 l hl (by decide +kernel)
    obtain ⟨hempty, hrefuses⟩ := hpaired.2 hgaveUp [] (by decide +kernel)
    exact ⟨hempty, hrefuses [8] hlimit⟩
  · have hclose : Step.close ∈ failure ++ [.close] := List.mem_append_right _ List.mem_cons_self
    have hrefuses := (paired_run impatient fickle (failure ++ [.close])).2 hclose
    exact hrefuses [8] hlimit

end Solo

end EvictionBus.Broker
