import EvictionBus.Proofs.Net.Bookkeeping

/-!
# Calls and the life of a transport

What a node has answered to its calls tells how far the life of its transport has come: whether it
has been started, how often it has sent, and whether it has been closed. One structure says so, and
everything that happens keeps it.
-/

namespace EvictionBus.Net

namespace Node

/-- The call whose turn it is. -/
def inHand (n : Node) : List (Nat × Task) :=
  n.current.toList.map fun c => (c.1, c.2.task)

/-- The calls that wait for their turn. -/
def queued (n : Node) : List (Nat × Task) :=
  n.queue.map fun c => (c.1, c.2.task)

def waiting (n : Node) : List (Nat × Task) :=
  n.inHand ++ n.queued

end Node

/-! ## Life goes on -/

/-- One life is another later on, with the slot of the link as it was. -/
structure Continues (t s : Lifecycle Link) : Prop where
  closed : t.closed = true → s.closed = true
  sent : s.traffic.sent = t.traffic.sent
  link : s.link.map Link.kind = t.link.map Link.kind

namespace Continues

variable {t s r : Lifecycle Link}

theorem refl (t : Lifecycle Link) : Continues t t := ⟨id, rfl, rfl⟩

theorem trans (h : Continues t s) (hnext : Continues s r) : Continues t r :=
  ⟨hnext.closed ∘ h.closed, hnext.sent.trans h.sent, hnext.link.trans h.link⟩

theorem link_eq_none (h : Continues t s) : s.link = none ↔ t.link = none := by
  rw [← Option.map_eq_none_iff (f := Link.kind), h.link, Option.map_eq_none_iff]

theorem isSome_link (h : Continues t s) : s.link.isSome = t.link.isSome := by
  rw [← Option.isSome_map (f := Link.kind), h.link, Option.isSome_map]

theorem exists_kind {l : Link} (h : Continues t s) (hl : s.link = some l) :
    ∃ k, t.link = some k ∧ k.kind = l.kind := by
  have hmap := h.link
  rw [hl] at hmap
  exact Option.map_eq_some_iff.mp hmap.symm

theorem markClosed (t : Lifecycle Link) : Continues t t.markClosed :=
  ⟨fun _ => rfl, rfl, rfl⟩

theorem startFailed (kind : TransportKind) (t : Lifecycle Link) :
    Continues t (t.startFailed kind) := by
  cases kind with
  | relay => exact markClosed t
  | _ => exact refl t

theorem sendFailed (kind : TransportKind) (t : Lifecycle Link) :
    Continues t (t.sendFailed kind) := by
  cases kind with
  | relay => exact markClosed t
  | _ => exact refl t

theorem receivingEnded (kind : TransportKind) (t : Lifecycle Link) :
    Continues t (t.receivingEnded kind) := by
  cases kind with
  | broker => exact refl t
  | _ => exact markClosed t

theorem modifyLink {f : Link → Link} (hf : ∀ l, (f l).kind = l.kind) (t : Lifecycle Link) :
    Continues t (t.modifyLink f) := by
  refine ⟨id, rfl, ?_⟩
  unfold Lifecycle.modifyLink
  rw [Option.map_map]
  exact Option.map_congr fun l _ => hf l

theorem relinked (links? : Option MeshLinks) (t : Lifecycle Link) :
    Continues t (Net.relinked links? t) := by
  cases links? with
  | none => exact refl t
  | some links => exact modifyLink (Link.kind_withLinks links) t

theorem reach (n : Node) (ds : List Datagram) (connections : List Nat) :
    Continues n.life (n.reach ds connections).life := by
  refine ⟨?_, ?_, ?_⟩
  · simp [Node.reach]
  · simp [Node.reach]
  · rw [Node.reach, Node.link_join, Option.map_map, Node.link_takeDatagrams]
    exact Option.map_congr fun l _ => Link.kind_modifyInflows _ l

end Continues

/-- A node later on, with its calls as they were. -/
structure Node.Rests (n m : Node) : Prop where
  config : m.config = n.config
  codec : m.codec = n.codec
  current : m.current = n.current
  queue : m.queue = n.queue
  life : Continues n.life m.life

namespace Node.Rests

variable {n m x : Node}

theorem refl (n : Node) : n.Rests n :=
  ⟨rfl, rfl, rfl, rfl, .refl n.life⟩

theorem trans (h : n.Rests m) (hnext : m.Rests x) : n.Rests x :=
  ⟨hnext.config.trans h.config, hnext.codec.trans h.codec, hnext.current.trans h.current,
    hnext.queue.trans h.queue, h.life.trans hnext.life⟩

theorem reach (n : Node) (ds : List Datagram) (connections : List Nat) :
    n.Rests (n.reach ds connections) :=
  ⟨by simp [Node.reach], by simp [Node.reach], by simp [Node.reach], by simp [Node.reach],
    .reach n ds connections⟩

end Node.Rests

/-! ## Calls tell about the life -/

/-- How the life of a node stands after calls on it and what has been answered to them. -/
structure Living (calls : List (Nat × Request))
    (answered : List (Request × Except TransportError Unit)) (n : Node) : Prop where
  fits : n.Fits
  closing : ∀ c ∈ calls, c.2 = .close → n.life.closed = true
  /-- Nothing is written any more once a call to close has been made. -/
  stopped : ∀ c ∈ calls, c.2 = .close →
    ∀ call work, n.current = some (call, work) → work.task = .start
  released : ∀ a ∈ answered, a.1 = .close → n.life.closed = true ∧ n.life.link = none
  /-- A call that goes on has begun before anything was closed. -/
  going : n.current.isSome → ∀ a ∈ answered, a.1 ≠ .close
  sent : n.life.traffic.sent = sends answered
  once : starts answered ≤ 1
  unstarted : n.life.closed = false → n.life.link = none → starts answered = 0
  linked : n.life.link.isSome → starts answered = 1
  starting : ∀ call work, n.current = some (call, work) → work.task = .start →
    starts answered = 0

namespace Living

variable {calls : List (Nat × Request)}
  {answered : List (Request × Except TransportError Unit)} {n m : Node}
  {number : Nat} {request : Request}

theorem fresh (hlife : n.life = .fresh) (hcurrent : n.current = none) : Living [] [] n where
  fits := by
    refine ⟨?_, ?_, ?_, ?_, ?_⟩ <;> simp [hlife, hcurrent, Lifecycle.fresh]
  closing := by simp
  stopped := by simp
  released := by simp
  going := by simp
  sent := by rw [hlife]; rfl
  once := Nat.zero_le 1
  unstarted _ _ := rfl
  linked := by simp [hlife, Lifecycle.fresh]
  starting := by simp [hcurrent]

/-- The life goes on while the calls stand still. -/
theorem continues (h : Living calls answered n) (hconfig : m.config = n.config)
    (hcurrent : m.current = n.current) (hlife : Continues n.life m.life) :
    Living calls answered m where
  fits := by
    refine ⟨?_, ?_, ?_, ?_, ?_⟩
    · intro l hl
      obtain ⟨k, hk, hkind⟩ := hlife.exists_kind hl
      rw [← hkind, hconfig, h.fits.link k hk]
    · rw [hcurrent, hconfig]
      exact h.fits.work
    · rw [hcurrent, hconfig]
      exact h.fits.endpoint
    · rw [hcurrent, hlife.link_eq_none]
      exact h.fits.unlinked
    · intro call work hwork htask
      rw [hlife.isSome_link]
      exact h.fits.linked call work (hcurrent ▸ hwork) htask
  closing c hc hclose := hlife.closed (h.closing c hc hclose)
  stopped := by
    rw [hcurrent]
    exact h.stopped
  released a ha hclose :=
    ⟨hlife.closed (h.released a ha hclose).1, hlife.link_eq_none.mpr (h.released a ha hclose).2⟩
  going := by
    rw [hcurrent]
    exact h.going
  sent := hlife.sent.trans h.sent
  once := h.once
  unstarted hclosed hlink := by
    refine h.unstarted ?_ (hlife.link_eq_none.mp hlink)
    cases hn : n.life.closed with
    | false => rfl
    | true => exact absurd (hlife.closed hn) (by simp [hclosed])
  linked hlink := h.linked (hlife.isSome_link ▸ hlink)
  starting := by
    rw [hcurrent]
    exact h.starting

/-- A call is made. If it is to close, the transport has been marked and no write goes on. -/
theorem call (h : Living calls answered n)
    (hclosed : request = .close → n.life.closed = true)
    (hstopped : request = .close →
      ∀ call work, n.current = some (call, work) → work.task = .start) :
    Living (calls ++ [(number, request)]) answered n where
  fits := h.fits
  closing c hc hclose := by
    rcases List.mem_append.mp hc with hc | hc
    · exact h.closing c hc hclose
    · rw [List.mem_singleton.mp hc] at hclose
      exact hclosed hclose
  stopped c hc hclose := by
    rcases List.mem_append.mp hc with hc | hc
    · exact h.stopped c hc hclose
    · rw [List.mem_singleton.mp hc] at hclose
      exact hstopped hclose
  released := h.released
  going := h.going
  sent := h.sent
  once := h.once
  unstarted := h.unstarted
  linked := h.linked
  starting := h.starting

/-! ### A call waits -/

/-- An open transport has not been closed by a call. -/
theorem not_close_of_open (h : Living calls answered n) (hopen : n.life.closed = false) :
    ∀ a ∈ answered, a.1 ≠ .close := by
  intro a ha hclose
  simpa [hopen] using (h.released a ha hclose).1

/-- A call begins to wait, or waits on. -/
theorem waits (h : Living calls answered n) {work : Work} (hkind : work.kind = n.config.kind)
    (hwork : work.Unfinished)
    (hendpoint : work.task = .start → n.config.kind = .relay → ∃ a, n.config.endpoint = .ok a)
    (hstart : work.task = .start → n.life.link = none ∧ starts answered = 0)
    (hsend : work.task = .send → n.life.link.isSome ∧ ∀ c ∈ calls, c.2 ≠ .close)
    (hclose : ∀ a ∈ answered, a.1 ≠ .close) :
    Living calls answered { n with current := some (number, work) } where
  fits := by
    refine ⟨h.fits.link, ?_, ?_, ?_, ?_⟩
    · intro _ _ heq
      cases heq
      exact ⟨hkind, hwork⟩
    · intro _ _ heq
      cases heq
      exact hendpoint
    · intro _ _ heq htask
      cases heq
      exact (hstart htask).1
    · intro _ _ heq htask
      cases heq
      exact (hsend htask).1
  closing := h.closing
  stopped c hc hcall _ _ heq := by
    cases heq
    cases htask : work.task with
    | start => rfl
    | send => exact absurd hcall ((hsend htask).2 c hc)
    | close => exact absurd htask work.task_ne_close
  released := h.released
  going _ := hclose
  sent := h.sent
  once := h.once
  unstarted := h.unstarted
  linked := h.linked
  starting _ _ heq htask := by
    cases heq
    exact (hstart htask).2

theorem idle (h : Living calls answered n) : Living calls answered { n with current := none } where
  fits := ⟨h.fits.link, by simp, by simp, by simp, by simp⟩
  closing := h.closing
  stopped := by simp
  released := h.released
  going := by simp
  sent := h.sent
  once := h.once
  unstarted := h.unstarted
  linked := h.linked
  starting := by simp

/-! ### Calls return -/

/-- A call returns with an error. It is not one to close. -/
theorem refuses (h : Living calls answered n) (hrequest : request ≠ .close) (e : TransportError) :
    Living calls (answered ++ [(request, .error e)]) n := by
  have hsends : sends (answered ++ [(request, .error e)]) = sends answered := by
    rw [sends_concat]
    simp [isSent, Except.isOk, Except.toBool]
  have hstarts : starts (answered ++ [(request, .error e)]) = starts answered := by
    rw [starts_concat]
    simp [isStarted, Except.isOk, Except.toBool]
  refine ⟨h.fits, h.closing, h.stopped, ?_, ?_, hsends ▸ h.sent, hstarts ▸ h.once,
    hstarts ▸ h.unstarted, hstarts ▸ h.linked, hstarts ▸ h.starting⟩
  · intro a ha hclose
    rcases List.mem_append.mp ha with ha | ha
    · exact h.released a ha hclose
    · rw [List.mem_singleton.mp ha] at hclose
      exact absurd hclose hrequest
  · intro hcurrent a ha
    rcases List.mem_append.mp ha with ha | ha
    · exact h.going hcurrent a ha
    · rw [List.mem_singleton.mp ha]
      exact hrequest

/-- A payload has been sent. -/
theorem sends_one (h : Living calls answered n) (hrequest : request.task = .send) :
    Living calls (answered ++ [(request, .ok ())])
      { n with life := n.life.countSent, current := none } := by
  have hsends : sends (answered ++ [(request, .ok ())]) = sends answered + 1 := by
    rw [sends_concat]
    simp [isSent, hrequest, Except.isOk, Except.toBool]
  have hstarts : starts (answered ++ [(request, .ok ())]) = starts answered := by
    rw [starts_concat]
    simp [isStarted, hrequest]
  refine ⟨⟨h.fits.link, by simp, by simp, by simp, by simp⟩, h.closing, by simp, ?_, by simp, ?_,
    hstarts ▸ h.once, hstarts ▸ h.unstarted, hstarts ▸ h.linked, by simp⟩
  · intro a ha hclose
    rcases List.mem_append.mp ha with ha | ha
    · exact h.released a ha hclose
    · rw [List.mem_singleton.mp ha] at hclose
      have hcall : request = .close := hclose
      subst hcall
      cases hrequest
  · rw [hsends, ← h.sent]
    rfl

/-- The transport has been started. -/
theorem opens (h : Living calls answered n) (hrequest : request.task = .start) {link : Link}
    (hkind : link.kind = n.config.kind) (hzero : starts answered = 0)
    (hclose : ∀ a ∈ answered, a.1 ≠ .close) :
    Living calls (answered ++ [(request, .ok ())])
      { n with life := n.life.started number link, current := none } := by
  have hsends : sends (answered ++ [(request, .ok ())]) = sends answered := by
    rw [sends_concat]
    simp [isSent, hrequest]
  have hstarts : starts (answered ++ [(request, .ok ())]) = 1 := by
    rw [starts_concat, hzero]
    simp [isStarted, hrequest, Except.isOk, Except.toBool]
  refine ⟨⟨?_, by simp, by simp, by simp, by simp⟩, h.closing, by simp, ?_, by simp,
    hsends ▸ h.sent, Nat.le_of_eq hstarts, by simp [Lifecycle.started], fun _ => hstarts, by simp⟩
  · intro l hl
    cases hl
    exact hkind
  · intro a ha hclosed
    rcases List.mem_append.mp ha with ha | ha
    · exact absurd hclosed (hclose a ha)
    · rw [List.mem_singleton.mp ha] at hclosed
      have hcall : request = .close := hclosed
      subst hcall
      cases hrequest

/-- The transport has been closed. -/
theorem closes (h : Living calls answered n) (hclosed : n.life.closed = true) :
    Living calls (answered ++ [(.close, .ok ())])
      { n with life := n.life.released, current := none } := by
  have hsends : sends (answered ++ [(.close, .ok ())]) = sends answered := by
    rw [sends_concat]
    rfl
  have hstarts : starts (answered ++ [(.close, .ok ())]) = starts answered := by
    rw [starts_concat]
    rfl
  refine ⟨⟨by simp [Lifecycle.released], by simp, by simp, by simp, by simp⟩, h.closing, by simp,
    fun _ _ _ => ⟨hclosed, rfl⟩, by simp, hsends ▸ h.sent, hstarts ▸ h.once, ?_,
    by simp [Lifecycle.released], by simp⟩
  intro hopen
  exact absurd hclosed (by simpa [Lifecycle.released] using hopen)

/-! ### Turns -/

variable {w : World} {was : Option Work} {task : Task}

/-- What a call to start finds at its turn, and as long as it goes on. -/
theorem before_start (h : Living calls answered n)
    (hwas : n.current = was.map fun work => (number, work))
    (hwork : ∀ work, was = some work → work.task = .start) (hmay : was = none → n.May .start) :
    n.life.link = none ∧ starts answered = 0 ∧ ∀ a ∈ answered, a.1 ≠ .close := by
  cases was with
  | none =>
    obtain ⟨hopen, hlink⟩ := Lifecycle.mayStart_eq_ok (hmay rfl)
    exact ⟨hlink, h.unstarted hopen hlink, h.not_close_of_open hopen⟩
  | some work =>
    have htask := hwork work rfl
    exact ⟨h.fits.unlinked _ _ hwas htask, h.starting _ _ hwas htask, h.going (by simp [hwas])⟩

/-- What a call to send finds at its turn, and as long as it goes on. -/
theorem before_send (h : Living calls answered n)
    (hwas : n.current = was.map fun work => (number, work))
    (hwork : ∀ work, was = some work → work.task = .send) (hmay : was = none → n.May .send) :
    n.life.link.isSome ∧ (∀ c ∈ calls, c.2 ≠ .close) ∧ ∀ a ∈ answered, a.1 ≠ .close := by
  cases was with
  | none =>
    obtain ⟨l, hactive⟩ := hmay rfl
    have hopen := Lifecycle.open_of_active hactive
    refine ⟨by rw [Lifecycle.link_of_active hactive]; rfl, ?_, h.not_close_of_open hopen⟩
    intro c hc hclose
    simpa [hopen] using h.closing c hc hclose
  | some work =>
    have htask := hwork work rfl
    refine ⟨h.fits.linked _ _ hwas htask, ?_, h.going (by simp [hwas])⟩
    intro c hc hclose
    have := h.stopped c hc hclose _ _ hwas
    rw [htask] at this
    cases this

/-- A call that ends has its answer recorded. -/
theorem ends (h : Living calls answered n) (hwas : n.current = was.map fun work => (number, work))
    (hwork : ∀ work, was = some work → work.task = task) (hmay : was = none → n.May task)
    (hcall : (number, request) ∈ calls) (htask : request.task = task)
    {r : Except TransportError Unit} {f : Lifecycle Link → Lifecycle Link}
    (hends : w.Ends number n was task r f) (hconfig : m.config = n.config)
    (hcurrent : m.current = n.current) (hlife : Continues n.life m.life) :
    Living calls (answered ++ [(request, r)]) { m with life := f m.life, current := none } := by
  have hm := h.continues hconfig hcurrent hlife
  cases hends with
  | misconfigured e _ => exact (hm.refuses (by rintro rfl; cases htask) e).idle
  | unreached e _ =>
    have hf : Living calls answered { m with life := m.life.startFailed n.config.kind } :=
      hm.continues rfl rfl (.startFailed n.config.kind m.life)
    exact (hf.refuses (by rintro rfl; cases htask) e).idle
  | opened link hkind hopens =>
    obtain ⟨-, hzero, hclose⟩ := h.before_start hwas hwork hmay
    exact hm.opens htask (hkind.trans (congrArg TransportConfig.kind hconfig.symm)) hzero hclose
  | unframed e => exact (hm.refuses (by rintro rfl; cases htask) e).idle
  | unsent e links? =>
    have hf : Living calls answered
        { m with life := (relinked links? m.life).sendFailed n.config.kind } :=
      hm.continues rfl rfl ((Continues.relinked links? m.life).trans (.sendFailed _ _))
    exact (hf.refuses (by rintro rfl; cases htask) e).idle
  | sent links? =>
    have hf : Living calls answered { m with life := relinked links? m.life } :=
      hm.continues rfl rfl (.relinked links? m.life)
    exact hf.sends_one htask
  | closed =>
    have hrequest : request = .close := by
      cases request with
      | close => rfl
      | start => cases htask
      | send _ => cases htask
    subst hrequest
    exact hm.closes (hm.closing _ hcall rfl)

/-- A call that has its turn or goes on either waits, or returns and has its answer recorded. -/
theorem becomes (h : Living calls answered n) {v : World} {i : Nat} {ds : List Datagram}
    (hn : w.nodes[i]? = some n) (hwas : n.current = was.map fun work => (number, work))
    (hwork : ∀ work, was = some work → work.task = task)
    (hcall : (number, request) ∈ calls) (htask : request.task = task)
    (hb : w.Becomes i number n was task ds v) :
    ∃ m, v.nodes[i]? = some m ∧ m.queue = n.queue ∧
      ((v.returned = w.returned ∧ m.inHand = [(number, task)] ∧ Living calls answered m) ∨
        ∃ r, v.returned = w.returned ++ [(number, r)] ∧ m.inHand = [] ∧
          Living calls (answered ++ [(request, r)]) m) := by
  cases hb with
  | refused e hnone hds hrefuses =>
    have hrequest : request ≠ .close := by
      rintro rfl
      rw [← htask] at hrefuses
      exact hrefuses
    exact ⟨_, World.getElem?_finish hn number _, rfl,
      .inr ⟨_, rfl, rfl, (h.refuses hrequest e).idle⟩⟩
  | ends u r f hmay hu hends =>
    obtain ⟨connections, -, hm⟩ := hu.exists_node hn
    refine ⟨_, World.getElem?_finish_modifyLife hm f number r, by simp [Node.reach],
      .inr ⟨r, congrArg (· ++ [(number, r)]) hu.returned, rfl, ?_⟩⟩
    exact h.ends hwas hwork hmay hcall htask hends (by simp [Node.reach]) (by simp [Node.reach])
      (.reach n ds connections)
  | waits u work hmay hu htask' hkind hunfinished hendpoint hfollows =>
    obtain ⟨connections, -, hm⟩ := hu.exists_node hn
    have hreach : Living calls answered (n.reach ds connections) :=
      h.continues (by simp [Node.reach]) (by simp [Node.reach]) (.reach n ds connections)
    refine ⟨_, World.getElem?_wait hm number work, by simp [Node.reach],
      .inl ⟨hu.returned, by simp [Node.inHand, htask'], ?_⟩⟩
    · have hslot := Continues.reach n ds connections
      subst htask'
      refine hreach.waits (by simpa [Node.reach] using hkind) hunfinished
        (by simpa [Node.reach] using hendpoint) ?_ ?_ ?_
      · intro hstart
        rw [hstart] at hwork hmay
        obtain ⟨hlink, hzero, -⟩ := h.before_start hwas hwork hmay
        exact ⟨hslot.link_eq_none.mpr hlink, hzero⟩
      · intro hsend
        rw [hsend] at hwork hmay
        obtain ⟨hlink, hclose, -⟩ := h.before_send hwas hwork hmay
        exact ⟨hslot.isSome_link.trans hlink, hclose⟩
      · cases hw : work.task with
        | start =>
          rw [hw] at hwork hmay
          exact (h.before_start hwas hwork hmay).2.2
        | send =>
          rw [hw] at hwork hmay
          exact (h.before_send hwas hwork hmay).2.2
        | close => exact absurd hw work.task_ne_close

end Living

/-- A node agrees with the calls on it and with what has returned. -/
structure Stands (calls : List (Nat × Request)) (returned : Returned) (n : Node) : Prop where
  waiting : unanswered calls returned = n.waiting
  living : Living calls (answers calls returned) n

namespace Stands

variable {calls : List (Nat × Request)} {returned : Returned} {n m : Node} {number : Nat}

theorem rests (h : Stands calls returned n) (hm : n.Rests m) : Stands calls returned m where
  waiting := by
    rw [h.waiting, Node.waiting, Node.inHand, Node.queued, ← hm.current, ← hm.queue]
    rfl
  living := h.living.continues hm.config hm.current hm.life

/-- A call of another node returns. -/
theorem other (h : Stands calls returned n) (hnumber : number ∉ calls.map Prod.fst)
    (r : Except TransportError Unit) : Stands calls (returned ++ [(number, r)]) n where
  waiting := (unanswered_other hnumber r).trans h.waiting
  living := by
    rw [answers_other hnumber]
    exact h.living

end Stands

end EvictionBus.Net
