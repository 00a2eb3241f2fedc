import EvictionBus.Proofs.Net.Paths

/-!
# Calls that are refused

A call that finds a transport closed, or not started, or started already, does nothing but return.
What is answered to calls made on a closed transport does not depend on what happens after them.
-/

namespace EvictionBus.Net

/-- Whether a call is within the limit for payloads. -/
def Node.Admits (n : Node) : Request → Prop
  | .send payload =>
    Lifecycle.checkPayload n.config.reportedMaxMessageSize payload.length = .ok ()
  | _ => True

/-- What is answered to a call on a closed transport. -/
def Node.refusal (n : Node) : Request → TransportError
  | .send payload =>
    match Lifecycle.checkPayload n.config.reportedMaxMessageSize payload.length with
    | .error e => e
    | .ok () => .closed
  | _ => .closed

namespace World

variable {w u v : World} {hs hs' : List Happening} {i number : Nat} {n : Node}
  {request : Request}

/-! ## Nothing but an answer -/

theorem modifyNode_eq_self {f : Node → Node} (h : ∀ n, w.nodes[i]? = some n → f n = n) :
    w.modifyNode i f = w := by
  have hnodes : w.nodes.modify i f = w.nodes := by
    apply List.ext_getElem?
    intro j
    rw [List.getElem?_modify]
    by_cases hij : i = j
    · subst hij
      cases hn : w.nodes[i]? with
      | none => rfl
      | some n => simp [h n hn]
    · simp [hij]
  unfold modifyNode
  rw [hnodes]

theorem finish_eq_answer (hn : w.nodes[i]? = some n) (hcurrent : n.current = none)
    (r : Except TransportError Unit) : w.finish i number r = w.answer number r := by
  unfold finish
  rw [modifyNode_eq_self]
  · rfl
  · intro m hm
    rw [hn] at hm
    cases hm
    rw [← hcurrent]

theorem perform_refused {e : TransportError} (hn : w.nodes[i]? = some n)
    (hcurrent : n.current = none) (hrefuses : n.Refuses e request.task) :
    w.perform i number request = w.answer number (.error e) := by
  unfold perform
  rw [hn]
  cases request with
  | start =>
    dsimp only
    unfold start
    rw [show n.life.mayStart = .error e from hrefuses]
    exact finish_eq_answer hn hcurrent _
  | send payload =>
    dsimp only
    unfold send
    rw [show n.life.active = .error e from hrefuses]
    exact finish_eq_answer hn hcurrent _
  | close => exact absurd hrefuses id

/-- There is nothing left to be closed. -/
theorem perform_close (hn : w.nodes[i]? = some n) (hcurrent : n.current = none)
    (hlink : n.life.link = none) : w.perform i number .close = w.answer number (.ok ()) := by
  have hreleased : w.modifyLife i Lifecycle.released = w := by
    refine modifyNode_eq_self fun m hm => ?_
    rw [hn] at hm
    cases hm
    unfold Lifecycle.released
    rw [← hlink]
  unfold perform
  rw [hn]
  dsimp only
  unfold close
  rw [hlink]
  dsimp only
  rw [hreleased]
  exact finish_eq_answer hn hcurrent _

/-- A call on a node does nothing but return, at once if the node is free and else at its turn. -/
structure OnlyReturns (w : World) (i : Nat) (n : Node) (number : Nat) (request : Request)
    (r : Except TransportError Unit) : Prop where
  at_once : n.isBusy = false → w.after (.call i number request) = w.answer number r
  at_turn : ∀ rest, n.current = none → n.queue = (number, request) :: rest →
    w.after (.turn i) = (w.dequeue i).answer number r

theorem call_of_admits (hn : w.nodes[i]? = some n) (hrequest : request ≠ .close)
    (hadmits : n.Admits request) : w.call i number request =
      if n.isBusy then w.enqueue i number request else w.perform i number request := by
  unfold call
  rw [hn]
  cases request with
  | start => rfl
  | send payload =>
    dsimp only
    rw [show Lifecycle.checkPayload n.config.reportedMaxMessageSize payload.length = .ok ()
      from hadmits]
  | close => exact absurd rfl hrequest

theorem after_turn {rest : List (Nat × Request)} (hn : w.nodes[i]? = some n)
    (hcurrent : n.current = none) (hqueue : n.queue = (number, request) :: rest) :
    w.after (.turn i) = (w.dequeue i).perform i number request := by
  change w.onNode i (w.moveQueue i) = _
  unfold onNode
  rw [hn, Option.bind_some]
  unfold moveQueue
  rw [hcurrent, hqueue]
  rfl

theorem getElem?_dequeue (hn : w.nodes[i]? = some n) :
    (w.dequeue i).nodes[i]? = some { n with queue := n.queue.tail } := by
  unfold dequeue
  rw [getElem?_modifyNode, if_pos rfl, hn]
  rfl

theorem onlyReturns_of_refuses {e : TransportError} (hn : w.nodes[i]? = some n)
    (hrefuses : n.Refuses e request.task) (hadmits : n.Admits request) :
    OnlyReturns w i n number request (.error e) where
  at_once hfree := by
    have hrequest : request ≠ .close := by
      rintro rfl
      exact hrefuses
    change w.call i number request = _
    rw [call_of_admits hn hrequest hadmits, hfree]
    exact perform_refused hn (n.isBusy_eq_false.mp hfree).1 hrefuses
  at_turn rest hcurrent hqueue := by
    rw [after_turn hn hcurrent hqueue]
    exact perform_refused (getElem?_dequeue hn) hcurrent hrefuses

/-- A payload above the limit is refused at once, whatever else is going on. -/
theorem after_call_of_error {payload : Bytes} {e : TransportError} (hn : w.nodes[i]? = some n)
    (h : Lifecycle.checkPayload n.config.reportedMaxMessageSize payload.length = .error e) :
    w.after (.call i number (.send payload)) = w.answer number (.error e) := by
  change w.call i number (.send payload) = _
  unfold call
  rw [hn]
  dsimp only
  rw [h]
  rfl

theorem refuses_of_closed (hclosed : n.life.closed = true) (hrequest : request ≠ .close) :
    n.Refuses .closed request.task := by
  cases request with
  | start => simp [Node.Refuses, Request.task, Lifecycle.mayStart, hclosed]
  | send payload => simp [Node.Refuses, Request.task, Lifecycle.active, hclosed]
  | close => exact absurd rfl hrequest

/-! ## What a step does to a closed transport -/

theorem not_may_of_closed {task : Task} (hclosed : n.life.closed = true) (htask : task ≠ .close) :
    ¬ n.May task := by
  cases task with
  | start => simp [Node.May, Lifecycle.mayStart, hclosed]
  | send => simp [Node.May, Lifecycle.active, hclosed]
  | close => exact absurd rfl htask

/-- A call on a closed transport is closed itself, or was in hand before, or is refused. -/
theorem Becomes.of_closed {was : Option Work} {task : Task} {ds : List Datagram}
    (h : w.Becomes i number n was task ds v) (hn : w.nodes[i]? = some n)
    (hclosed : n.life.closed = true) :
    ∃ m, v.nodes[i]? = some m ∧ m.life.closed = true ∧
      (m.current = none ∨ was ≠ none ∧ ∃ work, m.current = some (number, work)) ∧
      m.queue = n.queue ∧
      (v.returned = w.returned ∨ ∃ r, v.returned = w.returned ++ [(number, r)] ∧
        (task = .close ∨ was ≠ none ∨ r = .error .closed)) := by
  cases h with
  | refused e hwas hds hrefuses =>
    refine ⟨_, getElem?_finish hn number _, hclosed, .inl rfl, rfl, .inr ⟨_, rfl, .inr (.inr ?_)⟩⟩
    cases task with
    | start =>
      have : n.life.mayStart = .error .closed := by simp [Lifecycle.mayStart, hclosed]
      rw [show n.life.mayStart = .error e from hrefuses] at this
      cases this
      rfl
    | send =>
      have : n.life.active = .error .closed := by simp [Lifecycle.active, hclosed]
      rw [show n.life.active = .error e from hrefuses] at this
      cases this
      rfl
    | close => exact absurd hrefuses id
  | ends u r f hmay hu hends =>
    obtain ⟨m, hm, hcurrent, hqueue, hstays⟩ :=
      EndsIn.exists_node ⟨u, r, f, hu, hends, rfl⟩ hn
    refine ⟨m, hm, hstays hclosed, .inl hcurrent, hqueue,
      .inr ⟨r, congrArg (· ++ [(number, r)]) hu.returned, ?_⟩⟩
    by_cases htask : task = .close
    · exact .inl htask
    · exact .inr (.inl fun hwas => not_may_of_closed hclosed htask (hmay hwas))
  | waits u work hmay hu htask hkind hwork hendpoint hfollows =>
    obtain ⟨connections, -, hm⟩ := hu.exists_node hn
    refine ⟨_, getElem?_wait hm number work, by simpa [Node.reach] using hclosed,
      .inr ⟨fun hwas => ?_, work, rfl⟩, by simp [Node.reach], .inl hu.returned⟩
    exact not_may_of_closed hclosed (htask ▸ work.task_ne_close) (hmay hwas)

/-- A closed transport stays closed, and its node takes nothing new in hand. -/
structure StaysClosed (n m : Node) : Prop where
  closed : m.life.closed = true
  current : ∀ call work, m.current = some (call, work) → ∃ before, n.current = some (call, before)

theorem Becomes.stays_closed {x : Node} {j : Nat} {was : Option Work} {task : Task}
    {ds : List Datagram} (h : w.Becomes j number x was task ds v) (hx : w.nodes[j]? = some x)
    (hwas : x.current = was.map fun work => (number, work)) (hn : w.nodes[i]? = some n)
    (hclosed : n.life.closed = true) :
    ∃ m, v.nodes[i]? = some m ∧ StaysClosed n m := by
  by_cases hij : j = i
  · subst hij
    rw [hx] at hn
    cases hn
    obtain ⟨m, hm, hmclosed, hcurrent, -⟩ := h.of_closed hx hclosed
    refine ⟨m, hm, hmclosed, fun call work hwork => ?_⟩
    rcases hcurrent with hnone | ⟨hsome, after, hafter⟩
    · rw [hnone] at hwork
      cases hwork
    · obtain ⟨before, hbefore⟩ := Option.ne_none_iff_exists'.mp hsome
      rw [hafter] at hwork
      cases hwork
      exact ⟨before, by rw [hwas, hbefore]; rfl⟩
  · obtain ⟨connections, -, hm⟩ := h.other hij
    rw [hn] at hm
    exact ⟨_, hm, by simpa [Node.reach] using hclosed, fun call work hwork => ⟨work, by
      simpa [Node.reach] using hwork⟩⟩

theorem Step.stays_closed (h : Step hs w hs' v) (hn : w.nodes[i]? = some n)
    (hclosed : n.life.closed = true) :
    ∃ m, v.nodes[i]? = some m ∧ StaysClosed n m := by
  have hself : StaysClosed n n := ⟨hclosed, fun _ work hwork => ⟨work, hwork⟩⟩
  cases h with
  | quiet v hq =>
    obtain ⟨m, hm, hrests⟩ := hq.exists_node hn
    exact ⟨m, hm, hrests.life.closed hclosed, fun _ work hwork => ⟨work, hrests.current ▸ hwork⟩⟩
  | other => exact ⟨n, hn, hself⟩
  | turns v j number request x rest ds hx hcurrent hqueue hb =>
    by_cases hij : j = i
    · subst hij
      rw [hx] at hn
      cases hn
      obtain ⟨m, hm, hstays⟩ := hb.stays_closed (getElem?_dequeue hx) hcurrent
        (getElem?_dequeue hx) hclosed
      exact ⟨m, hm, hstays.closed, hstays.current⟩
    · refine hb.stays_closed (getElem?_dequeue hx) hcurrent ?_ hclosed
      unfold dequeue
      rw [getElem?_modifyNode, if_neg hij, hn]
  | goes v j number work x hx hcurrent hb => exact hb.stays_closed hx hcurrent hn hclosed
  | begins v j number request x ds hx hfree _ hb =>
    exact hb.stays_closed hx (x.isBusy_eq_false.mp hfree).1 hn hclosed
  | waits j number request x hx _ _ =>
    unfold enqueue
    rw [getElem?_modifyNode, hn]
    split
    · exact ⟨_, rfl, hclosed, fun _ work hwork => ⟨work, hwork⟩⟩
    · exact ⟨n, rfl, hself⟩
  | refuses => exact ⟨n, hn, hself⟩
  | misses => exact ⟨n, hn, hself⟩

/-- Whatever happens, a transport that is closed stays closed. -/
theorem Lived.closed_run (hl : Lived hs w) (hn : w.nodes[i]? = some n)
    (hclosed : n.life.closed = true) (more : List Happening)
    (hnumbers : (callNumbers (hs ++ more)).Nodup) :
    ∃ m, (w.run more).nodes[i]? = some m ∧ m.life.closed = true := by
  have hkeeps := hl.run_invariant
    (P := fun _ v => ∃ m, v.nodes[i]? = some m ∧ m.life.closed = true)
    (fun _ _ hstep ⟨m, hm, hmclosed⟩ => by
      obtain ⟨x, hx, hstays⟩ := hstep.stays_closed hm hmclosed
      exact ⟨x, hx, hstays.closed⟩) more hnumbers ⟨n, hn, hclosed⟩
  exact hkeeps.2

/-! ## Calls made on a closed transport -/

/-- A call has been made on a closed transport, and `e` is the only answer it can get. -/
structure Refused (hs : List Happening) (w : World) (i number : Nat) (request : Request)
    (e : TransportError) : Prop where
  call : (number, request) ∈ callsOn i hs
  node : ∃ n, w.nodes[i]? = some n ∧ n.life.closed = true ∧
    ∀ work, n.current ≠ some (number, work)
  answer : ∀ r, (number, r) ∈ w.returned → r = .error e
  pending : number ∉ w.returned.map Prod.fst → e = .closed

variable {e : TransportError}

/-- Another call that is in hand does not answer it, and if it is in hand itself it is refused. -/
theorem Held.keeps_answer {x : Node} {j k : Nat} {was : Option Work} {task : Task}
    {ds : List Datagram} (hheld : Held hs w j k task x) (hnumbers : (callNumbers hs).Nodup)
    (hb : w.Becomes j k x was task ds v) (hwas : x.current = was.map fun work => (k, work))
    (hrequest : request ≠ .close) (h : Refused hs w i number request e) :
    (∀ r, (number, r) ∈ v.returned → r = .error e) ∧
      (number ∉ v.returned.map Prod.fst → e = .closed) := by
  obtain ⟨n, hn, hclosed, hcurrent⟩ := h.node
  obtain ⟨hout, called, hlookup, htask⟩ :=
    lookup_of_unanswered (map_fst_callsOn_nodup hnumbers j) hheld.waiting
  have hnew : ∀ r, v.returned = w.returned ++ [(k, r)] → (k = number → r = .error e) →
      (∀ r, (number, r) ∈ v.returned → r = .error e) ∧
        (number ∉ v.returned.map Prod.fst → e = .closed) := by
    intro r hreturned hr
    rw [hreturned]
    refine ⟨fun s hs => ?_, fun hnot => h.pending fun hmem => hnot ?_⟩
    · rcases List.mem_append.mp hs with hs | hs
      · exact h.answer s hs
      · cases List.mem_singleton.mp hs
        exact hr rfl
    · rw [List.map_append]
      exact List.mem_append_left _ hmem
  by_cases hij : j = i
  · subst hij
    rw [hheld.node] at hn
    cases hn
    obtain ⟨-, -, -, -, -, hreturned⟩ := hb.of_closed hheld.node hclosed
    rcases hreturned with hsame | ⟨r, hreturned, hwhy⟩
    · rw [hsame]
      exact ⟨h.answer, h.pending⟩
    · refine hnew r hreturned fun hk => ?_
      subst hk
      rw [lookup_of_mem (map_fst_callsOn_nodup hnumbers j) h.call] at hlookup
      cases hlookup
      rw [h.pending hout]
      rcases hwhy with hclose | hsome | hr
      · cases request with
        | close => exact absurd rfl hrequest
        | start => rw [← htask] at hclose; cases hclose
        | send _ => rw [← htask] at hclose; cases hclose
      · obtain ⟨work, hwork⟩ := Option.ne_none_iff_exists'.mp hsome
        exact absurd (by rw [hwas, hwork]; rfl) (hcurrent work)
      · exact hr
  · have hother : k ≠ number := by
      rintro rfl
      have hon : k ∈ (callsOn j hs).map Prod.fst :=
        mem_fst (mem_of_lookup hlookup)
      exact not_mem_callsOn_of_ne hnumbers hij hon (mem_fst h.call)
    rcases hb.returned_eq with hsame | ⟨r, hreturned⟩
    · rw [hsame]
      exact ⟨h.answer, h.pending⟩
    · exact hnew r hreturned fun hk => absurd hk hother

theorem Refused.later (h : Refused hs w i number request e) (more : List Happening) :
    Refused (hs ++ more) w i number request e :=
  ⟨by rw [callsOn_append]; exact List.mem_append_left _ h.call, h.node, h.answer, h.pending⟩

theorem Refused.step (h : Refused hs w i number request e) (hrequest : request ≠ .close)
    (hl : Lived hs w) (hnumbers : (callNumbers hs').Nodup) (hstep : Step hs w hs' v) :
    Refused hs' v i number request e := by
  obtain ⟨n, hn, hclosed, hcurrent⟩ := h.node
  obtain ⟨m, hm, hstays⟩ := hstep.stays_closed hn hclosed
  have hnode : ∃ m, v.nodes[i]? = some m ∧ m.life.closed = true ∧
      ∀ work, m.current ≠ some (number, work) := by
    refine ⟨m, hm, hstays.closed, fun work hwork => ?_⟩
    obtain ⟨before, hbefore⟩ := hstays.current number work hwork
    exact hcurrent before hbefore
  have hcall : (number, request) ∈ callsOn i hs' := by
    obtain ⟨more, rfl⟩ := hstep.exists_more
    exact (h.later more).call
  have hanswer : (∀ r, (number, r) ∈ v.returned → r = .error e) ∧
      (number ∉ v.returned.map Prod.fst → e = .closed) := by
    cases hstep with
    | quiet v hq => exact hq.returned ▸ ⟨h.answer, h.pending⟩
    | other => exact ⟨h.answer, h.pending⟩
    | turns v j k called x rest ds hx hidle hqueue hb =>
      have hdequeued : Refused hs (w.dequeue j) i number request e := by
        refine ⟨h.call, ?_, h.answer, h.pending⟩
        unfold dequeue
        rw [getElem?_modifyNode, hn]
        split
        · exact ⟨_, rfl, hclosed, hcurrent⟩
        · exact ⟨n, rfl, hclosed, hcurrent⟩
      exact (hl.held_of_turn hx hidle hqueue).keeps_answer hnumbers hb hidle hrequest hdequeued
    | goes v j k work x hx hwork hb =>
      exact (hl.held_of_current hx hwork).keeps_answer hnumbers hb hwork hrequest h
    | begins v j k called x ds hx hfree hclose hb =>
      exact (hl.held_of_call hnumbers hx hfree hclose).keeps_answer hnumbers hb
        (x.isBusy_eq_false.mp hfree).1 hrequest (h.later [.call j k called])
    | waits => exact ⟨h.answer, h.pending⟩
    | refuses j k payload reason =>
      have hother : k ≠ number := by
        rintro rfl
        have hon : k ∈ (callsOn i hs).map Prod.fst := mem_fst h.call
        exact not_mem_callNumbers hnumbers ((map_fst_callsOn_sublist i hs).subset hon)
      refine ⟨fun r hr => ?_, fun hnot => h.pending fun hmem => hnot ?_⟩
      · rcases List.mem_append.mp hr with hr | hr
        · exact h.answer r hr
        · cases List.mem_singleton.mp hr
          exact absurd rfl hother
      · change number ∈ (w.returned ++ [(k, Except.error reason)]).map Prod.fst
        rw [List.map_append]
        exact List.mem_append_left _ hmem
    | misses => exact ⟨h.answer, h.pending⟩
  exact ⟨hcall, hnode, hanswer.1, hanswer.2⟩

/-- A call on a closed transport, whether it is performed at once or waits. -/
theorem Lived.refused_call (hl : Lived hs w)
    (hnumbers : (callNumbers (hs ++ [.call i number request])).Nodup)
    (hn : w.nodes[i]? = some n) (hclosed : n.life.closed = true) (hrequest : request ≠ .close) :
    Refused (hs ++ [.call i number request]) (w.after (.call i number request)) i number request
      (n.refusal request) := by
  have hcall : (number, request) ∈ callsOn i (hs ++ [.call i number request]) := by
    rw [callsOn_call]
    exact List.mem_append_right _ (List.mem_singleton_self _)
  have hout := hl.not_mem_returned hnumbers
  have hcurrent : ∀ work, n.current ≠ some (number, work) := by
    intro work hwork
    have hheld := (hl.held_of_current hn hwork).waiting
    obtain ⟨-, called, hlookup, -⟩ :=
      lookup_of_unanswered (map_fst_callsOn_nodup (nodup_of_append hnumbers) i) hheld
    have hon : number ∈ (callsOn i hs).map Prod.fst :=
      mem_fst (mem_of_lookup hlookup)
    exact not_mem_callNumbers hnumbers ((map_fst_callsOn_sublist i hs).subset hon)
  -- A call that returns at once has its answer, and only that one.
  have hanswered : ∀ e, w.after (.call i number request) = w.answer number (.error e) →
      Refused (hs ++ [.call i number request]) (w.after (.call i number request)) i number request
        e := by
    intro e hafter
    rw [hafter]
    refine ⟨hcall, ⟨n, hn, hclosed, hcurrent⟩, fun r hr => ?_, fun hnot => absurd ?_ hnot⟩
    · rcases List.mem_append.mp hr with hr | hr
      · exact absurd (mem_fst hr) hout
      · cases List.mem_singleton.mp hr
        rfl
    · change number ∈ (w.returned ++ [(number, Except.error e)]).map Prod.fst
      simp
  have hadmitted : n.Admits request → Refused (hs ++ [.call i number request])
      (w.after (.call i number request)) i number request .closed := by
    intro hadmits
    have hrefuses := refuses_of_closed hclosed hrequest
    cases hbusy : n.isBusy with
    | false => exact hanswered .closed ((onlyReturns_of_refuses hn hrefuses hadmits).at_once hbusy)
    | true =>
      have hafter : w.after (.call i number request) = w.enqueue i number request := by
        change w.call i number request = _
        rw [call_of_admits hn hrequest hadmits, hbusy]
        rfl
      rw [hafter]
      refine ⟨hcall, ⟨{ n with queue := n.queue ++ [(number, request)] }, ?_, hclosed, hcurrent⟩,
        fun r hr => absurd (mem_fst hr) hout, fun _ => rfl⟩
      unfold World.enqueue
      rw [getElem?_modifyNode, if_pos rfl, hn]
      rfl
  cases request with
  | start => exact hadmitted trivial
  | send payload =>
    unfold Node.refusal
    dsimp only
    cases hcheck : Lifecycle.checkPayload n.config.reportedMaxMessageSize payload.length with
    | error e => exact hanswered e (after_call_of_error hn hcheck)
    | ok _ => exact hadmitted hcheck
  | close => exact absurd rfl hrequest

/-- Whatever happens after a call on a closed transport, it is answered with its refusal only. -/
theorem Lived.refused_run (hl : Lived hs w) (hn : w.nodes[i]? = some n)
    (hclosed : n.life.closed = true) (hrequest : request ≠ .close) (more : List Happening)
    (hnumbers : (callNumbers (hs ++ .call i number request :: more)).Nodup) :
    Refused (hs ++ .call i number request :: more)
      (w.run (.call i number request :: more)) i number request (n.refusal request) := by
  have hassoc : hs ++ .call i number request :: more =
      (hs ++ [.call i number request]) ++ more := by simp
  rw [hassoc] at hnumbers ⊢
  have hfirst := nodup_of_append hnumbers
  exact (((hl.path _ hfirst).lived hl hfirst).run_invariant
    (P := fun hs v => Refused hs v i number request (n.refusal request))
    (fun hl hnumbers hstep h => h.step hrequest hl hnumbers hstep) more hnumbers
    (hl.refused_call hfirst hn hclosed hrequest)).2

end World

end EvictionBus.Net
