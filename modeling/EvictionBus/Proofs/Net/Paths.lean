import EvictionBus.Proofs.Net.Quiet

/-!
# Steps of calls

Whatever happens in a world is made of a few steps: a call is made and waits, or returns at once, or
begins; a call that waits gets its turn; the call whose turn it is goes on; and nothing is called
and nothing returns. `Lived` holds of unused nodes, and every step keeps it, so it is there whenever
a step is taken.
-/

namespace EvictionBus.Net.World

/-- Calls and answers so far, on all nodes. -/
structure Lived (hs : List Happening) (w : World) : Prop where
  asked : ∀ a ∈ w.returned, a.1 ∈ callNumbers hs
  once : (w.returned.map Prod.fst).Nodup
  nodes : ∀ (i : Nat) n, w.nodes[i]? = some n → Stands (callsOn i hs) w.returned n

/-- A world whose nodes have not been used. -/
structure Unused (w : World) : Prop where
  nodes : ∀ n ∈ w.nodes, n.life = .fresh ∧ n.current = none ∧ n.queue = []
  returned : w.returned = []

theorem Unused.lived {w : World} (h : w.Unused) : Lived [] w where
  asked := by simp [h.returned]
  once := by simp [h.returned]
  nodes i n hn := by
    obtain ⟨hlife, hcurrent, hqueue⟩ := h.nodes n (List.mem_of_getElem? hn)
    rw [h.returned]
    refine ⟨?_, Living.fresh hlife hcurrent⟩
    simp [Node.waiting, Node.inHand, Node.queued, hcurrent, hqueue, unanswered, callsOn]

/-- A part of what happens, with the happenings up to it. -/
inductive Step (hs : List Happening) (w : World) : List Happening → World → Prop
  | quiet (v : World) (h : Quiet w v) : Step hs w hs v
  /-- Something happens that is no call. -/
  | other (h : Happening) (hnumbers : callNumbers [h] = []) (hcalls : ∀ j, callsOn j [h] = []) :
      Step hs w (hs ++ [h]) w
  /-- A call that has waited longest gets its turn. -/
  | turns (v : World) (i number : Nat) (request : Request) (n : Node)
      (rest : List (Nat × Request)) (ds : List Datagram) (hn : w.nodes[i]? = some n)
      (hcurrent : n.current = none) (hqueue : n.queue = (number, request) :: rest)
      (hb : (w.dequeue i).Becomes i number { n with queue := n.queue.tail } none request.task ds
        v) : Step hs w hs v
  | goes (v : World) (i number : Nat) (work : Work) (n : Node) (hn : w.nodes[i]? = some n)
      (hcurrent : n.current = some (number, work))
      (hb : w.Becomes i number n (some work) work.task [] v) : Step hs w hs v
  /-- A call is made on a node that is free. -/
  | begins (v : World) (i number : Nat) (request : Request) (n : Node) (ds : List Datagram)
      (hn : w.nodes[i]? = some n) (hfree : n.isBusy = false)
      (hclosed : request = .close → n.life.closed = true)
      (hb : w.Becomes i number n none request.task ds v) :
      Step hs w (hs ++ [.call i number request]) v
  /-- A call is made on a node that is busy. -/
  | waits (i number : Nat) (request : Request) (n : Node) (hn : w.nodes[i]? = some n)
      (hclosed : request = .close → n.life.closed = true)
      (hstopped : request = .close →
        ∀ call work, n.current = some (call, work) → work.task = .start) :
      Step hs w (hs ++ [.call i number request]) (w.enqueue i number request)
  /-- A payload is refused as soon as the call is made. -/
  | refuses (i number : Nat) (payload : Bytes) (e : TransportError) :
      Step hs w (hs ++ [.call i number (.send payload)]) (w.answer number (.error e))
  /-- A call is made on a node that is not there. -/
  | misses (i number : Nat) (request : Request) (hn : w.nodes[i]? = none) :
      Step hs w (hs ++ [.call i number request]) w

/-- Steps one after another. -/
inductive Path : List Happening → World → List Happening → World → Prop
  | refl (hs : List Happening) (w : World) : Path hs w hs w
  | next {hs hs' hs'' : List Happening} {w u v : World} (h : Step hs w hs' u)
      (more : Path hs' u hs'' v) : Path hs w hs'' v

variable {w u v : World} {hs hs' hs'' : List Happening} {i number : Nat}

theorem Path.trans (h : Path hs w hs' u) (hnext : Path hs' u hs'' v) : Path hs w hs'' v := by
  induction h with
  | refl => exact hnext
  | next hstep _ ih => exact .next hstep (ih hnext)

theorem Step.path (h : Step hs w hs' v) : Path hs w hs' v :=
  .next h (.refl hs' v)

theorem Quiet.path (h : Quiet w v) (e : Happening) (hnumbers : callNumbers [e] = [])
    (hcalls : ∀ j, callsOn j [e] = []) : Path hs w (hs ++ [e]) v :=
  .next (.quiet v h) (.next (.other e hnumbers hcalls) (.refl _ _))

/-! ## What other nodes see of a turn -/

theorem Becomes.other {n : Node} {was : Option Work} {task : Task} {ds : List Datagram}
    (h : w.Becomes i number n was task ds v) {j : Nat} (hj : i ≠ j) :
    ∃ connections, Fresh w.lastConnection v.lastConnection connections ∧
      v.nodes[j]? = (w.nodes[j]?).map fun n => n.reach ds connections := by
  cases h with
  | refused e _ hds _ =>
    refine ⟨[], Fresh.nil _ _, ?_⟩
    unfold finish
    dsimp only
    rw [getElem?_modifyNode, if_neg hj, hds]
    simp [Node.reach]
  | ends u r f _ hu _ =>
    obtain ⟨connections, hfresh, hnode⟩ := hu.nodes j
    refine ⟨connections, hfresh, ?_⟩
    unfold finish modifyLife
    dsimp only
    rw [getElem?_modifyNode, if_neg hj, getElem?_modifyNode, if_neg hj, hnode]
  | waits u work _ hu _ _ _ _ =>
    obtain ⟨connections, hfresh, hnode⟩ := hu.nodes j
    refine ⟨connections, hfresh, ?_⟩
    unfold wait
    rw [getElem?_modifyNode, if_neg hj, hnode]

theorem Becomes.returned_eq {n : Node} {was : Option Work} {task : Task} {ds : List Datagram}
    (h : w.Becomes i number n was task ds v) :
    v.returned = w.returned ∨ ∃ r, v.returned = w.returned ++ [(number, r)] := by
  cases h with
  | refused e _ _ _ => exact .inr ⟨_, rfl⟩
  | ends u r f _ hu _ => exact .inr ⟨r, congrArg (· ++ [(number, r)]) hu.returned⟩
  | waits u work _ hu _ _ _ _ _ => exact .inl hu.returned

/-- A call on a node is in hand: it has left the queue and neither waits nor has returned. -/
structure Held (hs : List Happening) (w : World) (i number : Nat) (task : Task) (n : Node) :
    Prop where
  asked : ∀ a ∈ w.returned, a.1 ∈ callNumbers hs
  once : (w.returned.map Prod.fst).Nodup
  node : w.nodes[i]? = some n
  waiting : unanswered (callsOn i hs) w.returned = (number, task) :: n.queued
  living : Living (callsOn i hs) (answers (callsOn i hs) w.returned) n
  others : ∀ (j : Nat) m, i ≠ j → w.nodes[j]? = some m → Stands (callsOn j hs) w.returned m

/-- The call in hand waits or returns. -/
theorem Held.becomes {task : Task} {n : Node} {was : Option Work} {ds : List Datagram}
    (h : Held hs w i number task n) (hnumbers : (callNumbers hs).Nodup)
    (hb : w.Becomes i number n was task ds v)
    (hwas : n.current = was.map fun work => (number, work))
    (hwork : ∀ work, was = some work → work.task = task) : Lived hs v := by
  have hcalls := map_fst_callsOn_nodup hnumbers i
  obtain ⟨hout, request, hlookup, htask⟩ := lookup_of_unanswered hcalls h.waiting
  have hcall : (number, request) ∈ callsOn i hs := mem_of_lookup hlookup
  have hmem : number ∈ (callsOn i hs).map Prod.fst := List.mem_map_of_mem hcall
  obtain ⟨m, hm, hqueue, hends⟩ := h.living.becomes h.node hwas hwork hcall htask hb
  have hothers : ∀ (j : Nat) x, i ≠ j → v.nodes[j]? = some x →
      Stands (callsOn j hs) w.returned x := by
    intro j x hj hx
    obtain ⟨connections, -, hnode⟩ := hb.other hj
    rw [hnode] at hx
    obtain ⟨y, hy, rfl⟩ := Option.map_eq_some_iff.mp hx
    exact (h.others j y hj hy).rests (.reach y ds connections)
  have hself : ∀ returned, v.returned = returned → Stands (callsOn i hs) returned m →
      (∀ j, i ≠ j → ∀ x, Stands (callsOn j hs) w.returned x → Stands (callsOn j hs) returned x) →
      ∀ (j : Nat) x, v.nodes[j]? = some x → Stands (callsOn j hs) v.returned x := by
    intro returned hreturned hstands hkeeps j x hx
    rw [hreturned]
    by_cases hj : i = j
    · subst hj
      rw [hm] at hx
      cases hx
      exact hstands
    · exact hkeeps j hj x (hothers j x hj hx)
  rcases hends with ⟨hreturned, hhand, hliving⟩ | ⟨r, hreturned, hhand, hliving⟩
  · refine ⟨hreturned ▸ h.asked, hreturned ▸ h.once, hself _ hreturned ⟨?_, hliving⟩
      fun _ _ _ hx => hx⟩
    rw [h.waiting, Node.waiting, hhand, Node.queued, Node.queued, hqueue]
    rfl
  · refine ⟨?_, ?_, hself _ hreturned ⟨?_, ?_⟩ fun j hj x hx =>
      hx.other (not_mem_callsOn_of_ne hnumbers hj hmem) r⟩
    · intro a ha
      rw [hreturned] at ha
      rcases List.mem_append.mp ha with ha | ha
      · exact h.asked a ha
      · rw [List.mem_singleton.mp ha]
        exact (map_fst_callsOn_sublist i hs).subset hmem
    · rw [hreturned]
      exact nodup_returned h.once hout
    · rw [unanswered_answer hcalls h.waiting, Node.waiting, hhand, Node.queued, Node.queued, hqueue]
      rfl
    · rw [answers_answer hlookup]
      exact hliving

/-! ## Every step keeps the accounts -/

namespace Lived

variable {request : Request} {n : Node}

theorem quiet (h : Lived hs w) (hq : Quiet w v) : Lived hs v where
  asked := hq.returned ▸ h.asked
  once := hq.returned ▸ h.once
  nodes j m hm := by
    obtain ⟨n, hn, hrests⟩ := hq.node_of_after hm
    rw [hq.returned]
    exact (h.nodes j n hn).rests hrests

theorem asked_call (h : Lived hs w) :
    ∀ a ∈ w.returned, a.1 ∈ callNumbers (hs ++ [.call i number request]) := by
  intro a ha
  rw [callNumbers_call]
  exact List.mem_append_left _ (h.asked a ha)

/-- Other nodes do not see a call. -/
theorem others_call (h : Lived hs w) (j : Nat) (m : Node) (hj : i ≠ j)
    (hm : w.nodes[j]? = some m) :
    Stands (callsOn j (hs ++ [.call i number request])) w.returned m := by
  rw [callsOn_call_of_ne hj]
  exact h.nodes j m hm

/-- The call that has waited longest is in hand once it has left the queue. -/
theorem held_of_turn {rest : List (Nat × Request)} (h : Lived hs w) (hn : w.nodes[i]? = some n)
    (hcurrent : n.current = none) (hqueue : n.queue = (number, request) :: rest) :
    Held hs (w.dequeue i) i number request.task { n with queue := n.queue.tail } where
  asked := h.asked
  once := h.once
  node := by
    unfold dequeue
    rw [getElem?_modifyNode, if_pos rfl, hn]
    rfl
  waiting := by
    refine (h.nodes i n hn).waiting.trans ?_
    simp [Node.waiting, Node.inHand, Node.queued, hcurrent, hqueue]
  living := (h.nodes i n hn).living.continues rfl rfl (.refl _)
  others j m hj hm := by
    unfold dequeue at hm
    rw [getElem?_modifyNode, if_neg hj] at hm
    exact h.nodes j m hm

/-- The call whose turn it is is in hand. -/
theorem held_of_current {work : Work} (h : Lived hs w) (hn : w.nodes[i]? = some n)
    (hcurrent : n.current = some (number, work)) : Held hs w i number work.task n where
  asked := h.asked
  once := h.once
  node := hn
  waiting := by
    rw [(h.nodes i n hn).waiting]
    simp [Node.waiting, Node.inHand, Node.queued, hcurrent]
  living := (h.nodes i n hn).living
  others j m _ hm := h.nodes j m hm

variable (h : Lived hs w) (hnumbers : (callNumbers (hs ++ [.call i number request])).Nodup)
include h hnumbers

theorem not_mem_returned : number ∉ w.returned.map Prod.fst := by
  intro hmem
  obtain ⟨a, ha, rfl⟩ := List.mem_map.mp hmem
  exact not_mem_callNumbers hnumbers (h.asked a ha)

/-- A call on a node that is free is in hand. -/
theorem held_of_call (hn : w.nodes[i]? = some n) (hfree : n.isBusy = false)
    (hclosed : request = .close → n.life.closed = true) :
    Held (hs ++ [.call i number request]) w i number request.task n := by
  have hout := h.not_mem_returned hnumbers
  have hi := h.nodes i n hn
  have hidle := n.isBusy_eq_false.mp hfree
  refine ⟨h.asked_call, h.once, hn, ?_, ?_, h.others_call⟩
  · rw [callsOn_call, unanswered_call hout, hi.waiting]
    simp [Node.waiting, Node.inHand, Node.queued, hidle.1, hidle.2]
  · rw [callsOn_call, answers_call hout]
    exact hi.living.call hclosed (by simp [hidle.1])

theorem enqueue (hn : w.nodes[i]? = some n) (hclosed : request = .close → n.life.closed = true)
    (hstopped : request = .close →
      ∀ call work, n.current = some (call, work) → work.task = .start) :
    Lived (hs ++ [.call i number request]) (w.enqueue i number request) where
  asked := h.asked_call
  once := h.once
  nodes j m hm := by
    unfold World.enqueue at hm ⊢
    rw [getElem?_modifyNode] at hm
    by_cases hj : i = j
    · subst hj
      rw [if_pos rfl, hn] at hm
      cases hm
      have hout := h.not_mem_returned hnumbers
      have hi := h.nodes i n hn
      rw [callsOn_call]
      refine ⟨?_, ?_⟩
      · change unanswered _ w.returned = _
        rw [unanswered_call hout, hi.waiting]
        simp [Node.waiting, Node.inHand, Node.queued]
      · change Living _ (answers _ w.returned) _
        rw [answers_call hout]
        exact (hi.living.call hclosed hstopped).continues rfl rfl (.refl _)
    · rw [if_neg hj] at hm
      exact h.others_call j m hj hm

theorem refuse (hrequest : request ≠ .close) (e : TransportError) :
    Lived (hs ++ [.call i number request]) (w.answer number (.error e)) where
  asked a ha := by
    rcases List.mem_append.mp ha with ha | ha
    · exact h.asked_call a ha
    · rw [List.mem_singleton.mp ha, callNumbers_call]
      exact List.mem_append_right _ (List.mem_singleton_self number)
  once := nodup_returned h.once (h.not_mem_returned hnumbers)
  nodes j m hm := by
    have hj := h.nodes j m hm
    have hout : number ∉ (callsOn j hs).map Prod.fst :=
      fun hmem => not_mem_callNumbers hnumbers ((map_fst_callsOn_sublist j hs).subset hmem)
    change Stands _ (w.returned ++ [(number, .error e)]) m
    by_cases hij : i = j
    · subst hij
      rw [callsOn_call]
      refine ⟨(unanswered_passed hout request _).trans hj.waiting, ?_⟩
      have hlookup : (callsOn i hs ++ [(number, request)]).lookup number = some request := by
        rw [List.lookup_append, lookup_eq_none hout]
        simp
      rw [answers_answer hlookup, answers_call (h.not_mem_returned hnumbers)]
      exact (hj.living.call (fun hc => absurd hc hrequest) fun hc => absurd hc hrequest).refuses
        hrequest e
    · rw [callsOn_call_of_ne hij]
      exact hj.other hout _

end Lived

theorem Lived.step (h : Lived hs w) (hstep : Step hs w hs' v)
    (hnumbers : (callNumbers hs').Nodup) : Lived hs' v := by
  cases hstep with
  | quiet v hq => exact h.quiet hq
  | other e hno hcalls =>
    refine ⟨?_, h.once, fun j m hm => ?_⟩
    · rw [callNumbers_append, hno, List.append_nil]
      exact h.asked
    · rw [callsOn_append, hcalls, List.append_nil]
      exact h.nodes j m hm
  | turns v i number request n rest ds hn hcurrent hqueue hb =>
    exact (h.held_of_turn hn hcurrent hqueue).becomes hnumbers hb hcurrent (by simp)
  | goes v i number work n hn hcurrent hb =>
    refine (h.held_of_current hn hcurrent).becomes hnumbers hb hcurrent ?_
    intro _ heq
    cases heq
    rfl
  | begins v i number request n ds hn hfree hclosed hb =>
    exact (h.held_of_call hnumbers hn hfree hclosed).becomes hnumbers hb
      (n.isBusy_eq_false.mp hfree).1 (by simp)
  | waits i number request n hn hclosed hstopped =>
    exact h.enqueue hnumbers hn hclosed hstopped
  | refuses i number payload e => exact h.refuse hnumbers (by simp) e
  | misses i number request hn =>
    refine ⟨h.asked_call, h.once, fun j m hm => h.others_call j m ?_ hm⟩
    rintro rfl
    rw [hn] at hm
    cases hm

/-! ## Steps and what happens -/

theorem Step.exists_more (h : Step hs w hs' v) : ∃ more, hs' = hs ++ more := by
  cases h with
  | quiet | turns | goes => exact ⟨[], by simp⟩
  | other | begins | waits | refuses | misses => exact ⟨_, rfl⟩

theorem Path.exists_more (h : Path hs w hs' v) : ∃ more, hs' = hs ++ more := by
  induction h with
  | refl => exact ⟨[], by simp⟩
  | next hstep _ ih =>
    obtain ⟨early, rfl⟩ := hstep.exists_more
    obtain ⟨late, rfl⟩ := ih
    exact ⟨early ++ late, by simp⟩

theorem nodup_of_append {more : List Happening} (h : (callNumbers (hs ++ more)).Nodup) :
    (callNumbers hs).Nodup := by
  rw [callNumbers_append, List.nodup_append] at h
  exact h.1

/-- What every step keeps holds at the end of a path. -/
theorem Path.invariant {P : List Happening → World → Prop} (h : Path hs w hs' v)
    (hkeeps : ∀ {hs w hs' v}, Lived hs w → (callNumbers hs').Nodup → Step hs w hs' v →
      P hs w → P hs' v)
    (hl : Lived hs w) (hnumbers : (callNumbers hs').Nodup) (hp : P hs w) :
    Lived hs' v ∧ P hs' v := by
  induction h with
  | refl => exact ⟨hl, hp⟩
  | next hstep more ih =>
    obtain ⟨late, rfl⟩ := more.exists_more
    have hmid := nodup_of_append hnumbers
    exact ih (hl.step hstep hmid) hnumbers (hkeeps hl hmid hstep hp)

theorem Path.lived (h : Path hs w hs' v) (hl : Lived hs w)
    (hnumbers : (callNumbers hs').Nodup) : Lived hs' v :=
  (h.invariant (P := fun _ _ => True) (fun _ _ _ _ => trivial) hl hnumbers trivial).1

/-! ## Every happening is a path -/

section Happenings

variable {n : Node} {request : Request}

/-- A call is performed at once or waits for its turn. -/
theorem Lived.begin_or_wait (hl : Lived hs w) (hn : w.nodes[i]? = some n) (busy : Bool)
    (hbusy : busy = false → n.isBusy = false)
    (hclosed : request = .close → n.life.closed = true)
    (hstopped : request = .close →
      ∀ call work, n.current = some (call, work) → work.task = .start) :
    Step hs w (hs ++ [.call i number request])
      (if busy then w.enqueue i number request else w.perform i number request) := by
  cases busy with
  | true => exact .waits i number request n hn hclosed hstopped
  | false =>
    exact .begins _ i number request n _ hn (hbusy rfl) hclosed
      (becomes_perform hn (hl.nodes i n hn).living.fits request)

/-- A transport that is closed is marked, and what is being written is stopped. -/
theorem Lived.stop (hl : Lived hs w) (hn : w.nodes[i]? = some n) :
    ∃ m, ((w.modifyLife i Lifecycle.markClosed).stopWrites i).nodes[i]? = some m ∧
      m.life.closed = true ∧ (∀ call work, m.current = some (call, work) → work.task = .start) ∧
      (n.isBusy = false → m.isBusy = false) ∧
      Path hs w hs ((w.modifyLife i Lifecycle.markClosed).stopWrites i) ∧
      (((w.modifyLife i Lifecycle.markClosed).stopWrites i).returned = w.returned ∨
        ∃ call work r, n.current = some (call, work) ∧ work.task = .send ∧
          ((w.modifyLife i Lifecycle.markClosed).stopWrites i).returned =
            w.returned ++ [(call, r)]) := by
  have hmark := getElem?_modifyLife hn Lifecycle.markClosed
  have hquiet : Quiet w (w.modifyLife i Lifecycle.markClosed) :=
    .modifyLife w fun n _ => .markClosed n.life
  have hlived := hl.quiet hquiet
  by_cases hwriting : ∃ call work, n.current = some (call, work) ∧ work.task = .send
  · obtain ⟨call, work, hcurrent, htask⟩ := hwriting
    have hends := ends_stopWrites hmark (hlived.nodes i _ hmark).living.fits hcurrent htask
    obtain ⟨m, hm, hidle, -, hclosed⟩ := hends.exists_node hmark
    refine ⟨m, hm, hclosed rfl, by simp [hidle], by simp [Node.isBusy, hcurrent], ?_, .inr ?_⟩
    · refine .next (.quiet _ hquiet) (Step.goes _ i call work _ hmark hcurrent ?_).path
      rw [htask]
      exact hends.becomes (by simp)
    · obtain ⟨u, r, f, hu, -, hv⟩ := hends
      refine ⟨call, work, r, hcurrent, htask, ?_⟩
      rw [hv]
      exact congrArg (· ++ [(call, r)]) hu.returned
  · have hstarting : ∀ call work, n.current = some (call, work) → work.task = .start := by
      intro call work hcurrent
      cases htask : work.task with
      | start => rfl
      | send => exact absurd ⟨call, work, hcurrent, htask⟩ hwriting
      | close => exact absurd htask work.task_ne_close
    rw [stopWrites_eq_self hmark hstarting]
    exact ⟨_, hmark, rfl, hstarting, id, (Step.quiet _ hquiet).path, .inl rfl⟩

/-- A call that is not to close is one step. -/
theorem Lived.step_call (hl : Lived hs w) (hrequest : request ≠ .close) :
    Step hs w (hs ++ [.call i number request]) (w.call i number request) := by
  unfold call
  cases hn : w.nodes[i]? with
  | none => exact .misses i number request hn
  | some n =>
    dsimp only
    cases request with
    | start => exact hl.begin_or_wait hn n.isBusy id (by simp) (by simp)
    | send payload =>
      dsimp only
      cases Lifecycle.checkPayload n.config.reportedMaxMessageSize payload.length with
      | error e => exact .refuses i number payload e
      | ok _ => exact hl.begin_or_wait hn n.isBusy id (by simp) (by simp)
    | close => exact absurd rfl hrequest

theorem Lived.path_call (hl : Lived hs w)
    (hnumbers : (callNumbers (hs ++ [.call i number request])).Nodup) :
    Path hs w (hs ++ [.call i number request]) (w.call i number request) := by
  by_cases hrequest : request = .close
  · subst hrequest
    unfold call
    cases hn : w.nodes[i]? with
    | none => exact (Step.misses i number .close hn).path
    | some n =>
      obtain ⟨m, hm, hclosed, hstarting, hbusy, hpath, -⟩ := hl.stop hn
      exact hpath.trans ((hpath.lived hl (nodup_of_append hnumbers)).begin_or_wait hm n.isBusy
        hbusy (fun _ => hclosed) fun _ => hstarting).path
  · exact (hl.step_call hrequest).path

theorem step_turn (hl : Lived hs w) (hn : w.nodes[i]? = some n)
    (hv : w.moveQueue i n = some v) : Step hs w hs v := by
  unfold moveQueue at hv
  cases hcurrent : n.current with
  | some c =>
    rw [hcurrent] at hv
    cases hv
  | none =>
    cases hqueue : n.queue with
    | nil =>
      rw [hcurrent, hqueue] at hv
      cases hv
    | cons c rest =>
      obtain ⟨number, request⟩ := c
      rw [hcurrent, hqueue] at hv
      cases hv
      have hheld := hl.held_of_turn hn hcurrent hqueue
      exact .turns _ i number request n rest _ hn hcurrent hqueue
        (becomes_perform hheld.node hheld.living.fits request)

theorem step_proceed (hl : Lived hs w) (hn : w.nodes[i]? = some n)
    (hv : w.moveCall i n = some v) : Step hs w hs v := by
  cases hcurrent : n.current with
  | none =>
    unfold moveCall at hv
    rw [hcurrent] at hv
    cases hv
  | some c =>
    obtain ⟨number, work⟩ := c
    exact .goes v i number work n hn hcurrent
      (becomes_moveCall hn (hl.nodes i n hn).living.fits hcurrent hv)

theorem step_onNode {move : Node → Option World}
    (hmove : ∀ n v, w.nodes[i]? = some n → move n = some v → Step hs w hs v) :
    Step hs w hs (w.onNode i move) := by
  unfold onNode
  cases hv : w.nodes[i]?.bind move with
  | none => exact .quiet w (.refl w)
  | some v =>
    obtain ⟨n, hn, hv⟩ := Option.bind_eq_some_iff.mp hv
    exact hmove n v hn hv

/-- Whatever happens is made of steps. -/
theorem Lived.path (hl : Lived hs w) (h : Happening)
    (hnumbers : (callNumbers (hs ++ [h])).Nodup) : Path hs w (hs ++ [h]) (w.after h) := by
  cases h with
  | call i number request => exact hl.path_call hnumbers
  | turn i =>
    exact .next (step_onNode fun n v hn hv => step_turn hl hn hv)
      (Step.other (.turn i) rfl fun _ => rfl).path
  | proceed i =>
    exact .next (step_onNode fun n v hn hv => step_proceed hl hn hv)
      (Step.other (.proceed i) rfl fun _ => rfl).path
  | takeIn i place => exact (w.quiet_takeIn i place).path _ rfl fun _ => rfl
  | failLink i => exact (w.quiet_failLink_after i).path _ rfl fun _ => rfl
  | failInflow i place => exact (w.quiet_failInflow_after i place).path _ rfl fun _ => rfl
  | dial i => exact (w.quiet_dial i).path _ rfl fun _ => rfl
  | datagram d => exact (Quiet.of_around (w.around_castDatagram d)).path _ rfl fun _ => rfl
  | elsewhere u =>
    have hquiet : Quiet w (w.after (.elsewhere u)) := .of_nodes_eq rfl rfl
    exact hquiet.path _ rfl fun _ => rfl

/-- Whatever happens one after another is made of steps. -/
theorem Lived.path_run (hl : Lived hs w) (more : List Happening)
    (hnumbers : (callNumbers (hs ++ more)).Nodup) : Path hs w (hs ++ more) (w.run more) := by
  induction more generalizing hs w with
  | nil => simpa using Path.refl hs w
  | cons h more ih =>
    have hassoc : hs ++ h :: more = (hs ++ [h]) ++ more := by simp
    rw [hassoc] at hnumbers ⊢
    have hfirst := nodup_of_append hnumbers
    have hpath := hl.path h hfirst
    exact hpath.trans (ih (hpath.lived hl hfirst) hnumbers)

/-- What every step keeps is kept by everything that happens. -/
theorem Lived.run_invariant {P : List Happening → World → Prop} (hl : Lived hs w)
    (hkeeps : ∀ {hs w hs' v}, Lived hs w → (callNumbers hs').Nodup → Step hs w hs' v →
      P hs w → P hs' v)
    (more : List Happening) (hnumbers : (callNumbers (hs ++ more)).Nodup) (hp : P hs w) :
    Lived (hs ++ more) (w.run more) ∧ P (hs ++ more) (w.run more) :=
  (hl.path_run more hnumbers).invariant hkeeps hl hnumbers hp

theorem Lived.run (hl : Lived hs w) (more : List Happening)
    (hnumbers : (callNumbers (hs ++ more)).Nodup) : Lived (hs ++ more) (w.run more) :=
  (hl.path_run more hnumbers).lived hl hnumbers

end Happenings

end EvictionBus.Net.World
