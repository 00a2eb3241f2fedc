import EvictionBus.Proofs.Net.FailedStarts
import EvictionBus.Proofs.Net.Progress
import EvictionBus.Proofs.Net.Settling
import Mathlib.Algebra.Order.BigOperators.Group.List
import Mathlib.Algebra.Order.Group.Nat

/-!
# The contract of a transport

The calls to start, to send and to close keep one contract on every kind of transport, whatever
else happens to it: failures of its sockets and of its peers, and calls made while others go on.
-/

namespace EvictionBus.Net.World

variable {w : World} {hs : List Happening} {i number : Nat} {n : Node} {request : Request}

/-! ## Closing once more -/

/-- A transport on which a call to close has returned is closed and has no link. -/
theorem Lived.released (hl : Lived hs w) (hnumbers : (callNumbers hs).Nodup)
    (hn : w.nodes[i]? = some n) {k : Nat} (hcall : (k, .close) ∈ callsOn i hs)
    (hreturned : k ∈ w.returned.map Prod.fst) : n.life.closed = true ∧ n.life.link = none := by
  obtain ⟨a, ha, rfl⟩ := List.mem_map.mp hreturned
  exact (hl.nodes i n hn).living.released _
    (mem_answers (map_fst_callsOn_nodup hnumbers i) hcall ha) rfl

/-- Nothing is left to be marked or stopped once a call to close has been made. -/
theorem Lived.stop_again (hl : Lived hs w) (hn : w.nodes[i]? = some n) {k : Nat}
    (hcall : (k, .close) ∈ callsOn i hs) :
    (w.modifyLife i Lifecycle.markClosed).stopWrites i = w := by
  have hliving := (hl.nodes i n hn).living
  have hmarked : w.modifyLife i Lifecycle.markClosed = w := by
    refine modifyNode_eq_self fun m hm => ?_
    rw [hn] at hm
    cases hm
    unfold Lifecycle.markClosed
    rw [← hliving.closing _ hcall rfl]
  rw [hmarked]
  exact stopWrites_eq_self hn (hliving.stopped _ hcall rfl)

theorem Lived.call_close_again (hl : Lived hs w) (hn : w.nodes[i]? = some n) {k : Nat}
    (hcall : (k, .close) ∈ callsOn i hs) : w.after (.call i number .close) =
      if n.isBusy then w.enqueue i number .close else w.perform i number .close := by
  change w.call i number .close = _
  unfold call
  rw [hn]
  dsimp only
  rw [hl.stop_again hn hcall]

/-- The calls on a node before one of them. -/
def callsBefore (hs : List Happening) (i number : Nat) : List (Nat × Request) :=
  (callsOn i hs).takeWhile fun c => c.1 ≠ number

theorem mem_callsOn_of_before {c : Nat × Request} (h : c ∈ callsBefore hs i number) :
    c ∈ callsOn i hs :=
  (List.takeWhile_prefix _).subset h

theorem callsBefore_eq {early late : List (Nat × Request)} (hnumbers : (callNumbers hs).Nodup)
    (hcalls : callsOn i hs = early ++ (number, request) :: late) :
    callsBefore hs i number = early := by
  have hnodup := map_fst_callsOn_nodup hnumbers i
  rw [hcalls, List.map_append, List.nodup_append] at hnodup
  unfold callsBefore
  rw [hcalls, List.takeWhile_append_of_pos, List.takeWhile_cons_of_neg (by simp), List.append_nil]
  intro c hc
  have hne : c.1 ≠ number := hnodup.2.2 _ (List.mem_map_of_mem hc) number (by simp)
  simpa using hne

/-- A call to close after another one does nothing but return. -/
theorem Lived.closed_again (hl : Lived hs w) (hnumbers : (callNumbers hs).Nodup)
    (hn : w.nodes[i]? = some n) {k : Nat} (hbefore : (k, .close) ∈ callsBefore hs i number) :
    OnlyReturns w i n number .close (.ok ()) where
  at_once hfree := by
    have hcall := mem_callsOn_of_before hbefore
    obtain ⟨hcurrent, hqueue⟩ := n.isBusy_eq_false.mp hfree
    have hnone : unanswered (callsOn i hs) w.returned = [] := by
      rw [(hl.nodes i n hn).waiting, Node.waiting, Node.inHand, Node.queued, hcurrent, hqueue]
      rfl
    have hreleased := hl.released hnumbers hn hcall (answered_of_unanswered_nil hnone _ hcall)
    rw [hl.call_close_again hn hcall, hfree]
    exact perform_close hn hcurrent hreleased.2
  at_turn rest hcurrent hqueue := by
    have hwaiting := (hl.held_of_turn hn hcurrent hqueue).waiting
    obtain ⟨-, called, hlookup, htask⟩ :=
      lookup_of_unanswered (map_fst_callsOn_nodup hnumbers i) hwaiting
    obtain ⟨early, late, hcalls⟩ := List.append_of_mem (mem_of_lookup hlookup)
    rw [callsBefore_eq hnumbers hcalls] at hbefore
    have hreturned := answered_before (map_fst_callsOn_nodup hnumbers i) hwaiting hcalls _ hbefore
    have hreleased := hl.released hnumbers hn
      (by rw [hcalls]; exact List.mem_append_left _ hbefore) hreturned
    rw [after_turn hn hcurrent hqueue]
    exact perform_close (getElem?_dequeue hn) hcurrent hreleased.2

/-! ## The contract -/

/-- The contract of the transport of a node, when `hs` has happened and the world is `w`. Calls are
known by different numbers. -/
structure Contract (hs : List Happening) (w : World) (i : Nat) (n : Node) : Prop where
  /-- A transport that is closed stays closed. -/
  stays_closed : n.life.closed = true → ∀ more, (callNumbers (hs ++ more)).Nodup →
    ∃ m, (w.run more).nodes[i]? = some m ∧ m.life.closed = true
  /-- A payload above the limit is refused at once. -/
  too_large : ∀ number payload limit, n.config.reportedMaxMessageSize = some limit →
    limit < payload.length →
      w.after (.call i number (.send payload)) =
        w.answer number (.error (.payloadTooLarge payload.length limit))
  /-- Other calls wait for their turn. -/
  waits : ∀ number request, n.isBusy = true → n.Admits request →
    (request = .close → ∃ k, (k, .close) ∈ callsOn i hs) →
      w.after (.call i number request) = w.enqueue i number request
  /-- On a closed transport calls to start and to send do nothing but return. -/
  closed : n.life.closed = true → ∀ number request, request ≠ .close → n.Admits request →
    OnlyReturns w i n number request (.error .closed)
  /-- A call to start or to send that is made on a closed transport is never answered with
  anything else. -/
  refused : n.life.closed = true → ∀ number request more, request ≠ .close →
    (callNumbers (hs ++ .call i number request :: more)).Nodup →
      ∀ r, (number, r) ∈ (w.run (.call i number request :: more)).returned →
        r = .error (n.refusal request)
  /-- All calls on a closed transport return if they go on and get their turns when enough time
  has passed. -/
  returns : n.life.closed = true → ∃ late more, w.now ≤ late ∧ Serves i more ∧
    ∀ c ∈ callsOn i hs,
      c.1 ∈ (w.run (.elsewhere { w with now := late } :: more)).returned.map Prod.fst
  /-- A transport is started once. -/
  once : starts (answers (callsOn i hs) w.returned) ≤ 1
  /-- Starting again does nothing but return an error. -/
  started : n.life.closed = false → starts (answers (callsOn i hs) w.returned) ≠ 0 →
    ∀ number, OnlyReturns w i n number .start
      (.error (.configuration "transport already initialized"))
  not_started : n.life.closed = false → starts (answers (callsOn i hs) w.returned) = 0 →
    ∀ number payload, n.Admits (.send payload) →
      OnlyReturns w i n number (.send payload) (.error .notInitialized)
  /-- A call to start that fails leaves a transport without a link, and closes it only if it is a
  client of a relay that cannot connect to the relay or greet it. -/
  failed : n.life.link = none → ∀ h number e, (callNumbers (hs ++ [h])).Nodup →
    (number, .start) ∈ callsOn i (hs ++ [h]) → number ∉ w.returned.map Prod.fst →
      (number, .error e) ∈ (w.after h).returned → FailedToStart n i (w.after h)
  /-- Closing again does nothing but return. -/
  closed_again : ∀ number k, (k, .close) ∈ callsBefore hs i number →
    OnlyReturns w i n number .close (.ok ())
  sent : n.life.traffic.sent = sends (answers (callsOn i hs) w.returned)

/-- The times of a node that are still to come are over when their sum has passed. -/
theorem Lived.returns (hl : Lived hs w) (hnumbers : (callNumbers hs).Nodup)
    (hn : w.nodes[i]? = some n) (hclosed : n.life.closed = true) :
    ∃ late more, w.now ≤ late ∧ Serves i more ∧ ∀ c ∈ callsOn i hs,
      c.1 ∈ (w.run (.elsewhere { w with now := late } :: more)).returned.map Prod.fst := by
  let late := w.now + n.dueTimes.sum + 1
  have hsame : callNumbers (hs ++ [.elsewhere { w with now := late }]) = callNumbers hs := by
    rw [callNumbers_append]
    exact List.append_nil _
  have hlater := hl.run [.elsewhere { w with now := late }] (hsame ▸ hnumbers)
  have hover : ∀ call work, n.current = some (call, work) → work.Over late := by
    intro call work hcurrent t ht
    have hmem : t ∈ n.dueTimes := by
      unfold Node.dueTimes
      rw [hcurrent]
      exact List.mem_append_left _ ht
    exact Nat.lt_succ_of_le (Nat.le_add_left_of_le (List.le_sum_of_mem hmem))
  obtain ⟨more, hserves, hreturned⟩ := hlater.all_return (hsame ▸ hnumbers) hn hclosed hover
  refine ⟨late, more, Nat.le_succ_of_le (Nat.le_add_right _ _), hserves, fun c hc => hreturned c ?_⟩
  rw [callsOn_append]
  exact List.mem_append_left _ hc

theorem Lived.contract (hl : Lived hs w) (hnumbers : (callNumbers hs).Nodup)
    (hn : w.nodes[i]? = some n) : Contract hs w i n where
  stays_closed hclosed more hmore := hl.closed_run hn hclosed more hmore
  too_large number payload limit hlimit hlong := by
    refine after_call_of_error hn ?_
    rw [hlimit]
    exact if_neg (Nat.not_le.mpr hlong)
  waits number request hbusy hadmits hclose := by
    by_cases hrequest : request = .close
    · subst hrequest
      obtain ⟨k, hcall⟩ := hclose rfl
      rw [hl.call_close_again hn hcall, if_pos hbusy]
    · change w.call i number request = _
      rw [call_of_admits hn hrequest hadmits, if_pos hbusy]
  closed hclosed number request hrequest hadmits :=
    onlyReturns_of_refuses hn (refuses_of_closed hclosed hrequest) hadmits
  refused hclosed number request more hrequest hmore :=
    (hl.refused_run hn hclosed hrequest more hmore).answer
  returns hclosed := hl.returns hnumbers hn hclosed
  once := (hl.nodes i n hn).living.once
  started hopen hstarted number := by
    have hlink : n.life.link.isSome := by
      rw [Option.isSome_iff_ne_none]
      exact fun hnone => hstarted ((hl.nodes i n hn).living.unstarted hopen hnone)
    refine onlyReturns_of_refuses hn ?_ trivial
    change n.life.mayStart = _
    simp [Lifecycle.mayStart, hopen, hlink]
  not_started hopen hzero number payload hadmits := by
    have hlink : n.life.link = none := by
      rw [← Option.not_isSome_iff_eq_none]
      intro hsome
      rw [(hl.nodes i n hn).living.linked hsome] at hzero
      cases hzero
    refine onlyReturns_of_refuses hn ?_ hadmits
    change n.life.active = _
    simp [Lifecycle.active, hopen, hlink]
  failed hlink h number e hmore hcall hout hr := hl.failed_start hmore hcall hout hr hn hlink
  closed_again number k hbefore := hl.closed_again hnumbers hn hbefore
  sent := (hl.nodes i n hn).living.sent

/-- Whatever happens to unused nodes, calls and failures in any order: every node keeps the
contract. -/
theorem contract_run (hw : w.Unused) (hnumbers : (callNumbers hs).Nodup) :
    ∀ i n, (w.run hs).nodes[i]? = some n → Contract hs (w.run hs) i n := by
  intro i n hn
  have hl := hw.lived.run hs hnumbers
  exact hl.contract hnumbers hn

/-- The same after steps from outside, with everything that happens by itself after each of them. -/
theorem contract_steps (hw : w.Unused) (ss : List Net.Step) :
    ∃ hs, hs.filter Happening.isCall = callsOver 0 ss ∧
      ∀ i n, (w.steps 0 ss).nodes[i]? = some n → Contract hs (w.steps 0 ss) i n := by
  obtain ⟨hs, hrun, hcalls, hnumbers⟩ := w.exists_run_steps ss
  refine ⟨hs, hcalls, fun i n hn => ?_⟩
  rw [hrun] at hn ⊢
  exact (hw.lived.run hs hnumbers).contract hnumbers hn

/-- The relay of a client does not answer its dial, and the client is closed meanwhile. -/
example :
    let w : World := .initial true
      [.ofConfig ((TransportConfig.ofKind .relay).withAddress "127.0.0.1:4100")
        ⟨List.replicate 16 7, rfl⟩]
      none none .remote
    (w.steps 0 [.silence [.ofIpv4 .loopback 4100], .call 0 .start, .call 0 .close,
        .advance 10000]).returned =
      [(1, .error (.handshake "127.0.0.1:4100 timed out")), (2, .ok ())] := by
  decide +kernel

/-- A node that is to join a group, on a machine of its own. -/
def lonely : World :=
  .initial true
    [.ofConfig ((TransportConfig.ofKind .multicast).withAddress "239.1.2.3:4567")
      ⟨List.replicate 16 7, rfl⟩]
    none none .remote

/-- The node is started and sends, its socket fails, and it is closed twice. -/
def shortLife : List Happening :=
  [.call 0 0 .start, .call 0 1 (.send [1]), .call 0 2 .start, .failLink 0, .call 0 3 (.send [2]),
    .call 0 4 .close, .call 0 5 .close]

theorem unused_lonely : lonely.Unused where
  nodes n hn := by
    rw [List.mem_singleton.mp hn]
    exact ⟨rfl, rfl, rfl⟩
  returned := rfl

theorem contract_run_shortLife :
    lonely.Unused ∧ (callNumbers shortLife).Nodup ∧
      (lonely.run shortLife).returned =
        [(0, .ok ()), (1, .ok ()), (2, .error (.configuration "transport already initialized")),
          (3, .error .closed), (4, .ok ()), (5, .ok ())] ∧
      ∃ n, (lonely.run shortLife).nodes[0]? = some n ∧ n.life.closed = true ∧
        Contract shortLife (lonely.run shortLife) 0 n := by
  have hnumbers : (callNumbers shortLife).Nodup := by decide
  have hclosed : (lonely.run shortLife).nodes[0]?.map (fun n => n.life.closed) = some true := by
    decide +kernel
  obtain ⟨n, hn, hmark⟩ := Option.map_eq_some_iff.mp hclosed
  exact ⟨unused_lonely, hnumbers, rfl, n, hn, hmark, contract_run unused_lonely hnumbers 0 n hn⟩

end EvictionBus.Net.World
