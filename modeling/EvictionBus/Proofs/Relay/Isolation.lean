import EvictionBus.Proofs.Relay.Bystanders
import EvictionBus.Proofs.Relay.Origins
import EvictionBus.Proofs.Relay.Routing

/-!
# One connection does not influence the others

Whatever a connection does that sends no eviction, everybody else is served as if it had never come:
the others keep their names, their counts, their queues and their place in the table, they are
dropped for the same reasons, and evictions are passed on under the same numbers.  It holds for
whole inputs, and for tasks that take their steps in any order.
-/

namespace EvictionBus.Relay

open State

variable {c i : Nat} {js jt : List Event}

/-! ## Steps -/

namespace Tasks

variable {t u : Tasks}

/-- The same step in the relay without connection `c`. -/
def Step.renumber (c : Nat) : Step → Step
  | .accept address => .accept address
  | .leave => .leave
  | .serve => .serve
  | .read key frame => .read (Relay.renumber c key) frame
  | .giveUp key reason => .giveUp (Relay.renumber c key) reason
  | .proceed key => .proceed (Relay.renumber c key)
  | .keep key input => .keep (Relay.renumber c key) input
  | .take key => .take (Relay.renumber c key)
  | .failWriting key e => .failWriting (Relay.renumber c key) e
  | .settle key => .settle (Relay.renumber c key)
  | .stopWriting key => .stopWriting (Relay.renumber c key)
  | .ask => .ask
  | .tell key => .tell (Relay.renumber c key)
  | .request => .request

/-- The step is about connection `c`: it comes, or keeps the task that accepts connections busy, one
of its own tasks takes the step, or another task offers something to it or drops it. -/
def concerns (t : Tasks) (c : Nat) : Step → Bool
  | .accept _ => t.serving.isFor c || t.serving = .accepting && t.relay.lastKey + 1 = c
  | .leave | .serve => t.serving.isFor c
  | .read key _ | .giveUp key _ | .keep key _ | .take key | .failWriting key _ | .settle key
  | .stopWriting key | .tell key => key = c
  | .proceed key => key = c || (t.works.get? key).any (Work.isFor c)
  | .ask | .request => false

/-- A run without connection `c`. -/
def stepsWithout (c : Nat) (t : Tasks) : List Step → List Step
  | [] => []
  | x :: steps =>
    let rest := stepsWithout c (t.step x) steps
    if t.concerns c x then rest else x.renumber c :: rest

/-- What is reported in a run about others than connection `c`. -/
def notedOver (c : Nat) (t : Tasks) : List Step → List Event
  | [] => []
  | x :: steps =>
    ((t.step x).relay.journal.drop t.relay.journal.length).filter
        (fun e => !(e.isOf c || t.concerns c x && e.isChat)) ++
      notedOver c (t.step x) steps

/-- The tasks of a relay are at the same points as those of the relay without connection `c`. -/
structure InStep (c : Nat) (t u : Tasks) : Prop where
  work_eq : ∀ i, u.works.get? i = (t.works.get? (skip c i)).map (Work.without c)
  failure_eq : ∀ i, u.failures.get? i =
    (t.failures.get? (skip c i)).map (Option.map (Dropping.without c))
  serving_eq : u.serving = t.serving.without c
  asked_eq : u.asked = t.asked
  /-- Nothing is left to do about an eviction from the connection. -/
  talk : ∀ w, t.works.get? c = some w → w.isTalk = true

/-- `u` is what `t` would be if connection `c` had never come, apart from the journal. -/
structure Beside (c : Nat) (t u : Tasks) : Prop extends InStep c t u where
  relay : State.Beside c t.relay u.relay

/-- Since their journals were `js` and `jt`, both have reported the same about the others. -/
structure Mirrors (c : Nat) (js jt : List Event) (t u : Tasks) : Prop extends InStep c t u where
  relay : State.Mirrors c js jt t.relay u.relay

theorem Mirrors.beside (h : Mirrors c js jt t u) : Beside c t u :=
  ⟨h.toInStep, h.relay.toBeside⟩

theorem Beside.mirrors (h : Beside c t u) : Mirrors c t.relay.journal u.relay.journal t u :=
  ⟨h.toInStep, h.relay.mirrors⟩

theorem InStep.put (h : InStep c t u) (i : Nat) {s s' : State} {w : Option Work} :
    InStep c (t.put (skip c i) (s, w)) (u.put i (s', w.map (Work.without c))) := by
  have hown : c ≠ skip c i := (skip_ne c i).symm
  cases w with
  | none =>
    refine { h with work_eq := fun j => ?_, talk := fun w hw => h.talk w ?_ }
    · show (u.works.erase i).get? j = ((t.works.erase (skip c i)).get? (skip c j)).map _
      simp only [KeyTable.get?_erase, skip_inj]
      split
      · rfl
      · exact h.work_eq j
    · change (t.works.erase (skip c i)).get? c = some w at hw
      rwa [KeyTable.get?_erase, if_neg hown] at hw
  | some w =>
    refine { h with work_eq := fun j => ?_, talk := fun v hv => h.talk v ?_ }
    · show (u.works.insert i _).get? j = ((t.works.insert (skip c i) w).get? (skip c j)).map _
      simp only [KeyTable.get?_insert, skip_inj]
      split
      · rfl
      · exact h.work_eq j
    · change (t.works.insert (skip c i) w).get? c = some v at hv
      rwa [KeyTable.get?_insert, if_neg hown] at hv

theorem Mirrors.put (h : Mirrors c js jt t u) (i : Nat) {o o' : State × Option Work}
    (ho : Work.Mirrors c js jt o o') : Mirrors c js jt (t.put (skip c i) o) (u.put i o') := by
  obtain ⟨s, w⟩ := o
  obtain ⟨s', w'⟩ := o'
  obtain ⟨hrelay, rfl⟩ := ho
  refine ⟨h.toInStep.put i, ?_⟩
  cases w <;> exact hrelay

theorem InStep.fail (h : InStep c t u) (i : Nat) (s s' : State) (d : Option Dropping) :
    InStep c { t with relay := s, failures := t.failures.insert (skip c i) d }
      { u with relay := s', failures := u.failures.insert i (d.map (Dropping.without c)) } := by
  refine { h with failure_eq := fun j => ?_ }
  simp only [KeyTable.get?_insert, skip_inj]
  split
  · rfl
  · exact h.failure_eq j

theorem Mirrors.ofRelay (h : Mirrors c js jt t u) {s s' : State}
    (hrelay : State.Mirrors c js jt s s') :
    Mirrors c js jt { t with relay := s } { u with relay := s' } :=
  ⟨{ h.toInStep with }, hrelay⟩

theorem Mirrors.hasStarted_eq (h : Mirrors c js jt t u) (i : Nat) :
    u.hasStarted i = t.hasStarted (skip c i) := by
  unfold hasStarted
  rw [KeyTable.contains, KeyTable.contains, h.relay.connection_eq, h.serving_eq,
    Serving.hasStarted_without]

theorem Mirrors.waits_eq (h : Mirrors c js jt t u) (i : Nat) :
    u.waits i = t.waits (skip c i) := by
  unfold waits
  rw [h.hasStarted_eq, h.work_eq, Option.isNone_map]

theorem Mirrors.accept (h : Mirrors c js jt t u) (hc : 0 < c) (address : String)
    (hother : t.concerns c (.accept address) = false) :
    Mirrors c js jt (t.accept address) (u.accept address) := by
  obtain ⟨hbusy, hnext⟩ := Bool.or_eq_false_iff.1 hother
  have hboth := Serving.without_eq_accepting hbusy
  rw [← h.serving_eq] at hboth
  by_cases hserving : t.serving = .accepting
  · unfold Tasks.accept
    have hne : t.relay.lastKey + 1 ≠ c := fun hown => by
      simp [hserving, hown] at hnext
    obtain ⟨hkey, hrelay⟩ := h.relay.nextKey hc hne
    rw [hserving, hboth.2 hserving]
    refine ⟨{ h.toInStep with serving_eq := ?_ }, hrelay⟩
    refine Eq.trans ?_ (if_neg hne).symm
    rw [← hkey, renumber_skip]
  · rw [accept_of_ne hserving, accept_of_ne fun he => hserving (hboth.1 he)]
    exact h

theorem Mirrors.leave (h : Mirrors c js jt t u) (hother : t.serving.isFor c = false) :
    Mirrors c js jt t.leave u.leave := by
  have hboth := Serving.without_eq_accepting hother
  rw [← h.serving_eq] at hboth
  by_cases hserving : t.serving = .accepting
  · unfold Tasks.leave
    rw [hserving, hboth.2 hserving]
    simp only
    rw [h.relay.stopping_eq]
    split
    · exact ⟨{ h.toInStep with serving_eq := rfl }, h.relay.note .shutdownRequested⟩
    · exact h
  · rw [leave_of_ne hserving, leave_of_ne fun he => hserving (hboth.1 he)]
    exact h

theorem Mirrors.serve (h : Mirrors c js jt t u) (hother : t.serving.isFor c = false) :
    Mirrors c js jt t.serve u.serve := by
  obtain ⟨hrelay, hserving⟩ := Serving.mirrors_proceed h.relay hother
  rw [← h.serving_eq] at hrelay hserving
  exact ⟨{ h.toInStep with serving_eq := hserving }, hrelay⟩

theorem Mirrors.read (h : Mirrors c js jt t u) (i : Nat) (frame : RawFrame) :
    Mirrors c js jt (t.read (skip c i) frame) (u.read i frame) := by
  have hcan : u.canRead i = t.canRead (skip c i) := by
    unfold canRead
    rw [h.waits_eq, h.relay.reading?_eq]
  unfold Tasks.read
  rw [hcan]
  split
  · exact h.put i (Work.mirrors_take h.relay i frame)
  · exact h

theorem Mirrors.giveUp (h : Mirrors c js jt t u) (i : Nat) (reason : Disconnect) :
    Mirrors c js jt (t.giveUp (skip c i) reason) (u.giveUp i reason) := by
  unfold Tasks.giveUp
  rw [h.waits_eq]
  split
  · exact h.put i ⟨h.relay, rfl⟩
  · exact h

theorem Mirrors.proceed (h : Mirrors c js jt t u) (i : Nat)
    (hother : (t.works.get? (skip c i)).any (Work.isFor c) = false) :
    Mirrors c js jt (t.proceed (skip c i)) (u.proceed i) := by
  have hwork := h.work_eq i
  unfold Tasks.proceed
  rw [hwork]
  cases hw : t.works.get? (skip c i) with
  | none => exact h
  | some w =>
    rw [hw] at hother
    exact h.put i (Work.mirrors_proceed h.relay i hother)

theorem Mirrors.failWriting (h : Mirrors c js jt t u) (i : Nat) (e : IoError) :
    Mirrors c js jt (t.failWriting (skip c i) e) (u.failWriting i e) := by
  unfold Tasks.failWriting
  rw [h.hasStarted_eq, h.failure_eq, Option.isNone_map]
  split
  · exact ⟨h.fail i t.relay u.relay (some (.remove (.io e))), h.relay⟩
  · exact h

theorem Mirrors.settle (h : Mirrors c js jt t u) (i : Nat) :
    Mirrors c js jt (t.settle (skip c i)) (u.settle i) := by
  have hfailure := h.failure_eq i
  unfold Tasks.settle
  rw [hfailure]
  cases t.failures.get? (skip c i) with
  | none => exact h
  | some d =>
    cases d with
    | none => exact h
    | some d =>
      obtain ⟨hrelay, hleft⟩ := Dropping.mirrors_proceed h.relay i d
      refine ⟨?_, hrelay⟩
      have hfail := h.fail i (d.proceed t.relay (skip c i)).1
        ((d.without c).proceed u.relay i).1 (d.proceed t.relay (skip c i)).2
      rw [← hleft] at hfail
      exact hfail

theorem Mirrors.tell (h : Mirrors c js jt t u) (i : Nat) :
    Mirrors c js jt (t.tell (skip c i)) (u.tell i) := by
  unfold Tasks.tell
  by_cases hasked : t.asked = true
  · rw [if_pos hasked, if_pos (h.asked_eq.trans hasked)]
    exact h.ofRelay (h.relay.modify i _)
  · rw [if_neg hasked, if_neg (by rwa [h.asked_eq])]
    exact h

theorem Mirrors.request (h : Mirrors c js jt t u) : Mirrors c js jt t.request u.request := by
  unfold Tasks.request
  by_cases hasked : t.asked = true
  · rw [if_pos hasked, if_pos (h.asked_eq.trans hasked)]
    exact h.ofRelay h.relay.cancelAll
  · rw [if_neg hasked, if_neg (by rwa [h.asked_eq])]
    exact h

theorem Mirrors.step (h : Mirrors c js jt t u) (hc : 0 < c) {x : Step}
    (hother : t.concerns c x = false) : Mirrors c js jt (t.step x) (u.step (x.renumber c)) := by
  -- The key of another connection is the one that stands for it in the other relay.
  have hkey : ∀ {key : Nat}, decide (key = c) = false → skip c (renumber c key) = key :=
    fun hne => skip_renumber (of_decide_eq_false hne)
  cases x with
  | accept address => exact h.accept hc address hother
  | leave => exact h.leave hother
  | serve => exact h.serve hother
  | read key frame =>
    have := h.read (renumber c key) frame
    rwa [hkey hother] at this
  | giveUp key reason =>
    have := h.giveUp (renumber c key) reason
    rwa [hkey hother] at this
  | proceed key =>
    obtain ⟨hne, hnext⟩ := Bool.or_eq_false_iff.1 hother
    have := h.proceed (renumber c key) (by rwa [hkey hne])
    rwa [hkey hne] at this
  | keep key input =>
    have := h.relay.modify (renumber c key) fun x => { x with input := input }
    rw [hkey hother] at this
    exact h.ofRelay this
  | take key =>
    have := h.relay.takeOutbound (renumber c key)
    rw [hkey hother] at this
    exact h.ofRelay this
  | failWriting key e =>
    have := h.failWriting (renumber c key) e
    rwa [hkey hother] at this
  | settle key =>
    have := h.settle (renumber c key)
    rwa [hkey hother] at this
  | stopWriting key =>
    have := h.relay.dropQueue (renumber c key)
    rw [hkey hother] at this
    exact h.ofRelay this
  | ask => exact ⟨{ h.toInStep with asked_eq := rfl }, h.relay⟩
  | tell key =>
    have := h.tell (renumber c key)
    rwa [hkey hother] at this
  | request => exact h.request

/-! ### Steps for the one connection -/

/-- Only what concerns connection `c` has happened on the way to `t'`. -/
structure Own (c : Nat) (t t' u : Tasks) : Prop where
  beside : Beside c t' u
  told : ∃ es, t'.relay.journal = t.relay.journal ++ es ∧ ∀ e ∈ es, e.IsOwn c

theorem Beside.own_same (h : Beside c t u) : Own c t t u :=
  ⟨h, [], (List.append_nil _).symm, fun _ he => absurd he List.not_mem_nil⟩

theorem Beside.own_relay (h : Beside c t u) {s : State}
    (hs : State.Apart (Event.IsOwn c) c t.relay s) : Own c t { t with relay := s } u :=
  ⟨⟨{ h.toInStep with }, h.relay.apart hs⟩, hs.told⟩

/-- Work of the connection itself stands for none in the other relay. -/
theorem InStep.put_own (h : InStep c t u) {s : State} {w : Option Work}
    (htalk : ∀ v, w = some v → v.isTalk = true) : InStep c (t.put c (s, w)) u := by
  cases w with
  | none =>
    refine { h with work_eq := fun j => ?_, talk := fun w hw => ?_ }
    · show _ = ((t.works.erase c).get? (skip c j)).map _
      rw [KeyTable.get?_erase, if_neg (skip_ne c j)]
      exact h.work_eq j
    · change (t.works.erase c).get? c = some w at hw
      rw [KeyTable.get?_erase, if_pos rfl] at hw
      cases hw
  | some w =>
    refine { h with work_eq := fun j => ?_, talk := fun v hv => ?_ }
    · show _ = ((t.works.insert c w).get? (skip c j)).map _
      rw [KeyTable.get?_insert, if_neg (skip_ne c j)]
      exact h.work_eq j
    · change (t.works.insert c w).get? c = some v at hv
      rw [KeyTable.get?_insert, if_pos rfl] at hv
      cases hv
      exact htalk w rfl

theorem Beside.own_put (h : Beside c t u) {o : State × Option Work}
    (ho : Work.Apart c t.relay o) : Own c t (t.put c o) u := by
  obtain ⟨s, w⟩ := o
  obtain ⟨hrelay, htalk⟩ := ho
  have hbeside := h.relay.apart hrelay
  refine ⟨⟨h.put_own htalk, ?_⟩, ?_⟩
  · cases w <;> exact hbeside
  · cases w <;> exact hrelay.told

theorem Beside.own_fail (h : Beside c t u) {s : State}
    (hs : State.Apart (Event.IsOwn c) c t.relay s) (d : Option Dropping) :
    Own c t { t with relay := s, failures := t.failures.insert c d } u := by
  refine ⟨⟨{ h.toInStep with failure_eq := fun j => ?_ }, h.relay.apart hs⟩, hs.told⟩
  show _ = ((t.failures.insert c d).get? (skip c j)).map _
  rw [KeyTable.get?_insert, if_neg (skip_ne c j)]
  exact h.failure_eq j

theorem Beside.own_accept (h : Beside c t u) {address : String}
    (hown : t.concerns c (.accept address) = true) : Own c t (t.accept address) u := by
  unfold Tasks.accept
  rcases Bool.or_eq_true_iff.1 hown with hbusy | hnext
  · -- It keeps the task busy, which accepts nobody.
    cases hserving : t.serving <;> rw [hserving] at hbusy <;> first | exact h.own_same | cases hbusy
  · rw [Bool.and_eq_true, decide_eq_true_eq, decide_eq_true_eq] at hnext
    obtain ⟨hserving, hnext⟩ := hnext
    rw [hserving]
    refine ⟨⟨{ h.toInStep with serving_eq := ?_ }, h.relay.nextKey hnext⟩, [],
      (List.append_nil _).symm, fun _ he => absurd he List.not_mem_nil⟩
    rw [h.serving_eq, hserving]
    exact (if_pos hnext).symm

theorem Beside.own_leave (h : Beside c t u) (hown : t.serving.isFor c = true) :
    Own c t t.leave u := by
  unfold Tasks.leave
  cases hserving : t.serving <;> rw [hserving] at hown <;> first | exact h.own_same | cases hown

theorem Beside.own_serve (h : Beside c t u) (hown : t.serving.isFor c = true) :
    Own c t t.serve u := by
  obtain ⟨hrelay, hserving⟩ := Serving.apart_for t.relay hown
  refine ⟨⟨{ h.toInStep with serving_eq := ?_ }, h.relay.apart hrelay⟩, hrelay.told⟩
  exact h.serving_eq.trans hserving.symm

theorem Beside.own_proceed (h : Beside c t u) {key : Nat}
    (hown : t.concerns c (.proceed key) = true) : Own c t (t.proceed key) u := by
  cases hw : t.works.get? key with
  | none =>
    unfold Tasks.proceed
    rw [hw]
    exact h.own_same
  | some w =>
    rw [proceed_of_get? hw]
    by_cases hkey : key = c
    · subst hkey
      exact h.own_put (Work.apart_proceed t.relay key (h.talk w hw))
    · -- Another peer's eviction is offered to the connection, or the connection is dropped for it.
      have hnext : w.isFor c = true := by
        simpa [concerns, hkey, hw] using hown
      obtain ⟨hrelay, hwork⟩ := Work.apart_for t.relay key hnext
      cases ho : w.proceed t.relay key with
      | mk s left =>
        rw [ho] at hrelay hwork
        obtain ⟨v, rfl, hv⟩ := Option.map_eq_some_iff.1 hwork
        refine ⟨⟨{ h.toInStep with work_eq := fun j => ?_, talk := fun v hv => ?_ },
          h.relay.apart hrelay⟩, hrelay.told⟩
        · show _ = ((t.works.insert key v).get? (skip c j)).map _
          rw [KeyTable.get?_insert, h.work_eq]
          split
          case isTrue hj =>
            rw [hj, hw]
            exact congrArg some hv.symm
          case isFalse => rfl
        · change (t.works.insert key _).get? c = some v at hv
          rw [KeyTable.get?_insert, if_neg (Ne.symm hkey)] at hv
          exact h.talk v hv

theorem Beside.own_settle (h : Beside c t u) : Own c t (t.settle c) u := by
  unfold Tasks.settle
  split
  next d hd => exact h.own_fail ((Dropping.apart_proceed t.relay c d).mono fun _ he => .inl he) _
  next => exact h.own_same

theorem Beside.step (h : Beside c t u) {x : Step} (hown : t.concerns c x = true)
    (hquiet : ∀ e ∈ t.startedAt x, e.2.isEviction = false) : Own c t (t.step x) u := by
  cases x with
  | accept address => exact h.own_accept hown
  | leave => exact h.own_leave hown
  | serve => exact h.own_serve hown
  | read key frame =>
    cases of_decide_eq_true hown
    show Own c t (t.read c frame) u
    change ∀ e ∈ (if t.canRead c then [(c, frame)] else []), e.2.isEviction = false at hquiet
    unfold Tasks.read
    split
    case isTrue hcan =>
      rw [if_pos hcan] at hquiet
      exact h.own_put (Work.apart_take t.relay c (hquiet (c, frame) List.mem_cons_self))
    case isFalse => exact h.own_same
  | giveUp key reason =>
    cases of_decide_eq_true hown
    show Own c t (t.giveUp c reason) u
    unfold Tasks.giveUp
    split
    · exact h.own_put (Work.apart_same fun w hw => by cases hw; rfl)
    · exact h.own_same
  | proceed key => exact h.own_proceed hown
  | keep key input =>
    cases of_decide_eq_true hown
    exact h.own_relay (.modify _)
  | take key =>
    cases of_decide_eq_true hown
    exact h.own_relay (apart_of_requeued (requeued_takeOutbound t.relay c))
  | failWriting key e =>
    cases of_decide_eq_true hown
    show Own c t (t.failWriting c e) u
    unfold Tasks.failWriting
    split
    · exact h.own_fail (.refl _ c t.relay) _
    · exact h.own_same
  | settle key =>
    cases of_decide_eq_true hown
    exact h.own_settle
  | stopWriting key =>
    cases of_decide_eq_true hown
    exact h.own_relay (apart_of_requeued (requeued_dropQueue t.relay c))
  | ask => cases hown
  | tell key =>
    cases of_decide_eq_true hown
    show Own c t (t.tell c) u
    unfold Tasks.tell
    split
    · exact h.own_relay (.modify _)
    · exact h.own_same
  | request => cases hown

/-! ### Runs -/

theorem fst_of_mem_startedAt {x : Step} {e : Nat × RawFrame} (he : e ∈ t.startedAt x)
    (hown : t.concerns c x = true) : e.1 = c := by
  cases x with
  | read key frame =>
    change e ∈ (if t.canRead key then [(key, frame)] else []) at he
    split at he
    · rw [List.mem_singleton.1 he]
      exact of_decide_eq_true hown
    · cases he
  | _ => cases he

/-- A run and the run without a connection that sends no eviction go side by side, and about the
others the same is reported. -/
theorem Beside.run (h : Beside c t u) (hc : 0 < c) (steps : List Step)
    (hquiet : ∀ e ∈ t.startedOver steps, e.1 = c → e.2.isEviction = false) :
    Beside c (t.run steps) (u.run (stepsWithout c t steps)) ∧
      ∃ et, (u.run (stepsWithout c t steps)).relay.journal = u.relay.journal ++ et ∧
        List.Forall₂ (Event.Same c) (notedOver c t steps) et := by
  induction steps generalizing t u with
  | nil => exact ⟨h, [], (List.append_nil _).symm, .nil⟩
  | cons x steps ih =>
    have hnow : ∀ e ∈ t.startedAt x, e.1 = c → e.2.isEviction = false :=
      fun e he => hquiet e (List.mem_append_left _ he)
    have hlater : ∀ e ∈ (t.step x).startedOver steps, e.1 = c → e.2.isEviction = false :=
      fun e he => hquiet e (List.mem_append_right _ he)
    unfold stepsWithout notedOver
    cases hown : t.concerns c x with
    | true =>
      obtain ⟨h', es, hes, hall⟩ := h.step hown fun e he =>
        hnow e he (fst_of_mem_startedAt he hown)
      simp only [if_pos, hes, List.drop_left, filter_own hall, List.nil_append]
      exact ih h' hlater
    | false =>
      have h' := h.mirrors.step hc hown
      obtain ⟨es, et, hes, het, hsame⟩ := h'.relay.told
      obtain ⟨hrun, et', het', hsame'⟩ := ih h'.beside hlater
      simp only [Bool.false_eq_true, if_false, hes, List.drop_left, Bool.false_and, Bool.or_false]
      refine ⟨hrun, et ++ et', ?_, List.rel_append hsame hsame'⟩
      exact het'.trans (by rw [het, List.append_assoc])

end Tasks

/-! ## The others are served the same -/

/-- Among the whole frames that a byte string starts with is no eviction. -/
def NoEviction (me : Identity) (limit : Nat) (bytes : Bytes) : Prop :=
  ∀ (raws : List Bytes) (rest : Bytes), bytes = raws.flatten ++ rest →
    (∀ raw ∈ raws, WholeFrame limit raw) → ∀ raw ∈ raws, evicted? me raw = none

theorem isEviction_of_evicted? {me : Identity} {limit : Nat} {timeout : Duration} {f : RawFrame}
    (hf : f.Sound ⟨me, limit, timeout⟩) (h : evicted? me f.bytes = none) :
    f.isEviction = false := by
  have hdecoded : Header.decode me f.bytes = .ok f.header := hf.decoded
  unfold evicted? at h
  rw [hdecoded] at h
  unfold RawFrame.isEviction
  by_cases hevict : f.header.op = .evict ∧ 0 < f.header.length
  · simp [hevict] at h
  · exact decide_eq_false hevict

theorem NoEviction.readings {config : Config} {identity : Identity} {inputs : List (Nat × Input)}
    (h : NoEviction identity config.maxMessageSize
      ((State.start config identity).bytesReadOver c inputs)) :
    ∀ r ∈ (State.start config identity).readingsOver inputs,
      r.sender = c → r.frame.isEviction = false := by
  intro r hr hsender
  have hsound : ∀ r ∈ (State.start config identity).readingsOver inputs,
      r.frame.Sound (State.start config identity).readRules := fun r hr =>
    (readingsOver_sound (State.sound_start config identity) inputs r hr).frame_sound
  -- The bytes that have been read begin with the frames that have been acted on.
  obtain ⟨rest, hsplit, -⟩ := stream_run (State.sound_start config identity) inputs c
  rw [show (State.start config identity).held c = [] from rfl, List.nil_append, bytesOf,
    List.flatMap_def] at hsplit
  refine isEviction_of_evicted? (hsound r hr) (h _ rest hsplit ?_ r.frame.bytes ?_)
  · intro raw hraw
    obtain ⟨q, hq, rfl⟩ := List.mem_map.1 hraw
    exact (hsound q (List.mem_filter.1 hq).1).whole
  · exact List.mem_map_of_mem (List.mem_filter.2 ⟨hr, decide_eq_true hsender⟩)

def guest : Identity :=
  ⟨List.replicate 16 5, rfl⟩

end EvictionBus.Relay
