import EvictionBus.Proofs.Relay.Streams
import EvictionBus.Proofs.Relay.Tasks
import EvictionBus.Proofs.Relay.Without

/-!
# A connection that sends no eviction

As long as a connection sends no eviction, whatever it does concerns nobody else: it may be named
and answered, and it may be dropped.  A run of a relay and the run without that connection go side
by side.
-/

namespace EvictionBus.Relay

variable {c i : Nat}

namespace State

variable {js jt : List Event} {s t : State}

/-! ## Frames from the one connection -/

theorem apart_handleHello (s : State) (c : Nat) (f : RawFrame) :
    Apart (Event.IsOwn c) c s (s.handleHello c f).1 := by
  rw [handleHello_eq]
  have hgreeted : Apart (Event.IsOwn c) c s (s.greeted c f) := by
    unfold greeted PeerTable.setNickname
    refine Apart.trans (.of_peers _ fun j hj => ?_) (.note (.inr rfl))
    rw [KeyTable.get?_modify, if_neg hj]
  refine hgreeted.trans ?_
  unfold answerHello
  split
  · cases h : (s.greeted c f).enqueue c (s.greeted c f).welcome with
    | ok t => exact apart_enqueue h
    | error reason => exact Apart.refl _ c _
  · exact Apart.refl _ c _

theorem apart_handle (s : State) (c : Nat) {f : RawFrame} (hf : f.isEviction = false) :
    Apart (Event.IsOwn c) c s (s.handle c f).1 := by
  unfold handle
  cases hop : f.header.op with
  | evict =>
    have hempty : ¬ 0 < f.header.length := fun hpos => by
      simp [RawFrame.isEviction, hop, hpos] at hf
    simp only [if_neg hempty]
    exact .note (.inr rfl)
  | hello => exact apart_handleHello s c f
  | welcome => exact .note (.inr rfl)
  | other code => exact .note (.inr rfl)

theorem apart_handleAll (s : State) (c : Nat) {fs : List RawFrame}
    (hfs : ∀ r ∈ s.readings c fs, r.frame.isEviction = false) :
    Apart (Event.IsOwn c) c s (s.handleAll c fs).1 := by
  induction fs generalizing s with
  | nil => exact Apart.refl _ c s
  | cons f fs ih =>
    have hf := apart_handle s c (hfs ⟨s, c, f⟩ List.mem_cons_self)
    unfold readings at hfs
    unfold handleAll
    cases h : s.handle c f with
    | mk t refused =>
      rw [h] at hf hfs
      cases refused with
      | none => exact hf.trans (ih t fun r hr => hfs r (List.mem_cons_of_mem _ hr))
      | some reason => exact hf

theorem apart_drop {reason : Disconnect} :
    Apart (Event.IsOwn c) c s (s.disconnect c reason) :=
  (apart_disconnect s c reason).mono fun _ he => .inl he

theorem apart_receive (s : State) (now c : Nat) (bytes : Bytes)
    (h : ∀ r ∈ s.readingsAt now (.arrived c bytes), r.frame.isEviction = false) :
    Apart (Event.IsOwn c) c s (s.receive now c bytes) := by
  cases hx : s.reading? c with
  | none =>
    rw [receive_of_not_reading hx]
    exact Apart.refl _ c s
  | some x =>
    rw [readingsAt_of_reading hx] at h
    have hall := apart_handleAll s c h
    unfold receive
    rw [hx]
    simp only
    cases hh : s.handleAll c (x.input.feed s.readRules now bytes).1 with
    | mk t refused =>
      rw [hh] at hall
      cases refused with
      | some reason => exact hall.trans apart_drop
      | none =>
        cases (x.input.feed s.readRules now bytes).2 with
        | ok input => exact hall.trans (.modify _)
        | error reason => exact hall.trans apart_drop

theorem apart_of_drop (h : t = s ∨ ∃ reason, t = s.disconnect c reason) :
    Apart (Event.IsOwn c) c s t := by
  rcases h with rfl | ⟨reason, rfl⟩
  · exact Apart.refl _ c t
  · exact apart_drop

theorem apart_of_requeued {P : Event → Prop} (h : s.Requeued c t) : Apart P c s t := by
  cases h with
  | same => exact Apart.refl _ c s
  | queue => exact .insert _

end State

/-! ## Inputs -/

/-- The same input for the relay without connection `c`. -/
def Input.renumber (c : Nat) : Input → Input
  | .connected address => .connected address
  | .arrived key bytes => .arrived (Relay.renumber c key) bytes
  | .ended key => .ended (Relay.renumber c key)
  | .readFailed key e => .readFailed (Relay.renumber c key) e
  | .timer key => .timer (Relay.renumber c key)
  | .taken key => .taken (Relay.renumber c key)
  | .writeFailed key e => .writeFailed (Relay.renumber c key) e
  | .writerStopped key => .writerStopped (Relay.renumber c key)
  | .shutDown => .shutDown

namespace State

variable {js jt : List Event} {s t : State}

/-- The input is about connection `c`: it comes, or something happens to it. -/
def concerns (s : State) (c : Nat) : Input → Bool
  | .connected _ => s.lastKey + 1 = c ∧ s.stopping = false
  | .arrived key _ | .ended key | .readFailed key _ | .timer key | .taken key
  | .writeFailed key _ | .writerStopped key => key = c
  | .shutDown => false

/-- A run without connection `c`. -/
def inputsWithout (c : Nat) (s : State) : List (Nat × Input) → List (Nat × Input)
  | [] => []
  | (now, input) :: inputs =>
    let rest := inputsWithout c (s.after now input) inputs
    if s.concerns c input then rest else (now, input.renumber c) :: rest

/-- What is reported at an input. -/
def notedAt (s : State) (now : Nat) (input : Input) : List Event :=
  (s.after now input).journal.drop s.journal.length

/-- What is reported in a run about others than connection `c`: that it comes or goes is left out,
and so is the talk with it. -/
def notedOver (c : Nat) (s : State) : List (Nat × Input) → List Event
  | [] => []
  | (now, input) :: inputs =>
    (s.notedAt now input).filter (fun e => !(e.isOf c || s.concerns c input && e.isChat)) ++
      notedOver c (s.after now input) inputs

/-- The key of the connection that comes next. -/
theorem Beside.skip_next (h : Beside c s t) (hc : 0 < c) (hother : s.lastKey + 1 ≠ c) :
    skip c (t.lastKey + 1) = s.lastKey + 1 := by
  rw [h.lastKey_eq]
  unfold skip
  by_cases hle : c ≤ s.lastKey
  · rw [if_pos hle, if_neg (by omega)]
    omega
  · rw [if_neg hle, if_pos (by omega)]

theorem Mirrors.accept (h : Mirrors c js jt s t) (hc : 0 < c) (hother : s.lastKey + 1 ≠ c)
    (address : String) : Mirrors c js jt (s.accept address).2 (t.accept address).2 := by
  have hkey := h.toBeside.skip_next hc hother
  let registered (u : State) : State := { u with
    lastKey := u.lastKey + 1
    peers := u.peers.insert (u.lastKey + 1) (.ofAddress address)
    connections := u.connections.insert (u.lastKey + 1)
      ⟨.ofDepth u.config.queueDepth, .start, u.stopping⟩ }
  have hregistered : Mirrors c js jt (registered s) (registered t) := by
    refine h.of_beside ⟨h.config_eq, h.identity_eq, ?_, h.broadcasts_eq, h.stopping_eq,
      fun j => ?_, fun j => ?_⟩ rfl rfl
    · show t.lastKey + 1 = if c ≤ s.lastKey + 1 then s.lastKey + 1 - 1 else s.lastKey + 1
      rw [h.lastKey_eq]
      by_cases hle : c ≤ s.lastKey
      · rw [if_pos hle, if_pos (by omega)]
        omega
      · rw [if_neg hle, if_neg (by omega)]
    · simp only [registered, KeyTable.get?_insert, ← hkey, skip_inj, h.peer_eq]
    · simp only [registered, KeyTable.get?_insert, ← hkey, skip_inj, h.connection_eq,
        h.config_eq, h.stopping_eq]
  have hsame : Event.Same c (.accepted (s.lastKey + 1) address (registered s).peers.size)
      (.accepted (t.lastKey + 1) address (registered t).peers.size) := by
    rw [← hkey]
    exact .accepted ..
  exact hregistered.note hsame

/-- The connection that is left out comes. -/
theorem Beside.accept (h : Beside c s t) (hown : s.lastKey + 1 = c) (address : String) :
    Beside c (s.accept address).2 t := by
  subst hown
  refine ⟨h.config_eq, h.identity_eq, ?_, h.broadcasts_eq, h.stopping_eq, fun j => ?_, fun j => ?_⟩
  · show t.lastKey = if s.lastKey + 1 ≤ s.lastKey + 1 then s.lastKey + 1 - 1 else _
    rw [h.lastKey_eq, if_neg (by omega), if_pos (Nat.le_refl _)]
    rfl
  · show _ = (s.peers.insert _ _).get? _
    rw [KeyTable.get?_insert, if_neg (skip_ne _ j), h.peer_eq]
  · show _ = (s.connections.insert _ _).get? _
    rw [KeyTable.get?_insert, if_neg (skip_ne _ j), h.connection_eq]

theorem Mirrors.receive (h : Mirrors c js jt s t) (now i : Nat) (bytes : Bytes) :
    Mirrors c js jt (s.receive now (skip c i) bytes) (t.receive now i bytes) := by
  unfold State.receive
  rw [h.reading?_eq]
  cases s.reading? (skip c i) with
  | none => exact h
  | some x =>
    simp only [h.readRules_eq]
    obtain ⟨hall, hrefused⟩ := h.handleAll i (x.input.feed s.readRules now bytes).1
    cases hs : s.handleAll (skip c i) (x.input.feed s.readRules now bytes).1 with
    | mk s' refused =>
      cases ht : t.handleAll i (x.input.feed s.readRules now bytes).1 with
      | mk t' refused' =>
        rw [hs, ht] at hall hrefused
        cases hrefused
        cases refused with
        | some reason => exact hall.disconnect i reason
        | none =>
          cases (x.input.feed s.readRules now bytes).2 with
          | ok input => exact hall.modify i _
          | error reason => exact hall.disconnect i reason

theorem Mirrors.takeOutbound (h : Mirrors c js jt s t) (i : Nat) :
    Mirrors c js jt (s.takeOutbound (skip c i)).2 (t.takeOutbound i).2 := by
  unfold State.takeOutbound
  rw [h.connection_eq]
  cases s.connections.get? (skip c i) with
  | none => exact h
  | some x =>
    simp only [h.contains_eq]
    split
    · exact h
    · exact h.insert i _

theorem Mirrors.dropQueue (h : Mirrors c js jt s t) (i : Nat) :
    Mirrors c js jt (s.dropQueue (skip c i)).2 (t.dropQueue i).2 := by
  unfold State.dropQueue changeQueue
  rw [h.connection_eq]
  cases s.connections.get? (skip c i) with
  | none => exact h
  | some x =>
    simp only
    split
    · exact h
    · exact h.insert i _

theorem Mirrors.disconnectAll (h : Mirrors c js jt s t) {keys left : List Nat}
    (hkeys : left.map (skip c) = keys.filter (· ≠ c)) :
    Mirrors c js jt (s.disconnectAll keys) (t.disconnectAll left) := by
  induction keys generalizing s t left with
  | nil =>
    cases List.map_eq_nil_iff.1 hkeys
    exact h
  | cons key keys ih =>
    by_cases hkey : key = c
    · subst hkey
      rw [List.filter_cons_of_neg (by simp)] at hkeys
      exact ih (h.apart (apart_disconnect s key .shutdown)) hkeys
    · rw [List.filter_cons_of_pos (by simpa using hkey)] at hkeys
      obtain ⟨i, left, rfl, rfl, hleft⟩ := List.map_eq_cons_iff.1 hkeys
      exact ih (h.disconnect i .shutdown) hleft

theorem Mirrors.cancelAll (h : Mirrors c js jt s t) :
    Mirrors c js jt
      { s with
        stopping := true
        connections := s.connections.mapValues fun _ x => { x with cancelled := true } }
      { t with
        stopping := true
        connections := t.connections.mapValues fun _ x => { x with cancelled := true } } := by
  refine h.of_beside ⟨h.config_eq, h.identity_eq, h.lastKey_eq, h.broadcasts_eq, rfl, h.peer_eq,
    fun j => ?_⟩ rfl rfl
  simp only [KeyTable.get?_mapValues, h.connection_eq]

theorem Mirrors.stop (h : Mirrors c js jt s t) :
    Mirrors c js jt (s.note (.stopped s.broadcasts)) (t.note (.stopped t.broadcasts)) := by
  rw [h.broadcasts_eq]
  exact h.note (.stopped _)

theorem Mirrors.shutDown (h : Mirrors c js jt s t) : Mirrors c js jt s.shutDown t.shutDown := by
  unfold State.shutDown
  rw [h.stopping_eq]
  split
  · exact h
  · have hleft := (h.cancelAll.note .shutdownRequested).disconnectAll (keys_of_skip h.peer_eq)
    exact hleft.stop

theorem Mirrors.after (h : Mirrors c js jt s t) (hc : 0 < c) (now : Nat) {input : Input}
    (hother : s.concerns c input = false) :
    Mirrors c js jt (s.after now input) (t.after now (input.renumber c)) := by
  have hkey : ∀ {key : Nat}, decide (key = c) = false → skip c (renumber c key) = key :=
    fun hne => skip_renumber (of_decide_eq_false hne)
  cases input with
  | connected address =>
    unfold State.after Input.renumber
    simp only [h.stopping_eq]
    split
    case isTrue => exact h
    case isFalse hgoing =>
      refine h.accept hc (fun hown => ?_) address
      simp [concerns, hown, hgoing] at hother
  | arrived key bytes =>
    have := h.receive now (renumber c key) bytes
    rw [hkey hother] at this
    exact this
  | ended key =>
    unfold State.after Input.renumber State.inputEnded
    simp only [h.reading?_eq, hkey hother]
    cases s.reading? key with
    | none => exact h
    | some x =>
      have := h.disconnect (renumber c key) x.input.atEnd
      rw [hkey hother] at this
      exact this
  | readFailed key e =>
    unfold State.after Input.renumber State.inputFailed
    simp only [h.reading?_eq, hkey hother]
    cases s.reading? key with
    | none => exact h
    | some x =>
      have := h.disconnect (renumber c key) (.io e)
      rw [hkey hother] at this
      exact this
  | timer key =>
    unfold State.after Input.renumber checkDeadline
    simp only [h.reading?_eq, hkey hother, h.readRules_eq]
    cases (s.reading? key).bind fun x => x.input.late? s.readRules now with
    | none => exact h
    | some reason =>
      have := h.disconnect (renumber c key) reason
      rw [hkey hother] at this
      exact this
  | taken key =>
    have := h.takeOutbound (renumber c key)
    rw [hkey hother] at this
    exact this
  | writeFailed key e =>
    have := h.disconnect (renumber c key) (.io e)
    rw [hkey hother] at this
    exact this
  | writerStopped key =>
    have := h.dropQueue (renumber c key)
    rw [hkey hother] at this
    exact this
  | shutDown => exact h.shutDown

/-- An input about connection `c`, from which no eviction is read, changes nothing for the others,
and all that is reported is of that connection. -/
theorem Beside.after (h : Beside c s t) (now : Nat) {input : Input}
    (hown : s.concerns c input = true)
    (hquiet : ∀ r ∈ s.readingsAt now input, r.frame.isEviction = false) :
    Beside c (s.after now input) t ∧
      ∃ es, (s.after now input).journal = s.journal ++ es ∧ ∀ e ∈ es, e.IsOwn c := by
  have hapart : ∀ {u : State}, Apart (Event.IsOwn c) c s u →
      Beside c u t ∧ ∃ es, u.journal = s.journal ++ es ∧ ∀ e ∈ es, e.IsOwn c :=
    fun ha => ⟨h.apart ha, ha.told⟩
  cases input with
  | connected address =>
    obtain ⟨hnext, hgoing⟩ := of_decide_eq_true hown
    rw [after_connected hgoing]
    refine ⟨h.accept hnext address, _, rfl, fun e he => .inl ?_⟩
    rw [List.mem_singleton.1 he]
    exact decide_eq_true hnext
  | arrived key bytes =>
    cases of_decide_eq_true hown
    exact hapart (apart_receive s now c bytes hquiet)
  | ended key =>
    cases of_decide_eq_true hown
    exact hapart (apart_of_drop (inputEnded_cases s c))
  | readFailed key e =>
    cases of_decide_eq_true hown
    exact hapart (apart_of_drop (inputFailed_cases s c e))
  | timer key =>
    cases of_decide_eq_true hown
    exact hapart (apart_of_drop (checkDeadline_cases s now c))
  | taken key =>
    cases of_decide_eq_true hown
    exact hapart (apart_of_requeued (requeued_takeOutbound s c))
  | writeFailed key e =>
    cases of_decide_eq_true hown
    exact hapart apart_drop
  | writerStopped key =>
    cases of_decide_eq_true hown
    exact hapart (apart_of_requeued (requeued_dropQueue s c))
  | shutDown => cases hown

/-! ## Runs -/

theorem filter_own {es : List Event} (h : ∀ e ∈ es, e.IsOwn c) :
    es.filter (fun e => !(e.isOf c || true && e.isChat)) = [] := by
  refine List.filter_eq_nil_iff.2 fun e he => ?_
  rcases h e he with he | he <;> simp [he]

theorem concerns_of_sender (s : State) (now : Nat) {input : Input} {r : Reading}
    (hr : r ∈ s.readingsAt now input) (hown : s.concerns c input = true) : r.sender = c := by
  cases input with
  | arrived key bytes =>
    cases hx : s.reading? key with
    | none =>
      rw [readingsAt_of_not_reading hx] at hr
      cases hr
    | some x =>
      rw [readingsAt_of_reading hx] at hr
      exact (sender_of_mem_readings r hr).trans (of_decide_eq_true hown)
  | _ => cases hr

/-- A run and the run without a connection from which no eviction is read go side by side, and about
the others the same is reported. -/
theorem Beside.run (h : Beside c s t) (hc : 0 < c) (inputs : List (Nat × Input))
    (hquiet : ∀ r ∈ s.readingsOver inputs, r.sender = c → r.frame.isEviction = false) :
    Beside c (s.run inputs) (t.run (inputsWithout c s inputs)) ∧
      ∃ et, (t.run (inputsWithout c s inputs)).journal = t.journal ++ et ∧
        List.Forall₂ (Event.Same c) (notedOver c s inputs) et := by
  induction inputs generalizing s t with
  | nil => exact ⟨h, [], (List.append_nil _).symm, .nil⟩
  | cons head inputs ih =>
    obtain ⟨now, input⟩ := head
    have hnow : ∀ r ∈ s.readingsAt now input, r.sender = c → r.frame.isEviction = false :=
      fun r hr => hquiet r (List.mem_append_left _ hr)
    have hlater : ∀ r ∈ (s.after now input).readingsOver inputs,
        r.sender = c → r.frame.isEviction = false :=
      fun r hr => hquiet r (List.mem_append_right _ hr)
    unfold inputsWithout notedOver notedAt
    cases hown : s.concerns c input with
    | true =>
      obtain ⟨h', es, hes, hall⟩ := h.after now hown fun r hr =>
        hnow r hr (concerns_of_sender s now hr hown)
      simp only [if_pos, hes, List.drop_left, filter_own hall, List.nil_append]
      exact ih h' hlater
    | false =>
      obtain ⟨h', es, et, hes, het, hsame⟩ := h.mirrors.after hc now hown
      obtain ⟨hrun, et', het', hsame'⟩ := ih h' hlater
      simp only [Bool.false_eq_true, if_false, hes, List.drop_left, Bool.false_and, Bool.or_false]
      refine ⟨hrun, et ++ et', ?_, List.rel_append hsame hsame'⟩
      exact het'.trans (by rw [het, List.append_assoc])

end State

end EvictionBus.Relay
