import EvictionBus.Proofs.Relay.Runs

/-!
# The reasons for dropping a peer

The journal says why a peer has been dropped.  A peer in the table has no reason yet, and a peer
that has been dropped gets no further one.  `Parting` says so for every operation of a relay, and
which reasons the operation can have.
-/

namespace EvictionBus.Relay

def Event.reasonFor? (key : Nat) : Event → Option Disconnect
  | .disconnected j _ _ reason _ => if j = key then some reason else none
  | _ => none

/-- Why a peer has been dropped, for each time that it has been dropped. -/
def State.reasons (s : State) (key : Nat) : List Disconnect :=
  s.journal.filterMap (Event.reasonFor? key)

/-- The peer is dropped for something else than the bytes that it has sent: its connection fails, a
payload is late, its queue takes no more, or the relay stops. -/
def Disconnect.Foreign : Disconnect → Prop
  | .io _ | .payloadTimeout .. | .slowConsumer | .queueClosed | .shutdown => True
  | .closed | .oversized .. | .truncated _ | .malformed _ => False

/-- The peer is dropped for something that is neither in its bytes nor in their times. -/
def Disconnect.Outer : Disconnect → Prop
  | .io _ | .slowConsumer | .queueClosed | .shutdown => True
  | .closed | .oversized .. | .truncated _ | .malformed _ | .payloadTimeout .. => False

theorem Disconnect.Outer.foreign {reason : Disconnect} (h : reason.Outer) : reason.Foreign := by
  cases reason <;> first | exact trivial | exact h.elim

/-- From `s` to `t` a peer stays where it is, or it is dropped for one of the reasons `P`. -/
inductive Parting (P : Disconnect → Prop) (key : Nat) (s t : State) : Prop where
  | stays (member_eq : t.peers.contains key = s.peers.contains key)
      (reasons_eq : t.reasons key = s.reasons key)
  | dropped {reason : Disconnect} (allowed : P reason) (before : s.peers.contains key = true)
      (after : t.peers.contains key = false)
      (reasons_eq : t.reasons key = s.reasons key ++ [reason])

open State

variable {P : Disconnect → Prop} {key : Nat} {s t u : State}

namespace Parting

theorem refl (s : State) : Parting P key s s :=
  .stays rfl rfl

theorem trans (h : Parting P key s t) (h' : Parting P key t u) : Parting P key s u := by
  cases h with
  | stays hm hr =>
    cases h' with
    | stays hm' hr' => exact .stays (hm'.trans hm) (hr'.trans hr)
    | dropped hP hbefore hafter hr' =>
      exact .dropped hP (by rw [← hm, hbefore]) hafter (by rw [hr', hr])
  | dropped hP hbefore hafter hr =>
    cases h' with
    | stays hm' hr' => exact .dropped hP hbefore (hm'.trans hafter) (hr'.trans hr)
    | dropped _ hbefore' =>
      -- Nobody is dropped twice.
      rw [hafter] at hbefore'
      cases hbefore'

theorem mono {Q : Disconnect → Prop} (h : Parting P key s t) (hPQ : ∀ reason, P reason → Q reason) :
    Parting Q key s t := by
  cases h with
  | stays hm hr => exact .stays hm hr
  | dropped hP hbefore hafter hr => exact .dropped (hPQ _ hP) hbefore hafter hr

theorem reasons_of_not_member (h : Parting P key s t) (hs : s.peers.contains key = false) :
    t.reasons key = s.reasons key := by
  cases h with
  | stays _ hr => exact hr
  | dropped _ hbefore =>
    rw [hs] at hbefore
    cases hbefore

end Parting

/-! ## Operations -/

theorem reasons_note (s : State) (e : Event) (key : Nat) :
    (s.note e).reasons key = s.reasons key ++ (e.reasonFor? key).toList :=
  filterMap_note s e _

theorem parting_note {e : Event} (h : e.reasonFor? key = none) : Parting P key s (s.note e) :=
  .stays rfl (filterMap_note_of_none s h)

theorem reasons_disconnect (s : State) (j key : Nat) (reason : Disconnect) :
    (s.disconnect j reason).reasons key = s.reasons key ++
      if j = key ∧ s.peers.contains key = true then [reason] else [] := by
  cases hp : s.peers.get? j with
  | none =>
    rw [disconnect_of_get?_eq_none hp, if_neg, List.append_nil]
    rintro ⟨rfl, hm⟩
    rw [KeyTable.contains, hp] at hm
    cases hm
  | some p =>
    have hm : s.peers.contains j = true := by
      rw [KeyTable.contains, hp]
      rfl
    rw [disconnect_of_get? hp]
    refine (reasons_note _ _ key).trans ?_
    show _ ++ (if j = key then some reason else none).toList = _
    by_cases hj : j = key
    · subst hj
      rw [if_pos rfl, if_pos ⟨rfl, hm⟩]
      rfl
    · rw [if_neg hj, if_neg fun h => hj h.1]
      rfl

theorem parting_disconnect (s : State) {j : Nat} {reason : Disconnect} (h : j = key → P reason) :
    Parting P key s (s.disconnect j reason) := by
  have hr := reasons_disconnect s j key reason
  by_cases hj : j = key ∧ s.peers.contains key = true
  · rw [if_pos hj] at hr
    obtain ⟨rfl, hm⟩ := hj
    exact .dropped (h rfl) hm (disconnect_not_member s j reason) hr
  · rw [if_neg hj, List.append_nil] at hr
    refine .stays ?_ hr
    rw [disconnect_contains]
    by_cases hk : key = j
    · have hm : ¬ s.peers.contains key = true := fun hm => hj ⟨hk.symm, hm⟩
      rw [Bool.not_eq_true] at hm
      rw [hm, Bool.false_and]
    · rw [decide_eq_true hk, Bool.and_true]

theorem enqueue_error {j : Nat} {bytes : Bytes} {reason : Disconnect}
    (h : s.enqueue j bytes = .error reason) : reason.Outer := by
  unfold enqueue at h
  split at h
  · cases h
    exact trivial
  · split at h
    · cases h
    · cases h
      exact trivial
    · cases h
      exact trivial

theorem parting_enqueue {j : Nat} {bytes : Bytes} (h : s.enqueue j bytes = .ok t) :
    Parting P key s t := by
  unfold enqueue at h
  split at h
  · cases h
  · split at h
    · cases h
      exact .stays rfl rfl
    · cases h
    · cases h

theorem parting_offerAll (bytes : Bytes) (s : State) (keys : List Nat) :
    Parting Disconnect.Outer key s (offerAll bytes s keys).1 := by
  induction keys generalizing s with
  | nil => exact .refl s
  | cons j keys ih =>
    have hfirst : Parting Disconnect.Outer key s (offer bytes s j).1 := by
      unfold offer
      split
      next t ht => exact parting_enqueue ht
      next reason hr => exact parting_disconnect s fun _ => enqueue_error hr
    exact hfirst.trans (ih (offer bytes s j).1)

/-! ## Frames -/

theorem parting_handleEviction (s : State) (sender : Nat) (f : RawFrame) :
    Parting Disconnect.Outer key s (s.handleEviction sender f) := by
  -- It is counted and reported, and nobody is dropped before it is offered.
  apply Parting.trans _ (parting_offerAll f.bytes _ _)
  apply Parting.trans _ (parting_note rfl)
  apply Parting.trans _ (parting_note rfl)
  exact .stays (KeyTable.contains_modify ..) rfl

theorem parting_answerHello (s : State) (sender key : Nat) :
    Parting Disconnect.Outer key s (s.answerHello sender).1 ∧
      ∀ reason, (s.answerHello sender).2 = some reason → reason.Outer := by
  unfold answerHello
  split
  · split
    next t ht => exact ⟨parting_enqueue ht, nofun⟩
    next reason hr =>
      refine ⟨.refl s, fun r heq => ?_⟩
      cases heq
      exact enqueue_error hr
  · refine ⟨.refl s, fun r heq => ?_⟩
    cases heq
    exact trivial

/-- Acting on a frame drops others only because of their queues, and so is its sender if it is to
be. -/
theorem parting_handle (s : State) (sender : Nat) (f : RawFrame) (key : Nat) :
    Parting Disconnect.Outer key s (s.handle sender f).1 ∧
      ∀ reason, (s.handle sender f).2 = some reason → reason.Outer := by
  unfold handle
  split
  · split
    · exact ⟨parting_handleEviction s sender f, nofun⟩
    · exact ⟨parting_note rfl, nofun⟩
  · rw [handleHello_eq]
    have hgreeted : Parting Disconnect.Outer key s (s.greeted sender f) := by
      apply Parting.trans _ (parting_note rfl)
      exact .stays (KeyTable.contains_modify ..) rfl
    obtain ⟨hanswer, hreason⟩ := parting_answerHello (s.greeted sender f) sender key
    exact ⟨hgreeted.trans hanswer, hreason⟩
  · exact ⟨parting_note rfl, nofun⟩

theorem parting_handleAll (s : State) (sender : Nat) (fs : List RawFrame) (key : Nat) :
    Parting Disconnect.Outer key s (s.handleAll sender fs).1 ∧
      ∀ reason, (s.handleAll sender fs).2 = some reason → reason.Outer := by
  induction fs generalizing s with
  | nil => exact ⟨.refl s, nofun⟩
  | cons f fs ih =>
    obtain ⟨hfirst, hreason⟩ := parting_handle s sender f key
    cases h : s.handle sender f with
    | mk t outcome =>
      rw [h] at hfirst hreason
      cases outcome with
      | none =>
        rw [handleAll_cons_none fs h]
        obtain ⟨hrest, hreason'⟩ := ih t
        exact ⟨hfirst.trans hrest, hreason'⟩
      | some reason =>
        rw [handleAll_cons_some fs h]
        exact ⟨hfirst, hreason⟩

/-! ## Inputs -/

/-- The peer itself sends something, or ends its side. -/
def Input.IsFrom (key : Nat) (input : Input) : Prop :=
  input = .ended key ∨ ∃ bytes, input = .arrived key bytes

theorem parting_disconnectAll (s : State) (keys : List Nat) :
    Parting Disconnect.Outer key s (s.disconnectAll keys) := by
  induction keys generalizing s with
  | nil => exact .refl s
  | cons j keys ih =>
    have hfirst : Parting Disconnect.Outer key s (s.disconnect j .shutdown) :=
      parting_disconnect s fun _ => trivial
    exact hfirst.trans (ih _)

theorem parting_shutDown (s : State) : Parting Disconnect.Outer key s s.shutDown := by
  unfold shutDown
  split
  · exact .refl s
  · apply Parting.trans _ (parting_note rfl)
    apply Parting.trans _ (parting_disconnectAll _ _)
    apply Parting.trans _ (parting_note rfl)
    exact .stays rfl rfl

/-- What a header is refused for is in the header. -/
theorem feed_own {rules : ReadRules} {now : Nat} {r : Reader} {bytes : Bytes}
    {reason : Disconnect} (h : (r.feed rules now bytes).2 = .error reason) :
    ¬ reason.Foreign := by
  have hjudge : ∀ {bs reason}, Reader.judge rules now bs = .refused reason →
      ¬ reason.Foreign := by
    intro bs reason h
    unfold Reader.judge at h
    split at h
    · cases h
      exact id
    · split at h
      · cases h
        exact id
      · split at h <;> cases h
  induction bytes generalizing r with
  | nil => cases h
  | cons b bytes ih =>
    unfold Reader.feed at h
    cases hp : r.push rules now b with
    | reading next =>
      rw [hp] at h
      exact ih h
    | complete f =>
      rw [hp] at h
      exact ih h
    | refused refusal =>
      rw [hp] at h
      cases h
      -- Only a whole header is refused.
      cases r with
      | inHeader read missing =>
        rw [Reader.push] at hp
        split at hp
        · cases hp
        · exact hjudge hp
      | inPayload header read missing deadline =>
        rw [Reader.push] at hp
        split at hp <;> cases hp

theorem parting_receive (s : State) (now : Nat) {sender : Nat} (bytes : Bytes)
    (h : sender = key → ∀ reason, ¬ reason.Foreign → P reason)
    (houter : ∀ reason, reason.Outer → P reason) :
    Parting P key s (s.receive now sender bytes) := by
  cases hc : s.reading? sender with
  | none =>
    rw [receive_of_not_reading hc]
    exact .refl s
  | some c =>
    obtain ⟨hall, hreason⟩ :=
      parting_handleAll s sender (c.input.feed s.readRules now bytes).1 key
    replace hall := hall.mono houter
    cases hh : s.handleAll sender (c.input.feed s.readRules now bytes).1 with
    | mk t outcome =>
      rw [hh] at hall hreason
      cases outcome with
      | some reason =>
        rw [receive_of_unanswered hc hh]
        exact hall.trans (parting_disconnect t fun _ => houter _ (hreason reason rfl))
      | none =>
        cases hrest : (c.input.feed s.readRules now bytes).2 with
        | ok input =>
          rw [receive_of_read hc hh hrest]
          exact hall.trans (.stays rfl rfl)
        | error reason =>
          rw [receive_of_refused hc hh hrest]
          exact hall.trans (parting_disconnect t fun hk => h hk reason (feed_own hrest))

theorem parting_requeued {j : Nat} (h : s.Requeued j t) : Parting P key s t := by
  cases h <;> exact .stays rfl rfl

theorem late_foreign {r : Reader} {rules : ReadRules} {now : Nat} {reason : Disconnect}
    (h : r.late? rules now = some reason) : reason.Foreign := by
  unfold Reader.late? at h
  split at h
  · cases h
  · split at h
    · cases h
      exact trivial
    · cases h

/-- Why the deadline of a peer drops it at a time, if it does. -/
def State.late? (s : State) (now key : Nat) : Option Disconnect :=
  (s.reading? key).bind fun c => c.input.late? s.readRules now

theorem State.checkDeadline_of_late {now : Nat} {reason : Disconnect} (h : s.late? now key = some reason) :
    s.checkDeadline now key = s.disconnect key reason := by
  unfold checkDeadline
  unfold late? at h
  rw [h]

theorem State.checkDeadline_of_none {now : Nat} (h : s.late? now key = none) :
    s.checkDeadline now key = s := by
  unfold checkDeadline
  unfold late? at h
  rw [h]

/-- The reasons for which an input can drop a peer. -/
inductive Cause (s : State) (now key : Nat) : Input → Disconnect → Prop where
  | outer {input : Input} {reason : Disconnect} (h : reason.Outer) : Cause s now key input reason
  | stream {input : Input} {reason : Disconnect} (h : input.IsFrom key) (own : ¬ reason.Foreign) :
      Cause s now key input reason
  | late {reason : Disconnect} (h : s.late? now key = some reason) :
      Cause s now key (.timer key) reason

theorem atEnd_own (r : Reader) : ¬ r.atEnd.Foreign := by
  cases r <;> exact id

/-- A peer is dropped for its stream, at its deadline, or for something that is not its own.  A key
that is given out at the input has no reasons before. -/
theorem parting_cause (s : State) (now : Nat) (input : Input)
    (hkey : key ≤ s.lastKey ∨ (s.after now input).lastKey < key) :
    Parting (Cause s now key input) key s (s.after now input) := by
  cases input with
  | connected address =>
    cases hstop : s.stopping with
    | true =>
      have hafter : s.after now (.connected address) = s := if_pos hstop
      rw [hafter]
      exact .refl s
    | false =>
      rw [after_connected hstop] at hkey ⊢
      have hne : key ≠ s.lastKey + 1 := by
        have hlast : (s.accept address).2.lastKey = s.lastKey + 1 := rfl
        omega
      apply Parting.stays
      · rw [accept_contains, if_neg hne]
      · exact (reasons_note _ _ key).trans (List.append_nil _)
  | arrived sender bytes =>
    exact parting_receive s now bytes
      (fun hk _ hown => .stream (.inr ⟨bytes, by rw [hk]⟩) hown) fun _ => .outer
  | ended sender =>
    show Parting _ key s (s.inputEnded sender)
    unfold inputEnded
    split
    · exact .refl s
    next c _ =>
      exact parting_disconnect s fun hk => .stream (.inl (by rw [hk])) (atEnd_own c.input)
  | readFailed sender e =>
    show Parting _ key s (s.inputFailed sender e)
    unfold inputFailed
    split
    · exact .refl s
    · exact parting_disconnect s fun _ => .outer trivial
  | timer sender =>
    show Parting _ key s (s.checkDeadline now sender)
    unfold checkDeadline
    split
    · exact .refl s
    next reason hr =>
      refine parting_disconnect s fun hk => ?_
      subst hk
      exact .late hr
  | taken sender => exact parting_requeued (requeued_takeOutbound s sender)
  | writeFailed sender e => exact parting_disconnect s fun _ => .outer trivial
  | writerStopped sender => exact parting_requeued (requeued_dropQueue s sender)
  | shutDown => exact (parting_shutDown s).mono fun _ => .outer

/-- Only what a peer sends can be the reason, if the reason is not a foreign one. -/
theorem parting_after (s : State) (now : Nat) (input : Input)
    (hkey : key ≤ s.lastKey ∨ (s.after now input).lastKey < key) :
    Parting (fun reason => reason.Foreign ∨ input.IsFrom key) key s (s.after now input) := by
  refine (parting_cause s now input hkey).mono fun reason hcause => ?_
  cases hcause with
  | outer h => exact .inl h.foreign
  | stream h => exact .inr h
  | late h =>
    obtain ⟨c, -, hlate⟩ := Option.bind_eq_some_iff.1 h
    exact .inl (late_foreign hlate)

/-! ## Runs -/

/-- The reason for which a peer has been dropped stays the only one. -/
theorem State.Gone.reasons_run (h : s.Gone key) (hs : s.Sound) (inputs : List (Nat × Input)) :
    (s.run inputs).reasons key = s.reasons key := by
  induction inputs generalizing s with
  | nil => rfl
  | cons i inputs ih =>
    obtain ⟨now, input⟩ := i
    have hf := follows_after hs now input
    have hsame := (parting_after s now input (.inl h.key_le)).reasons_of_not_member h.not_member
    exact (ih (h.follows hf) hf.sound).trans hsame

/-- There is nothing about a key that has not been given out yet. -/
theorem reasons_of_fresh (hs : s.Sound) (hfresh : ∀ j, s.lastKey < j → s.reasons j = [])
    (inputs : List (Nat × Input)) (hkey : (s.run inputs).lastKey < key) :
    (s.run inputs).reasons key = [] := by
  induction inputs generalizing s with
  | nil => exact hfresh key hkey
  | cons i inputs ih =>
    obtain ⟨now, input⟩ := i
    have hf := follows_after hs now input
    apply ih hf.sound _ hkey
    intro j hj
    have hle := hf.lastKey_le
    have hnot : s.peers.contains j = false := by
      cases hm : s.peers.contains j with
      | false => rfl
      | true =>
        obtain ⟨c, hc⟩ := hs.member_connected hm
        have := hs.key_le hc
        omega
    rw [(parting_after s now input (.inr hj)).reasons_of_not_member hnot]
    exact hfresh j (by omega)

end EvictionBus.Relay
